import EditorDocs.Proofs.FileSystem.Children
import EditorDocs.Proofs.World.Files

/-!
# Directories that are missing

A path that leads to a name which is absent shows nothing, and neither does a path with more names
behind it (`State.IsMissing.glance_child`).  To make the directories that are missing on a path, none of
whose names is long or goes up, either changes nothing or succeeds.  In the second case the path was
missing, and the directory to which it leads is empty (`Files.exec_makePath_comes`).
-/

namespace EditorDocs

open FileSystem

namespace FileSystem

/-! ## Paths of spelled names -/

/-- A path whose names are spelled is proper. -/
lemma isProper_of_isName {p : Path} (hnames : ∀ name ∈ p.names, IsName name) : p.IsProper :=
  fun name hname => ⟨(hnames name hname).regular.isIdle, (hnames name hname).noSlash⟩

/-- A path is no longer than one with one more name behind it. -/
lemma byteLength_le_childPath {p : Path} {name : Name} (hne : name ≠ []) :
    byteLength p.text ≤ byteLength (childPath p name).text := by
  by_cases hnames : p.names = []
  · rw [text_childPath_of_eq_nil hnames, Path.text_eq_root hnames, byteLength_append]
    have hname : byteLength name ≠ 0 := by
      rw [byteLength_eq_length]
      exact fun hnil => hne (eq_nil_of_bytesOf (List.length_eq_zero_iff.mp hnil))
    split
    · have hdot : byteLength (".": Text) = 1 := by decide
      omega
    · omega
  · rw [text_childPath_of_ne_nil hnames, byteLength_append]
    omega

/-- A path with a name is the path of its last name in its parent. -/
lemma exists_childPath_parent {p : Path} (hnames : p.names ≠ []) :
    ∃ name ∈ p.names, p = childPath p.parent name := by
  refine ⟨p.names.getLast hnames, List.getLast_mem hnames, ?_⟩
  simp [childPath, Path.append, Path.parent, List.dropLast_concat_getLast]

/-! ## Missing paths -/

/-- Names that stay where they are lead to no other name. -/
lemma Lands.ne_edge_of_idle {f : Location → Option Fixture} {m : Manner} {links : Nat}
    {loc : Location} {names : List Name} {l : Landing} (h : Lands f m links loc names l)
    (hidle : ∀ n ∈ names, (n.isEmpty || n = dot) = true) (parent : Location) (name : Name)
    (rest : List Name) : l ≠ .edge parent name rest := by
  induction h with
  | stop _ => simp
  | off _ => simp
  | idle _ _ _ ih => exact ih fun n hn => hidle n (List.mem_cons_of_mem _ hn)
  | up _ _ _ => exact absurd (hidle _ List.mem_cons_self) (by decide)
  | edge _ hpass _ => exact absurd (hidle _ List.mem_cons_self) hpass.notIdle
  | down _ hpass _ _ _ => exact absurd (hidle _ List.mem_cons_self) hpass.notIdle
  | link _ hpass _ _ => exact absurd (hidle _ List.mem_cons_self) hpass.notIdle
  | through _ hpass _ _ _ _ => exact absurd (hidle _ List.mem_cons_self) hpass.notIdle

namespace State

variable {s s' : State} {p : Path} {name : Name}

/-- The path leads to a name that is absent, at its end or on the way. -/
def IsMissing (s : State) (path : Text) : Prop :=
  ∃ parent name rest, land s.frame s.home .lookup path = .ok (.edge parent name rest) ∧
    s.view (parent ++ [name]) = none

/-- A path that leads to an absent name shows nothing. -/
lemma glance_of_edge {m : Manner} {path : Text} {parent : Location} {name : Name} {rest : List Name}
    (hland : land s.frame s.home m path = .ok (.edge parent name rest))
    (hnone : s.view (parent ++ [name]) = none) : s.glance m path = .error .noEntry := by
  rw [glance, locate_of_landing hland, settle, find?_eq_none_of_view hnone]
  by_cases hrest : rest.all List.isEmpty = true
  · simp only [if_pos hrest]
  · simp only [if_neg hrest]

/-- A root is not missing. -/
lemma IsMissing.names_ne_nil (h : s.IsMissing p.text) : p.names ≠ [] := by
  intro hnames
  obtain ⟨parent, name, rest, hland, -⟩ := h
  obtain ⟨-, -, hlands⟩ := land_eq_ok_iff.mp hland
  refine hlands.ne_edge_of_idle ?_ parent name rest rfl
  rw [Path.text_eq_root hnames]
  cases p.root <;> decide

section Child

variable (hname : IsRegular name) (hslash : ('/' : CodePoint) ∉ name)
  (hbytes : IsByteText (childPath p name).text)
  (hshort : ¬ pathLimit < byteLength (childPath p name).text) (hp : p.IsProper)
include hname hslash hbytes hshort hp

/-- Where a path is missing, a path with one more name behind it leads to the same absent name. -/
lemma IsMissing.land_child (h : s.IsMissing p.text) {m : Manner} (hm : m.writes = false) :
    ∃ parent n rest, land s.frame s.home m (childPath p name).text = .ok (.edge parent n rest) ∧
      s.view (parent ++ [n]) = none := by
  have hnames := h.names_ne_nil
  obtain ⟨parent, n, rest, hland, hnone⟩ := h
  obtain ⟨-, -, hlands⟩ := land_eq_ok_iff.mp hland
  refine ⟨parent, n, rest ++ [canonical name], land_eq_ok_iff.mpr ⟨?_, hshort, ?_⟩, hnone⟩
  · exact (isProper_childPath hp hname hslash).text_ne_nil
  · rw [splitOn_childPath hnames hslash hbytes, isRooted_childPath hp hname hslash]
    exact hlands.edge_append hm (List.cons_ne_nil _ _)

/-- Where a path is missing, one with one more name behind it is missing. -/
lemma IsMissing.child (h : s.IsMissing p.text) : s.IsMissing (childPath p name).text :=
  h.land_child hname hslash hbytes hshort hp rfl

/-- Where a path is missing, one with one more name behind it shows nothing. -/
theorem IsMissing.glance_child (h : s.IsMissing p.text) {m : Manner} (hm : m.writes = false) :
    s.glance m (childPath p name).text = .error .noEntry := by
  obtain ⟨parent, n, rest, hland, hnone⟩ := h.land_child hname hslash hbytes hshort hp hm
  exact glance_of_edge hland hnone

/-- In an empty directory, a directory can be made. -/
lemma exists_makeDirectory_child (hregular : IsRegular (canonical name))
    (hlong : ¬ nameLimit < byteLength (canonical name)) {d : Location} (hd : s.LiesAt p.text d)
    (hnone : s.view (d ++ [canonical name]) = none) :
    ∃ t, s.makeDirectory (childPath p name).text = .ok t := by
  have hland := State.land_child hp hname hslash hbytes hregular (m := .entry) rfl hd
    (fun hfollows => by cases hfollows)
  rw [if_neg hshort, if_neg hlong, Landing.below, if_pos (by simp [frame, hnone])] at hland
  have hlocate : s.locate .entry (childPath p name).text = .ok (.vacancy d (canonical name) false) := by
    rw [locate_of_landing hland, settle, find?_eq_none_of_view hnone]
    rfl
  rw [← Path.dropEndSlashes_text (isProper_childPath hp hname hslash)] at hlocate
  exact ⟨_, makeDirectory_eq_ok_iff.mpr ⟨hshort, d, canonical name, false, hlocate, rfl⟩⟩

end Child

/-! ## Directories that come -/

/-- The path was missing, and leads to an empty directory now. -/
structure Comes (s s' : State) (path : Text) : Prop where
  /-- The path was missing. -/
  missing : s.IsMissing path
  /-- There is an empty directory now. -/
  empty : ∃ d, s'.LiesAt path d ∧ ∀ name, s'.view (d ++ [name]) = none

/-- A directory that is made comes to where its path was missing. -/
lemma comes_of_makeDirectory (hp : p.IsProper) (h : s.makeDirectory p.text = .ok s') :
    s.Comes s' p.text := by
  obtain ⟨parent, name, rest, hland, hnone, hd, hview⟩ := land_of_makeDirectory hp h
  refine ⟨⟨parent, name, rest, hland, hnone⟩, parent ++ [name], hd, fun n => ?_⟩
  rw [hview, Function.update_of_ne (by simp)]
  by_contra hsome
  have hparent := Node.view_dropLast_of_some (List.concat_ne_nil _ _) hsome
  rw [List.dropLast_concat, ← State.view, hnone] at hparent
  cases hparent

end State

end FileSystem

/-! ## Making what is missing -/

namespace Files

variable {p : Path}

/-- To make a directory unless there is one changes nothing, or makes it where it was missing. -/
lemma exec_ensureDirectory_comes (hp : p.IsProper) (hpass : IsPassable p.text) (w : World) :
    (∃ x, (ensureDirectory isDirectory? p.text).exec w = (x, w)) ∨
      ∃ s, (ensureDirectory isDirectory? p.text).exec w = (.ok (), w.withFiles s) ∧
        w.files.Comes s p.text := by
  have hpath := refusal?_eq_none_iff.mpr hpass
  cases hmake : w.files.makeDirectory p.text with
  | ok s =>
    exact Or.inr ⟨s, exec_ensureDirectory_ok hpath hmake, State.comes_of_makeDirectory hp hmake⟩
  | error e =>
    obtain ⟨x, hx, -⟩ := exec_ensureDirectory_error hpath hmake
    exact Or.inl ⟨x, hx⟩

/-- To make a directory in one that has come makes it where it was missing. -/
lemma exec_ensureDirectory_child {q : Path} {name : Name} (hname : IsName name) (hq : q.IsProper)
    (hpass : IsPassable (childPath q name).text)
    (hshort : ¬ pathLimit < byteLength (childPath q name).text) {w : World} {s : State}
    (h : w.files.Comes s q.text) :
    ∃ t, (ensureDirectory isDirectory? (childPath q name).text).exec (w.withFiles s) =
        (.ok (), w.withFiles t) ∧ w.files.Comes t (childPath q name).text := by
  have hproper := isProper_childPath hq hname.regular hname.noSlash
  have hcanonical : canonical name = name := hname.spelled
  obtain ⟨d, hd, hempty⟩ := h.empty
  obtain ⟨t, ht⟩ := State.exists_makeDirectory_child hname.regular hname.noSlash hpass.isByteText
    hshort hq (by rw [hcanonical]; exact hname.regular)
    (by rw [hcanonical]; exact Nat.not_lt.mpr hname.short) hd (hempty _)
  refine ⟨t, exec_ensureDirectory_ok (w := w.withFiles s) (refusal?_eq_none_iff.mpr hpass) ht, ?_,
    (State.comes_of_makeDirectory hproper ht).empty⟩
  exact h.missing.child hname.regular hname.noSlash hpass.isByteText hshort hq

/-- To make directories that are missing changes nothing, or makes the last of them where it was
missing.  The induction is on the rounds: once a directory has come, the next one can be made in it. -/
theorem exec_makePathAfter_comes (rounds : Nat) (hnames : ∀ name ∈ p.names, IsName name)
    (hpass : IsPassable p.text) (hshort : ¬ pathLimit < byteLength p.text) (w : World) :
    (∃ x, (makePathAfter rounds p).exec w = (x, w)) ∨
      ∃ s, (makePathAfter rounds p).exec w = (.ok (), w.withFiles s) ∧ w.files.Comes s p.text := by
  induction rounds generalizing p with
  | zero => exact exec_ensureDirectory_comes (isProper_of_isName hnames) hpass w
  | succ rounds ih =>
    rw [makePathAfter, Action.exec_tryCatch]
    rcases exec_ensureDirectory_comes (isProper_of_isName hnames) hpass w with
      ⟨x, hx⟩ | ⟨s, hs, hcomes⟩
    · rw [hx]
      cases x with
      | ok u => exact Or.inl ⟨.ok u, rfl⟩
      | error f =>
        simp only
        split
        · split
          · exact Or.inl ⟨_, rfl⟩
          rename_i hparent
          have hne : p.names ≠ [] := by
            intro hnil
            apply hparent
            cases p
            simp_all [Path.parent]
          obtain ⟨name, hmem, hchild⟩ := exists_childPath_parent hne
          have hnames' : ∀ n ∈ p.parent.names, IsName n :=
            fun n hn => hnames n ((List.dropLast_sublist _).subset hn)
          have hpass' : IsPassable p.parent.text := isPassable_text_iff.mpr fun n hn =>
            isPassable_text_iff.mp hpass n ((List.dropLast_sublist _).subset hn)
          have hshort' : ¬ pathLimit < byteLength p.parent.text := by
            have hle := byteLength_le_childPath (p := p.parent) (hnames name hmem).regular.1
            rw [← hchild] at hle
            omega
          rw [Action.exec_bind]
          rcases ih hnames' hpass' hshort' with ⟨y, hy⟩ | ⟨s, hs, hcomes⟩
          · rw [hy]
            cases y with
            | error f => exact Or.inl ⟨.error f, rfl⟩
            | ok u => exact Or.inl ⟨_, hx⟩
          · rw [hs]
            rw [hchild] at hpass hshort ⊢
            exact Or.inr (exec_ensureDirectory_child (hnames name hmem)
              (isProper_of_isName hnames') hpass hshort hcomes)
        · exact Or.inl ⟨_, rfl⟩
    · exact Or.inr ⟨s, by rw [hs], hcomes⟩

/-- To make a path changes nothing, or makes a directory where the path was missing. -/
theorem exec_makePath_comes (hnames : ∀ name ∈ p.names, IsName name) (hpass : IsPassable p.text)
    (hshort : ¬ pathLimit < byteLength p.text) (w : World) :
    (∃ x, (makePath p).exec w = (x, w)) ∨
      ∃ s, (makePath p).exec w = (.ok (), w.withFiles s) ∧ w.files.Comes s p.text :=
  exec_makePathAfter_comes p.names.length hnames hpass hshort w

end Files

end EditorDocs
