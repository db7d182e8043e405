import EditorDocs.Proofs.FileSystem.Operations
import EditorDocs.Proofs.FileSystem.Spelling

/-!
# Ways through directories

Two facts about paths that lead somewhere.  A path still leads there when there are more directories
than before (`State.locate_of_more`), since it goes through none of those that are new.  And every
path that it goes on from leads to a directory (`State.isDirectory_of_locate`,
`State.isDirectory_of_append`), since names that arrive can be parted (`Lands.split`).
-/

namespace EditorDocs.FileSystem

/-! ## More directories -/

/-- What the landing found to be neither a directory nor a link is still neither. -/
def Landing.Stays (f : Location → Option Fixture) : Landing → Prop
  | .stop _ => True
  | .edge parent name _ => f (parent ++ [name]) = none
  | .off loc _ => f loc = none

/-- Names land at the same place when there are more directories and links. -/
lemma Lands.mono {f f' : Location → Option Fixture} {m : Manner} {links : Nat} {loc : Location}
    {names : List Name} {l : Landing} (h : Lands f m links loc names l)
    (hmore : ∀ loc x, f loc = some x → f' loc = some x) (hstays : l.Stays f') :
    Lands f' m links loc names l := by
  induction h with
  | stop hloc => exact .stop (hmore _ _ hloc)
  | off hloc => exact .off hstays
  | idle hloc hidle hrest ih => exact .idle (hmore _ _ hloc) hidle (ih hstays)
  | up hloc hrest ih => exact .up (hmore _ _ hloc) (ih hstays)
  | edge hloc hpass hentry => exact .edge (hmore _ _ hloc) hpass hstays
  | down hloc hpass hentry hrest ih =>
    exact .down (hmore _ _ hloc) hpass (hmore _ _ hentry) (ih hstays)
  | link hloc hpass hentry hlast => exact .link (hmore _ _ hloc) hpass (hmore _ _ hentry) hlast
  | through hloc hpass hentry hfollowed hrest ih =>
    exact .through (hmore _ _ hloc) hpass (hmore _ _ hentry) hfollowed (ih hstays)

namespace State

/-- A path that leads to something leads to it still when there is more than before. -/
theorem locate_of_more {s s' : State} {m : Manner} {path : Text} {loc : Location} {n : Node}
    (hhome : s'.home = s.home)
    (hmore : ∀ loc face, s.view loc = some face → s'.view loc = some face)
    (h : s.locate m path = .ok (.object loc n)) :
    ∃ n', n'.face = n.face ∧ s'.locate m path = .ok (.object loc n') := by
  have hview := hmore loc n.face (view_eq_of_find? (find?_of_object h))
  obtain ⟨n', hfind, hface⟩ := exists_node_of_view hview
  refine ⟨n', hface, ?_⟩
  obtain ⟨l, hland, hsettles⟩ := locate_eq_ok_iff.mp h
  have hfixtures : ∀ loc x, s.frame loc = some x → s'.frame loc = some x := by
    intro loc x hx
    rw [frame, hmore loc x.face (view_of_frame hx)]
    cases x <;> rfl
  -- what is neither a directory nor a link is the file to which the path leads
  have hfile : s.frame loc = none → s'.frame loc = none := by
    intro hnone
    rw [frame, view_eq_of_find? (find?_of_object h)] at hnone
    rw [frame, hview]
    exact hnone
  have hfits := fits_of_land hland
  have hstays : l.Stays s'.frame := by
    cases hsettles with
    | stop _ => trivial
    | off _ => exact hfile hfits
    | file _ => exact hfile hfits.2
  obtain ⟨hne, hshort, hlands⟩ := land_eq_ok_iff.mp hland
  rw [← hhome] at hlands
  exact locate_eq_ok_iff.mpr ⟨l, land_eq_ok_iff.mpr ⟨hne, hshort, hlands.mono hfixtures hstays⟩,
    hsettles.of_find? (by simp) hfind⟩

end State

/-! ## Directories on the way -/

/-- All names have been followed. -/
def Landing.Arrives : Landing → Prop
  | .stop _ => True
  | .edge _ _ rest => rest = []
  | .off _ rest => rest = []

/-- Names that arrive can be parted: the first of them lead to a directory, from which the others lead
on. -/
lemma Lands.split {f : Location → Option Fixture} {m : Manner} {links : Nat} {loc : Location}
    {all names further : List Name} {l : Landing} (h : Lands f m links loc all l)
    (hall : all = names ++ further) (hfurther : further ≠ []) (harrives : l.Arrives) :
    ∃ d left, Lands f .lookup links loc names (.stop d) ∧ f d = some .directory ∧
      Lands f m left d further l := by
  induction h generalizing names with
  | stop hloc => simp [hfurther] at hall
  | off hloc =>
    rw [Landing.Arrives] at harrives
    simp [harrives, hfurther] at hall
  | @idle links loc name rest l hloc hidle hrest ih =>
    cases names with
    | nil =>
      obtain rfl : _ = further := hall
      exact ⟨loc, links, .stop hloc, hloc, .idle hloc hidle hrest⟩
    | cons name' names =>
      obtain ⟨rfl, hrest'⟩ : _ ∧ rest = names ++ further := List.cons.inj hall
      obtain ⟨d, left, hd, hfrom⟩ := ih hrest' harrives
      exact ⟨d, left, .idle hloc hidle hd, hfrom⟩
  | @up links loc rest l hloc hrest ih =>
    cases names with
    | nil =>
      obtain rfl : _ = further := hall
      exact ⟨loc, links, .stop hloc, hloc, .up hloc hrest⟩
    | cons name' names =>
      obtain ⟨rfl, hrest'⟩ : _ ∧ rest = names ++ further := List.cons.inj hall
      obtain ⟨d, left, hd, hfrom⟩ := ih hrest' harrives
      exact ⟨d, left, .up hloc hd, hfrom⟩
  | @edge links loc name rest hloc hpass hentry =>
    cases names with
    | nil =>
      obtain rfl : _ = further := hall
      exact ⟨loc, links, .stop hloc, hloc, .edge hloc hpass hentry⟩
    | cons name' names =>
      obtain ⟨rfl, hrest'⟩ : _ ∧ rest = names ++ further := List.cons.inj hall
      rw [Landing.Arrives, hrest', List.append_eq_nil_iff] at harrives
      exact absurd harrives.2 hfurther
  | @down links loc name rest l hloc hpass hentry hrest ih =>
    cases names with
    | nil =>
      obtain rfl : _ = further := hall
      exact ⟨loc, links, .stop hloc, hloc, .down hloc hpass hentry hrest⟩
    | cons name' names =>
      obtain ⟨rfl, hrest'⟩ : _ ∧ rest = names ++ further := List.cons.inj hall
      obtain ⟨d, left, hd, hfrom⟩ := ih hrest' harrives
      exact ⟨d, left, .down hloc (hpass.of_reads rfl) hentry hd, hfrom⟩
  | @link links loc name rest target hloc hpass hentry hlast =>
    cases names with
    | nil =>
      obtain rfl : _ = further := hall
      exact ⟨loc, links, .stop hloc, hloc, .link hloc hpass hentry hlast⟩
    | cons name' names =>
      obtain ⟨rfl, hrest'⟩ : _ ∧ rest = names ++ further := List.cons.inj hall
      simp [hrest', hfurther] at hlast
  | @through links loc name rest target l hloc hpass hentry hfollowed hrest ih =>
    cases names with
    | nil =>
      obtain rfl : _ = further := hall
      exact ⟨loc, _, .stop hloc, hloc, .through hloc hpass hentry hfollowed hrest⟩
    | cons name' names =>
      obtain ⟨rfl, hrest'⟩ : _ ∧ rest = names ++ further := List.cons.inj hall
      obtain ⟨d, left, hd, hfrom⟩ := ih (by rw [hrest', List.append_assoc]) harrives
      exact ⟨d, left, .through hloc (hpass.of_reads rfl) hentry (by simp [Manner.lookup]) hd, hfrom⟩

/-- Names that add nothing lead from a directory to itself. -/
lemma lands_of_idle {f : Location → Option Fixture} (m : Manner) (links : Nat) {loc : Location}
    {names : List Name} (hloc : f loc = some .directory)
    (hidle : ∀ name ∈ names, (name.isEmpty || name = dot) = true) :
    Lands f m links loc names (.stop loc) := by
  induction names with
  | nil => exact .stop hloc
  | cons name rest ih =>
    obtain ⟨hname, hrest⟩ := List.forall_mem_cons.mp hidle
    exact .idle hloc hname (ih hrest)

/-- Names that add nothing lead to no directory but the one where they start. -/
lemma lands_idle_iff {f : Location → Option Fixture} {m : Manner} {links : Nat}
    {loc d : Location} {names : List Name}
    (hidle : ∀ n ∈ names, (n.isEmpty || n = dot) = true) :
    (Lands f m links loc names (.stop d) ∧ f d = some .directory) ↔
      d = loc ∧ f loc = some .directory := by
  constructor
  · rintro ⟨h, hd⟩
    induction names with
    | nil =>
      cases h
      exact ⟨rfl, hd⟩
    | cons n rest ih =>
      obtain ⟨hn, hrest⟩ := List.forall_mem_cons.mp hidle
      cases h with
      | idle _ _ h => exact ih hrest h
      | up _ _ => exact absurd hn (by decide)
      | down _ hpass _ _ => exact absurd hn hpass.notIdle
      | link _ hpass _ _ => exact absurd hn hpass.notIdle
      | through _ hpass _ _ _ => exact absurd hn hpass.notIdle
  · rintro ⟨rfl, hd⟩
    exact ⟨lands_of_idle m links hd hidle, hd⟩

/-! ## Where directories lie -/

namespace State

/-- The path leads to the directory at the location. -/
def LiesAt (s : State) (path : Text) (d : Location) : Prop :=
  ∃ es, s.locate .lookup path = .ok (.object d (.directory es))

/-- A path leads to a directory where it lands. -/
lemma liesAt_iff {s : State} {path : Text} {d : Location} :
    s.LiesAt path d ↔
      land s.frame s.home .lookup path = .ok (.stop d) ∧ s.frame d = some .directory := by
  constructor
  · rintro ⟨es, h⟩
    have hframe : s.frame d = some .directory :=
      frame_of_view_directory (view_eq_of_find? (find?_of_object h))
    obtain ⟨l, hland, hsettles⟩ := locate_eq_ok_iff.mp h
    have hfits := fits_of_land hland
    refine ⟨?_, hframe⟩
    cases hsettles with
    | stop _ => exact hland
    | off _ =>
      rw [Landing.Fits, hframe] at hfits
      cases hfits
    | file _ =>
      rw [Landing.Fits, hframe] at hfits
      cases hfits.2
  · rintro ⟨hland, hframe⟩
    obtain ⟨es, hes⟩ := Node.find?_of_view_directory (view_of_frame hframe)
    exact ⟨es, by rw [locate_of_landing hland, settle, hes]⟩

/-- A path leads to one directory at most. -/
lemma LiesAt.unique {s : State} {path : Text} {d d' : Location} (h : s.LiesAt path d)
    (h' : s.LiesAt path d') : d = d' := by
  obtain ⟨es, hes⟩ := h
  obtain ⟨es', hes'⟩ := h'
  rw [hes] at hes'
  cases hes'
  rfl

/-- A directory lies where it lies in all states with one frame. -/
lemma LiesAt.of_frame_eq {s t : State} {path : Text} {d : Location} (h : s.LiesAt path d)
    (hframe : t.frame = s.frame) (hhome : t.home = s.home) : t.LiesAt path d := by
  rw [liesAt_iff] at h ⊢
  rwa [hframe, hhome]

/-- A path is one of a directory if and only if one lies there. -/
lemma isDirectory_iff {s : State} {path : Text} :
    s.isDirectory path = true ↔ ∃ d, s.LiesAt path d := by
  unfold isDirectory
  constructor
  · intro h
    split at h
    · rename_i n hlookup
      obtain ⟨d, hd⟩ := lookup_eq_ok_iff.mp hlookup
      cases n with
      | directory es => exact ⟨d, es, hd⟩
      | file _ => cases h
      | link _ => cases h
    · cases h
  · rintro ⟨d, es, hd⟩
    rw [lookup_eq_ok_iff.mpr ⟨d, hd⟩]
    rfl

/-- The directory of a path without names is the one at which it starts. -/
lemma liesAt_iff_of_names_eq_nil {s : State} {p : Path} (hp : p.IsProper) (hnames : p.names = [])
    {idle : List Name} (hidle : ∀ n ∈ idle, (n.isEmpty || n = dot) = true) {d : Location} :
    s.LiesAt p.text d ↔
      Lands s.frame .lookup linkLimit (if isRooted p.text then [] else s.home) idle (.stop d) ∧
        s.frame d = some .directory := by
  have hshort : ¬ pathLimit < byteLength p.text := by
    rw [Path.text_eq_root hnames]
    cases p.root <;> decide
  have hroot : ∀ n ∈ (canonical p.text).splitOn '/', (n.isEmpty || n = dot) = true := by
    rw [Path.text_eq_root hnames]
    cases p.root <;> decide
  rw [lands_idle_iff hidle, liesAt_iff, land_eq_ok_iff, ← lands_idle_iff hroot]
  exact ⟨fun h => ⟨h.1.2.2, h.2⟩, fun h => ⟨⟨hp.text_ne_nil, hshort, h.1⟩, h.2⟩⟩

/-- What a path leads to stands where all its names have been followed. -/
lemma Settles.arrives {s : State} {l : Landing} {loc : Location} {n : Node}
    (h : s.Settles l (.object loc n)) : l.Arrives := by
  cases h with
  | stop _ => trivial
  | off _ => rfl
  | file _ => rfl

/-- A path that is gone on from leads to a directory. -/
theorem isDirectory_of_locate {s : State} {a b : Text} {loc : Location} {n : Node} (hne : a ≠ [])
    (ha : IsByteText a) (hb : IsByteText b)
    (h : s.locate .lookup (a ++ ('/' : CodePoint) :: b) = .ok (.object loc n)) : s.isDirectory a = true := by
  obtain ⟨l, hland, hsettles⟩ := locate_eq_ok_iff.mp h
  have hrooted : isRooted (a ++ ('/' : CodePoint) :: b) = isRooted a := by
    obtain ⟨c, t, rfl⟩ := List.exists_cons_of_ne_nil hne
    rfl
  obtain ⟨-, hlong, hlands⟩ := land_eq_ok_iff.mp hland
  rw [canonical_append_slash ha hb, Text.splitOn_append_cons, hrooted] at hlands
  obtain ⟨d, -, hd, hdirectory, -⟩ := hlands.split rfl (Text.splitOn_ne_nil _ _) hsettles.arrives
  have hshort : ¬ pathLimit < byteLength a := by
    rw [byteLength_append] at hlong
    omega
  exact isDirectory_iff.mpr
    ⟨d, liesAt_iff.mpr ⟨land_eq_ok_iff.mpr ⟨hne, hshort, hd⟩, hdirectory⟩⟩

/-- A path from which another one leads to something is one of a directory. -/
theorem isDirectory_of_append {s : State} {p q : Path} {loc : Location} {n : Node}
    (hp : p.IsProper) (hq : q.IsProper) (hroot : q.root = .relative) (hnames : q.names ≠ [])
    (htext : IsByteText (p.append q).text)
    (h : s.locate .lookup (p.append q).text = .ok (.object loc n)) :
    s.isDirectory p.text = true := by
  by_cases hempty : p.names = []
  · have hstart := frame_start_of_locate h
    have hrooted : isRooted (p.append q).text = isRooted p.text := by
      rw [Path.isRooted_text (hp.append hq), Path.isRooted_text hp, Path.append, if_pos hroot]
    rw [hrooted] at hstart
    exact isDirectory_iff.mpr
      ⟨_, (liesAt_iff_of_names_eq_nil hp hempty (List.forall_mem_nil _)).mpr ⟨.stop hstart, hstart⟩⟩
  · rw [Path.text_append hempty hnames hroot] at h htext
    refine isDirectory_of_locate hp.text_ne_nil (fun c hc => htext c ?_)
      (fun c hc => htext c ?_) h
    · exact List.mem_append_left _ hc
    · exact List.mem_append_right _ (List.mem_cons_of_mem _ hc)

end State

end EditorDocs.FileSystem
