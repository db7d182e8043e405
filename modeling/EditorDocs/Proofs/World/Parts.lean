import EditorDocs.Proofs.FileSystem.Listing
import EditorDocs.Proofs.World.Directories

/-!
# The directory that holds what a path leads to

`Files.splitPath` takes a path apart into the path of a directory and the name in it.  Whatever slashes
there are, the names of the path are those of the directory with this name behind them
(`Text.Extends`, `Files.extends_splitPath`), so that a path leads to a directory only if its first part
does (`Text.Extends.isDirectory_head`), and a directory is made only in a directory, under a name that is one
(`Text.Extends.of_makeDirectory`).

Slashes at the end of a path count for nothing either: a path at which a directory has been made leads
to it, and there is nothing in it (`FileSystem.State.liesAt_of_makeDirectory`).
-/

namespace EditorDocs

namespace FileSystem

/-! ## Names as the system spells them -/

/-- The parts of a text of slashes are empty. -/
lemma eq_nil_of_mem_splitOn {t : Text} (h : ∀ c ∈ t, c = ('/' : CodePoint)) {part : Name}
    (hpart : part ∈ t.splitOn '/') : part = [] := by
  refine List.eq_nil_iff_forall_not_mem.mpr fun c hc => ?_
  obtain rfl := h c (Text.mem_of_mem_splitOn hpart hc)
  exact Text.notMem_of_mem_splitOn hpart hc

/-- A path is spelled name by name. -/
lemma splitOn_canonical {t : Text} (ht : IsByteText t) :
    (canonical t).splitOn '/' = (t.splitOn '/').map canonical := by
  induction hn : t.length using Nat.strong_induction_on generalizing t with
  | _ n ih =>
    by_cases hslash : ('/' : CodePoint) ∈ t
    · obtain ⟨a, b, rfl, hnot⟩ := List.eq_append_cons_of_mem hslash
      have ha : IsByteText a := fun c hc => ht c (List.mem_append_left _ hc)
      have hb : IsByteText b := fun c hc => ht c (List.mem_append_right _ (List.mem_cons_of_mem _ hc))
      have hshort : b.length < n := by
        rw [← hn, List.length_append, List.length_cons]
        omega
      rw [canonical_append_slash ha hb, Text.splitOn_append_cons, Text.splitOn_append_cons,
        ih b.length hshort hb rfl, List.map_append, Text.splitOn_of_notMem hnot,
        Text.splitOn_of_notMem (notMem_canonical ha hnot)]
      rfl
    · rw [Text.splitOn_of_notMem hslash, Text.splitOn_of_notMem (notMem_canonical ht hslash)]
      rfl

/-- A text that is spelled in ASCII is itself of ASCII. -/
lemma eq_of_canonical_eq {t x : Text} (hx : ∀ c ∈ x, c.val < 0x80) (h : canonical t = x) : t = x := by
  by_cases hany : t.any isEscapedByte = true
  · obtain ⟨c, hc, hescaped⟩ := List.any_eq_true.mp hany
    have hbytes : bytesOf x = bytesOf t := by
      rw [← h, canonical, if_pos hany, bytesOf_ofBytes]
    have hbyte : UInt8.ofNat (c.val - 0xDC00) ∈ bytesOf x := by
      rw [hbytes]
      exact List.mem_flatMap.mpr ⟨c, hc, by simp [hescaped]⟩
    -- the byte belongs to no character of ASCII
    obtain ⟨d, hd, hmem⟩ := List.mem_flatMap.mp hbyte
    have hascii := hx d hd
    have hplain : isEscapedByte d = false := by
      simp only [isEscapedByte, Bool.and_eq_false_iff, decide_eq_false_iff_not]
      omega
    rw [hplain, if_neg Bool.false_ne_true, Utf8.encodeNat, if_pos hascii, List.mem_singleton] at hmem
    have hsame := congrArg UInt8.toNat hmem
    simp only [isEscapedByte, Bool.and_eq_true, decide_eq_true_eq] at hescaped
    rw [Utf8.toNat_ofNat (by omega), Utf8.toNat_ofNat (by omega)] at hsame
    omega
  · rwa [canonical, if_neg hany] at h

/-- The spelling of a name is a name that leads to an entry exactly if the name is. -/
lemma isRegular_canonical_iff {name : Name} : IsRegular (canonical name) ↔ IsRegular name := by
  have hsame : ∀ x : Name, (∀ c ∈ x, c.val < 0x80) → canonical x = x →
      (canonical name = x ↔ name = x) := fun x hx hspelled =>
    ⟨eq_of_canonical_eq hx, fun h => by rw [h, hspelled]⟩
  unfold IsRegular
  rw [ne_eq, ne_eq, ne_eq, hsame [] (by simp) rfl, hsame dot (by decide) rfl,
    hsame dotDot (by decide) rfl]

/-- Empty names are spelled as such. -/
lemma eq_nil_of_mem_map_canonical {names : List Name} (h : ∀ n ∈ names, n = []) {n : Name}
    (hn : n ∈ names.map canonical) : n = [] := by
  obtain ⟨m, hm, rfl⟩ := List.mem_map.mp hn
  rw [h m hm]
  rfl

/-- Empty names add nothing, however they are spelled. -/
lemma isIdle_of_mem_map_canonical {names : List Name} (h : ∀ n ∈ names, n = []) :
    ∀ n ∈ names.map canonical, (n.isEmpty || n = dot) = true := by
  intro n hn
  rw [eq_nil_of_mem_map_canonical h hn]
  rfl

/-! ## Slashes at the end -/

/-- What is dropped at the end of a path is slashes, and then no slash is left there unless the path
consists of them. -/
lemma exists_dropEndSlashes (path : Text) :
    ∃ behind, path = dropEndSlashes path ++ behind ∧ (∀ c ∈ behind, c = ('/' : CodePoint)) := by
  obtain ⟨behind, hpath, hslashes, -⟩ := Text.exists_dropEndWhile (· = ('/' : CodePoint)) path
  unfold dropEndSlashes
  by_cases hempty : (path.dropEndWhile (· = ('/' : CodePoint))).isEmpty = true
  · exact ⟨[], by simp [hempty], by simp⟩
  · refine ⟨behind, ?_, fun c hc => by simpa using hslashes c hc⟩
    simpa [hempty] using hpath

/-- A path that ends in something else than a slash stays as it is. -/
lemma dropEndSlashes_of_notMem {a name : Text} (hname : name ≠ [])
    (hslash : ('/' : CodePoint) ∉ name) : dropEndSlashes (a ++ name) = a ++ name := by
  have hkeep : (a ++ name).dropEndWhile (· = ('/' : CodePoint)) = a ++ name := by
    refine Text.dropEndWhile_of_getLast? fun c hc => ?_
    rw [decide_eq_false_iff_not]
    rintro rfl
    obtain ⟨init, last, rfl⟩ := (List.eq_nil_or_concat name).resolve_left hname
    rw [List.concat_eq_append, ← List.append_assoc, List.getLast?_concat, Option.some.injEq] at hc
    exact hslash (by simp [hc])
  have hne : (a ++ name).isEmpty = false := by simp [hname]
  unfold dropEndSlashes
  simp only [hkeep, hne]
  rfl

/-- The names of a path are those before its end slashes, and empty ones. -/
lemma exists_splitOn_dropEndSlashes (path : Text) :
    ∃ idle : List Name, (∀ n ∈ idle, n = []) ∧
      path.splitOn '/' = (dropEndSlashes path).splitOn '/' ++ idle := by
  obtain ⟨behind, hpath, hslashes⟩ := exists_dropEndSlashes path
  cases behind with
  | nil =>
    rw [List.append_nil] at hpath
    exact ⟨[], by simp, by rw [List.append_nil, ← hpath]⟩
  | cons c rest =>
    obtain ⟨rfl, hbehind⟩ := List.forall_mem_cons.mp hslashes
    refine ⟨Text.splitOn '/' rest, fun n hn => eq_nil_of_mem_splitOn hbehind hn, ?_⟩
    rw [← Text.splitOn_append_cons, ← hpath]

/-- Whether a path begins at the root is seen at its beginning. -/
lemma isRooted_of_isPrefix {a b : Text} (h : a <+: b) (hne : a ≠ []) : isRooted b = isRooted a := by
  obtain ⟨behind, rfl⟩ := h
  obtain ⟨c, rest, rfl⟩ := List.exists_cons_of_ne_nil hne
  have hslash : ("/" : Text) = [('/' : CodePoint)] := by decide
  unfold isRooted Text.startsWith
  rw [hslash]
  simp [List.isPrefixOf]

/-- The beginning of a path is no longer than the path. -/
lemma byteLength_le_of_isPrefix {a b : Text} (h : a <+: b) : byteLength a ≤ byteLength b := by
  obtain ⟨behind, rfl⟩ := h
  rw [byteLength_append]
  exact Nat.le_add_right _ _

/-! ## Names behind a directory -/

/-- Names that add nothing lead no further than the names before them. -/
lemma lands_append_idle_iff {f : Location → Option Fixture} {links : Nat} {loc d : Location}
    {names idle : List Name} (hidle : ∀ n ∈ idle, (n.isEmpty || n = dot) = true) :
    (Lands f .lookup links loc (names ++ idle) (.stop d) ∧ f d = some .directory) ↔
      Lands f .lookup links loc names (.stop d) ∧ f d = some .directory := by
  by_cases hne : idle = []
  · rw [hne, List.append_nil]
  constructor
  · rintro ⟨h, hd⟩
    obtain ⟨d', left, hnames, hdirectory, hrest⟩ := h.split rfl hne trivial
    obtain ⟨rfl, -⟩ := (lands_idle_iff hidle).mp ⟨hrest, hd⟩
    exact ⟨hnames, hd⟩
  · rintro ⟨h, hd⟩
    obtain ⟨left, -, hsame⟩ := h.landAfter_append (m := .lookup) rfl hne
    rw [(lands_of_idle .lookup left hd hidle).landAfter_eq] at hsame
    exact ⟨lands_of_landAfter hsame, hd⟩

/-- Names that lead to a vacancy end with a name that can be looked up. -/
lemma Lands.passes_last {f : Location → Option Fixture} {links : Nat} {loc parent : Location}
    {names rest : List Name} {n last : Name} (h : Lands f .entry links loc names (.edge parent n rest))
    (hlast : names.getLast? = some last) :
    (n :: rest).getLast? = some last ∧ Passes .entry n rest := by
  generalize hl : Landing.edge parent n rest = l at h
  induction h with
  | stop hloc => cases hl
  | off hloc => cases hl
  | link hloc hpass hentry hstop => cases hl
  | edge hloc hpass hentry =>
    cases hl
    exact ⟨hlast, hpass⟩
  | @idle links loc name names l hloc hidle hrest ih =>
    cases names with
    | nil => subst hl; cases hrest
    | cons r names => exact ih (by simpa using hlast) hl
  | @up links loc names l hloc hrest ih =>
    cases names with
    | nil => subst hl; cases hrest
    | cons r names => exact ih (by simpa using hlast) hl
  | @down links loc name names l hloc hpass hentry hrest ih =>
    cases names with
    | nil => subst hl; cases hrest
    | cons r names => exact ih (by simpa using hlast) hl
  | @through links loc name names target l hloc hpass hentry hfollowed hrest ih =>
    cases names with
    | nil => exact absurd rfl hfollowed
    | cons r names => exact ih (by simpa [List.getLast?_append] using hlast) hl

/-- Where names lead on from a directory, the first regular one of them is that of an entry. -/
lemma Lands.entry_ne_none {f : Location → Option Fixture} {m : Manner} {links : Nat}
    {loc d : Location} {before after : List Name} {n : Name}
    (h : Lands f m links loc (before ++ n :: after) (.stop d))
    (hbefore : ∀ x ∈ before, x = []) (hn : IsRegular n) : f (loc ++ [n]) ≠ none := by
  induction before with
  | nil =>
    cases h with
    | idle _ hidle _ => simp [hn.1, hn.2.1] at hidle
    | up _ _ => exact absurd rfl hn.2.2
    | down _ _ hentry _ => simp [hentry]
    | link _ _ hentry _ => simp [hentry]
    | through _ _ hentry _ _ => simp [hentry]
  | cons x before ih =>
    obtain ⟨rfl, hrest⟩ := List.forall_mem_cons.mp hbefore
    cases h with
    | idle _ _ h => exact ih h hrest
    | down _ hpass _ _ => exact absurd rfl hpass.notIdle
    | link _ hpass _ _ => exact absurd rfl hpass.notIdle
    | through _ hpass _ _ _ => exact absurd rfl hpass.notIdle

namespace State

variable {s s' : State} {path : Text} {d : Location}

/-- A path leads to a directory where its names lead in steps. -/
lemma liesAt_iff_lands : s.LiesAt path d ↔ path ≠ [] ∧ ¬ pathLimit < byteLength path ∧
    Lands s.frame .lookup linkLimit (if isRooted path then [] else s.home)
        ((canonical path).splitOn '/') (.stop d) ∧ s.frame d = some .directory := by
  rw [liesAt_iff, land_eq_ok_iff, and_assoc, and_assoc]

/-- Slashes at the end of a path are of no account to the directory to which it leads. -/
lemma liesAt_dropEndSlashes_iff (hpath : IsByteText path) (hshort : ¬ pathLimit < byteLength path) :
    s.LiesAt (dropEndSlashes path) d ↔ s.LiesAt path d := by
  obtain ⟨behind, hbehind, -⟩ := exists_dropEndSlashes path
  have hbegins : dropEndSlashes path <+: path := ⟨behind, hbehind.symm⟩
  have hbytes : IsByteText (dropEndSlashes path) := fun c hc => hpath c (mem_of_mem_dropEndSlashes hc)
  obtain ⟨idle, hidle, hnames⟩ := exists_splitOn_dropEndSlashes path
  by_cases hne : path = []
  · rw [hne]
    rfl
  have hne' : dropEndSlashes path ≠ [] := by
    intro hnil
    unfold dropEndSlashes at hnil
    simp only at hnil
    split at hnil
    · exact hne hnil
    · rename_i hfull
      simp [hnil] at hfull
  have hshort' : ¬ pathLimit < byteLength (dropEndSlashes path) := by
    have := byteLength_le_of_isPrefix hbegins
    omega
  rw [liesAt_iff_lands, liesAt_iff_lands, splitOn_canonical hpath, hnames, List.map_append,
    splitOn_canonical hbytes, isRooted_of_isPrefix hbegins hne',
    lands_append_idle_iff (isIdle_of_mem_map_canonical hidle)]
  simp only [ne_eq, hne, hne', hshort, hshort', not_false_eq_true, true_and]

/-- Where there is a directory none can be made. -/
lemma exists_makeDirectory_error (hpath : IsByteText path) (h : s.isDirectory path = true) :
    ∃ e, s.makeDirectory path = .error e := by
  by_cases hlong : pathLimit < byteLength path
  · exact ⟨.nameTooLong, by rw [makeDirectory, if_pos hlong]; rfl⟩
  · obtain ⟨d, hd⟩ := isDirectory_iff.mp h
    obtain ⟨es, hes⟩ := (liesAt_dropEndSlashes_iff hpath hlong).mpr hd
    exact exists_makeDirectory_error_of_lookup (lookup_eq_ok_iff.mpr ⟨d, hes⟩)

/-- There is nothing in a directory where nothing was before. -/
lemma list_eq_nil_of_liesAt (hnone : s.view d = none)
    (hview : s'.view = Function.update s.view d (some .directory)) (hlies : s'.LiesAt path d) :
    s'.list path = .ok [] := by
  obtain ⟨es, hes⟩ := hlies
  cases es with
  | nil => exact list_eq_ok_iff.mpr ⟨_, hes⟩
  | cons e rest =>
    -- an entry of the new directory would have been there before
    have hentry := find?_concat (find?_of_object hes) e.1
    rw [Table.get?, if_pos rfl] at hentry
    have hseen := congrFun hview (d ++ [e.1])
    rw [view_eq_of_find? hentry, Function.update_of_ne (by simp)] at hseen
    have hplace : s.view d ≠ some .directory := by simp [hnone]
    rw [view_below_of_ne_directory hplace e.1 []] at hseen
    cases hseen

/-- A directory that has been made is where its path leads, and there is nothing in it. -/
theorem liesAt_of_makeDirectory (hpath : IsByteText path) (h : s.makeDirectory path = .ok s') :
    ∃ loc, s.view loc = none ∧ s'.view = Function.update s.view loc (some .directory) ∧
      s'.LiesAt path loc ∧ s'.list path = .ok [] := by
  obtain ⟨hshort, parent, name, slashed, hplace, rfl⟩ := makeDirectory_eq_ok_iff.mp h
  have hnone := (view_of_vacancy hplace).2
  have hview := view_put_vacancy hplace Node.isLeaf_emptyDirectory
  have hlies := (liesAt_dropEndSlashes_iff hpath hshort).mp (liesAt_put_vacancy hplace)
  exact ⟨parent ++ [name], hnone, hview, hlies, list_eq_nil_of_liesAt hnone hview hlies⟩

end State

end FileSystem

/-! ## A path and its last name -/

/-- The names of the path are those of the first part and the name, but for empty names. -/
structure Text.Extends (head name path : Text) : Prop where
  /-- The path begins with the first part. -/
  isPrefix : head <+: path
  /-- The first part ends at a slash. -/
  slash : (∃ a, head = a ++ [('/' : CodePoint)]) ∨ ∃ b, path = head ++ ('/' : CodePoint) :: b
  /-- There is a first part. -/
  head_ne_nil : head ≠ []
  /-- There is a name. -/
  name_ne_nil : name ≠ []
  /-- The name stands behind the names of the first part. -/
  names : ∃ names idle before after : List Text,
    (∀ n ∈ idle, n = []) ∧ (∀ n ∈ before, n = []) ∧ (∀ n ∈ after, n = []) ∧
      head.splitOn '/' = names ++ idle ∧ path.splitOn '/' = names ++ (before ++ name :: after) ∧
      (FileSystem.dropEndSlashes path).splitOn '/' = names ++ (before ++ [name])

namespace Files

open FileSystem

/-- A path is what stands before its last name, which ends in a slash or is empty, and this name. -/
lemma exists_splitLast (path : Text) : ∃ front, path = front ++ (splitLast path).2 ∧
    (splitLast path).1 = dropEndSlashes front ∧ ('/' : CodePoint) ∉ (splitLast path).2 ∧
      (front = [] ∨ ∃ a, front = a ++ [('/' : CodePoint)]) := by
  have hparts : path = (path.reverse.dropWhile (· ≠ ('/' : CodePoint))).reverse ++
      (path.reverse.takeWhile (· ≠ ('/' : CodePoint))).reverse := by
    rw [← List.reverse_append, List.takeWhile_append_dropWhile, List.reverse_reverse]
  refine ⟨(path.reverse.dropWhile (· ≠ ('/' : CodePoint))).reverse, hparts, ?_, ?_, ?_⟩
  · have hlength := congrArg List.length hparts
    rw [List.length_append] at hlength
    have htake : path.take (path.length -
        (path.reverse.takeWhile (· ≠ ('/' : CodePoint))).reverse.length) =
          (path.reverse.dropWhile (· ≠ ('/' : CodePoint))).reverse := by
      rw [hlength, Nat.add_sub_cancel]
      generalize (path.reverse.dropWhile (· ≠ ('/' : CodePoint))).reverse = front at hparts
      rw [hparts]
      exact List.take_left
    unfold splitLast
    simp only [htake]
  · intro hmem
    have hnot := List.mem_takeWhile_imp (List.mem_reverse.mp hmem)
    simp at hnot
  · rcases List.eq_nil_or_concat (path.reverse.dropWhile (· ≠ ('/' : CodePoint))).reverse with
      hnil | ⟨a, c, hconcat⟩
    · exact Or.inl hnil
    · right
      rw [List.concat_eq_append] at hconcat
      have hhead : (path.reverse.dropWhile (· ≠ ('/' : CodePoint))).head? = some c := by
        rw [← List.getLast?_reverse, hconcat]
        exact List.getLast?_concat
      have hslash := List.head?_dropWhile_not (· ≠ ('/' : CodePoint)) path.reverse
      rw [hhead] at hslash
      obtain rfl : c = ('/' : CodePoint) := by simpa using hslash
      exact ⟨a, hconcat⟩

/-- Slashes before a name add empty names. -/
lemma exists_splitOn_slashes {slashes name : Text} (h : ∀ c ∈ slashes, c = ('/' : CodePoint))
    (hname : ('/' : CodePoint) ∉ name) : ∃ before : List Text, (∀ n ∈ before, n = []) ∧
      (slashes ++ name).splitOn '/' = before ++ [name] := by
  induction slashes with
  | nil => exact ⟨[], by simp, Text.splitOn_of_notMem hname⟩
  | cons c slashes ih =>
    obtain ⟨rfl, hrest⟩ := List.forall_mem_cons.mp h
    obtain ⟨before, hbefore, hsplit⟩ := ih hrest
    refine ⟨[] :: before, List.forall_mem_cons.mpr ⟨rfl, hbefore⟩, ?_⟩
    rw [List.cons_append, Text.splitOn, if_pos rfl, hsplit, List.cons_append]

/-- A path without slashes at its end is taken apart at its last name. -/
lemma extends_splitLast {path : Text} (hhead : (splitLast path).1 ≠ [])
    (hname : (splitLast path).2 ≠ []) :
    Text.Extends (splitLast path).1 (splitLast path).2 path := by
  obtain ⟨front, hpath, hfront, hslash, hends⟩ := exists_splitLast path
  generalize (splitLast path).1 = head at hhead hfront ⊢
  generalize (splitLast path).2 = name at hname hpath hslash ⊢
  subst hpath
  obtain ⟨behind, hbehind, hslashes⟩ := exists_dropEndSlashes front
  rw [← hfront] at hbehind
  have hbegins : head <+: front ++ name :=
    ⟨behind ++ name, by rw [← List.append_assoc, ← hbehind]⟩
  have hbare := dropEndSlashes_of_notMem (a := front) hname hslash
  cases behind with
  | nil =>
    -- the first part consists of slashes
    rw [List.append_nil] at hbehind
    subst hbehind
    obtain ⟨a, rfl⟩ := hends.resolve_left hhead
    have hnames : (a ++ [('/' : CodePoint)] ++ name).splitOn '/' = a.splitOn '/' ++ ([] ++ [name]) := by
      rw [List.append_assoc, List.singleton_append, Text.splitOn_append_cons,
        Text.splitOn_of_notMem hslash]
      rfl
    exact ⟨hbegins, Or.inl ⟨a, rfl⟩, hhead, hname, Text.splitOn '/' a, [[]], [], [], by simp, by simp,
      by simp, Text.splitOn_append_cons a [], hnames, by rw [hbare, hnames]⟩
  | cons c behind =>
    obtain ⟨rfl, hrest⟩ := List.forall_mem_cons.mp hslashes
    obtain ⟨before, hbefore, hsplit⟩ := exists_splitOn_slashes hrest hslash
    have hnames : (front ++ name).splitOn '/' = head.splitOn '/' ++ (before ++ [name]) := by
      rw [hbehind, List.append_assoc, List.cons_append, Text.splitOn_append_cons, hsplit]
    exact ⟨hbegins, Or.inr ⟨behind ++ name, by rw [hbehind]; simp⟩, hhead, hname,
      Text.splitOn '/' head, [], before, [], by simp, hbefore, by simp, by simp, hnames,
      by rw [hbare, hnames]⟩

/-- A path is taken apart at its last name. -/
theorem extends_splitPath {path : Text} (hhead : (splitPath path).1 ≠ [])
    (hname : (splitPath path).2 ≠ []) :
    Text.Extends (splitPath path).1 (splitPath path).2 path := by
  cases hlast : splitLast path with
  | mk head name =>
    cases name with
    | cons c name =>
      have hsplit : splitPath path = splitLast path := by
        rw [splitPath, hlast]
      rw [hsplit] at hhead hname ⊢
      exact extends_splitLast hhead hname
    | nil =>
      -- the path ends in slashes, which are dropped first
      obtain ⟨front, hpath, hfront, -, -⟩ := exists_splitLast path
      rw [hlast, List.append_nil] at hpath
      rw [hlast] at hfront
      subst hpath
      have hsplit : splitPath path = splitLast (dropEndSlashes path) := by
        rw [splitPath, hlast, ← hfront]
      rw [hsplit] at hhead hname ⊢
      have hextends := extends_splitLast hhead hname
      obtain ⟨behind, hbehind, -⟩ := exists_dropEndSlashes path
      obtain ⟨rest, hrest, hmore⟩ := exists_splitOn_dropEndSlashes path
      obtain ⟨names, idle, before, after, hidle, hbefore, hafter, hleft, hright, hbare⟩ :=
        hextends.names
      have hdropped : dropEndSlashes (dropEndSlashes path) = dropEndSlashes path := by
        obtain ⟨front', hpath', -, hslash', -⟩ := exists_splitLast (dropEndSlashes path)
        rw [hpath', dropEndSlashes_of_notMem hname hslash']
      rw [hdropped] at hbare
      have hslash : (∃ a, (splitLast (dropEndSlashes path)).1 = a ++ [('/' : CodePoint)]) ∨
          ∃ b, path = (splitLast (dropEndSlashes path)).1 ++ ('/' : CodePoint) :: b := by
        refine hextends.slash.imp_right fun ⟨b, hb⟩ => ⟨b ++ behind, ?_⟩
        rw [← List.cons_append, ← List.append_assoc, ← hb, ← hbehind]
      have hnames : path.splitOn '/' =
          names ++ (before ++ (splitLast (dropEndSlashes path)).2 :: rest) := by
        rw [hmore, hbare]
        simp
      exact ⟨hextends.isPrefix.trans ⟨behind, hbehind.symm⟩, hslash, hhead, hname,
        names, idle, before, rest, hidle, hbefore, hrest, hleft, hnames, hbare⟩

end Files

/-! ## What a path says about its first part -/

namespace Text.Extends

open FileSystem

variable {head name path : Text} {s s' : State} {d : Location}

/-- The names of the first part are names of the path. -/
lemma mem_splitOn (h : Extends head name path) {n : Name} (hn : n ∈ head.splitOn '/') (hne : n ≠ []) :
    n ∈ path.splitOn '/' := by
  obtain ⟨names, idle, before, after, hidle, -, -, hleft, hright, -⟩ := h.names
  rw [hleft, List.mem_append] at hn
  rw [hright]
  exact List.mem_append_left _ (hn.resolve_right fun hmem => hne (hidle n hmem))

/-- The last name is a name of the path. -/
lemma name_mem_splitOn (h : Extends head name path) : name ∈ path.splitOn '/' := by
  obtain ⟨names, idle, before, after, -, -, -, -, hright, -⟩ := h.names
  rw [hright]
  simp

/-- The first part of a path consists of bytes if the path does. -/
lemma isByteText_head (h : Extends head name path) (hpath : IsByteText path) : IsByteText head :=
  fun c hc => hpath c (h.isPrefix.subset hc)

/-- A directory to which a path leads is led to from the one to which its first part leads. -/
lemma exists_lands (h : Extends head name path) (hpath : IsByteText path) (hd : s.LiesAt path d) :
    ∃ d' left before after, (∀ n ∈ before, n = []) ∧ (∀ n ∈ after, n = []) ∧ s.LiesAt head d' ∧
      s.frame d' = some .directory ∧
      Lands s.frame .lookup left d' (before ++ canonical name :: after) (.stop d) := by
  obtain ⟨names, idle, before, after, hidle, hbefore, hafter, hleft, hright, -⟩ := h.names
  obtain ⟨hne, hshort, hlands, hdirectory⟩ := State.liesAt_iff_lands.mp hd
  rw [splitOn_canonical hpath, hright, List.map_append, List.map_append, List.map_cons] at hlands
  obtain ⟨d', left, hd', hdirectory', hrest⟩ := hlands.split rfl (by simp) trivial
  refine ⟨d', left, _, _, fun n => eq_nil_of_mem_map_canonical hbefore,
    fun n => eq_nil_of_mem_map_canonical hafter, ?_, hdirectory', hrest⟩
  have hshort' := byteLength_le_of_isPrefix h.isPrefix
  rw [isRooted_of_isPrefix h.isPrefix h.head_ne_nil] at hd'
  refine State.liesAt_iff_lands.mpr ⟨h.head_ne_nil, by omega, ?_⟩
  rw [splitOn_canonical (h.isByteText_head hpath), hleft, List.map_append]
  exact (lands_append_idle_iff (isIdle_of_mem_map_canonical hidle)).mpr ⟨hd', hdirectory'⟩

/-- If a path leads to a directory then so does its first part. -/
theorem isDirectory_head (h : Extends head name path) (hpath : IsByteText path)
    (hd : s.isDirectory path = true) : s.isDirectory head = true := by
  obtain ⟨d, hlies⟩ := State.isDirectory_iff.mp hd
  obtain ⟨d', left, before, after, -, -, hhead, -⟩ := h.exists_lands hpath hlies
  exact State.isDirectory_iff.mpr ⟨d', hhead⟩

/-- What is listed behind a single dot is the directory before it. -/
lemma list_head_of_dot (h : Extends head dot path) (hpath : IsByteText path) {es : Entries}
    (hlist : s.list path = .ok es) : s.list head = .ok es := by
  obtain ⟨d, hd⟩ := State.list_eq_ok_iff.mp hlist
  have hlies : s.LiesAt path d := ⟨es, hd⟩
  obtain ⟨d', left, before, after, hbefore, hafter, ⟨es', hhead⟩, hdirectory, hlands⟩ :=
    h.exists_lands hpath hlies
  have hidle : ∀ n ∈ before ++ canonical dot :: after, (n.isEmpty || n = dot) = true := by
    intro n hn
    simp only [List.mem_append, List.mem_cons] at hn
    rcases hn with hn | rfl | hn
    · rw [hbefore n hn]
      rfl
    · rfl
    · rw [hafter n hn]
      rfl
  obtain ⟨rfl, -⟩ := (lands_idle_iff hidle).mp ⟨hlands, (State.liesAt_iff_lands.mp hlies).2.2.2⟩
  have hsame := (State.find?_of_object hd).symm.trans (State.find?_of_object hhead)
  obtain rfl : es = es' := by simpa using hsame
  exact State.list_eq_ok_iff.mpr ⟨d, hhead⟩

/-- A path that ends in a single dot leads to the directory before it, unless it is too long. -/
lemma isDirectory_dot_iff (h : Extends head dot path) (hpath : IsByteText path) :
    s.isDirectory path = true ↔ s.isDirectory head = true ∧ ¬ pathLimit < byteLength path := by
  constructor
  · intro hd
    obtain ⟨d, hlies⟩ := State.isDirectory_iff.mp hd
    exact ⟨h.isDirectory_head hpath hd, (State.liesAt_iff_lands.mp hlies).2.1⟩
  · rintro ⟨hd, hshort⟩
    obtain ⟨d, hlies⟩ := State.isDirectory_iff.mp hd
    obtain ⟨names, idle, before, after, hidle, hbefore, hafter, hleft, hright, -⟩ := h.names
    obtain ⟨hne, -, hlands⟩ := State.liesAt_iff_lands.mp hlies
    rw [splitOn_canonical (h.isByteText_head hpath), hleft, List.map_append,
      lands_append_idle_iff (isIdle_of_mem_map_canonical hidle)] at hlands
    refine State.isDirectory_iff.mpr ⟨d, State.liesAt_iff_lands.mpr ⟨?_, hshort, ?_⟩⟩
    · rintro rfl
      exact h.head_ne_nil (List.prefix_nil.mp h.isPrefix)
    · rw [splitOn_canonical hpath, hright, List.map_append,
        isRooted_of_isPrefix h.isPrefix h.head_ne_nil]
      refine (lands_append_idle_iff fun n hn => ?_).mpr hlands
      rw [List.map_append, List.map_cons, List.mem_append, List.mem_cons] at hn
      rcases hn with hn | rfl | hn
      · exact isIdle_of_mem_map_canonical hbefore n hn
      · rfl
      · exact isIdle_of_mem_map_canonical hafter n hn

/-- A directory with a regular name is an entry of the directory before it. -/
lemma exists_list_head (h : Extends head name path) (hpath : IsByteText path) (hname : IsRegular name)
    (hd : s.isDirectory path = true) : ∃ e es, s.list head = .ok (e :: es) := by
  obtain ⟨d, hlies⟩ := State.isDirectory_iff.mp hd
  obtain ⟨d', left, before, after, hbefore, -, ⟨es, hhead⟩, hdirectory, hlands⟩ :=
    h.exists_lands hpath hlies
  have hentry := hlands.entry_ne_none hbefore (isRegular_canonical_iff.mpr hname)
  rw [State.frame_eq, State.find?_concat (State.find?_of_object hhead)] at hentry
  cases es with
  | nil => exact absurd rfl hentry
  | cons e rest => exact ⟨e, rest, State.list_eq_ok_iff.mpr ⟨d', hhead⟩⟩

/-- A directory is made in a directory, under a name that is one. -/
theorem of_makeDirectory (h : Extends head name path) (hpath : IsByteText path)
    (hmake : s.makeDirectory path = .ok s') : IsRegular name ∧ s.isDirectory head = true := by
  obtain ⟨hshort, parent, n, slashed, hplace, rfl⟩ := State.makeDirectory_eq_ok_iff.mp hmake
  obtain ⟨names, idle, before, after, hidle, hbefore, hafter, hleft, -, hbare⟩ := h.names
  obtain ⟨behind, hbehind, -⟩ := exists_dropEndSlashes path
  have hbegins : dropEndSlashes path <+: path := ⟨behind, hbehind.symm⟩
  have hbytes : IsByteText (dropEndSlashes path) :=
    fun c hc => hpath c (mem_of_mem_dropEndSlashes hc)
  obtain ⟨l, hland, hsettles⟩ := State.locate_eq_ok_iff.mp hplace
  obtain ⟨hne, -, hlands⟩ := land_eq_ok_iff.mp hland
  cases hsettles with
  | @vacancy _ _ rest _ hrest =>
    rw [splitOn_canonical hbytes, hbare, ← List.append_assoc, List.map_append] at hlands
    have hname : canonical name ≠ [] := fun he => h.name_ne_nil (eq_of_canonical_eq (by simp) he)
    obtain ⟨hlast, hpass⟩ := hlands.passes_last (List.getLast?_concat)
    -- only empty names remain before the vacancy, so the name is its name
    obtain ⟨rfl, rfl⟩ : rest = [] ∧ n = canonical name := by
      rcases List.eq_nil_or_concat rest with rfl | ⟨init, x, rfl⟩
      · exact ⟨rfl, by simpa using hlast⟩
      · rw [List.concat_eq_append, ← List.cons_append, List.getLast?_concat,
          Option.some.injEq] at hlast
        subst hlast
        rw [List.concat_eq_append, List.all_append, Bool.and_eq_true] at hrest
        exact absurd (by simpa using hrest.2) hname
    have hregular : IsRegular (canonical name) :=
      ⟨hname, fun he => hpass.notIdle (by simp [he]), hpass.notUp⟩
    refine ⟨isRegular_canonical_iff.mp hregular, ?_⟩
    obtain ⟨d, hd, hdirectory, -⟩ := hlands.last hregular rfl
    rw [List.map_append] at hd
    have hd' := (lands_append_idle_iff (isIdle_of_mem_map_canonical hbefore)).mp ⟨hd, hdirectory⟩
    have hshort' := byteLength_le_of_isPrefix h.isPrefix
    refine State.isDirectory_iff.mpr ⟨d, State.liesAt_iff_lands.mpr
      ⟨h.head_ne_nil, by omega, ?_⟩⟩
    rw [splitOn_canonical (h.isByteText_head hpath), hleft, List.map_append,
      ← isRooted_of_isPrefix h.isPrefix h.head_ne_nil,
      isRooted_of_isPrefix hbegins hne]
    exact (lands_append_idle_iff (isIdle_of_mem_map_canonical hidle)).mpr hd'

end Text.Extends

end EditorDocs
