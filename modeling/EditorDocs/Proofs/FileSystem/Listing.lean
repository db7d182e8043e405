import EditorDocs.Proofs.FileSystem.Names

/-!
# Listing what was listed

The entry of a directory that was listed can be listed itself, under the path of the directory with
the name behind it, if it is a directory and this path is not too long (`State.list_under`).  The names
of the file system have to be names for this (`State.IsNamed`): no name holds a slash, stands for
another directory, or is there twice.
-/

namespace EditorDocs.FileSystem

/-! ## Paths of entries -/

/-- The path of an entry is that of the directory without a slash at its end, a slash and the name. -/
lemma exists_under_eq (path : Text) (name : Name) :
    ∃ p, under path name = p ++ ('/' : CodePoint) :: name ∧
      (path = p ∨ path = p ++ [('/' : CodePoint)]) := by
  have hslash : ("/" : Text) = [('/' : CodePoint)] := by decide
  unfold under
  split
  · rename_i hend
    rw [Text.endsWith, hslash, List.isSuffixOf_iff_suffix] at hend
    obtain ⟨p, rfl⟩ := hend
    exact ⟨p, by simp, Or.inr rfl⟩
  · exact ⟨path, by simp [hslash], Or.inl rfl⟩

/-- Whether a path begins at the root is seen at its beginning. -/
lemma isRooted_under {path : Text} (hne : path ≠ []) (name : Name) :
    isRooted (under path name) = isRooted path := by
  have hslash : ("/" : Text) = [('/' : CodePoint)] := by decide
  obtain ⟨c, rest, rfl⟩ := List.exists_cons_of_ne_nil hne
  unfold isRooted under Text.startsWith
  rw [hslash]
  split <;> simp [List.isPrefixOf]

/-- The path of an entry consists of bytes if that of the directory does. -/
lemma IsByteText.under {path : Text} {name : Name} (hpath : IsByteText path)
    (hname : IsByteText name) : IsByteText (under path name) := by
  have hslash : IsByteText ("/" : Text) := by
    unfold IsByteText
    decide
  have happend : ∀ {a b : Text}, IsByteText a → IsByteText b → IsByteText (a ++ b) := by
    intro a b ha hb c hc
    rcases List.mem_append.mp hc with h | h
    · exact ha c h
    · exact hb c h
  unfold FileSystem.under
  split
  · exact happend hpath hname
  · exact happend (happend hpath hslash) hname

/-- The names of a path are those of the path that an entry shares with the directory, and at most an
empty one. -/
lemma exists_names_under {path : Text} {name : Name} (hpath : IsByteText path) (hname : IsName name) :
    ∃ names idle, (canonical path).splitOn '/' = names ++ idle ∧ (idle = [] ∨ idle = [[]]) ∧
      (canonical (under path name)).splitOn '/' = names ++ [name] := by
  obtain ⟨p, hunder, hp⟩ := exists_under_eq path name
  have hbytes : IsByteText p := by
    intro c hc
    rcases hp with rfl | rfl
    · exact hpath c hc
    · exact hpath c (List.mem_append_left _ hc)
  have hnames : (canonical (under path name)).splitOn '/' = (canonical p).splitOn '/' ++ [name] := by
    rw [hunder, canonical_append_slash hbytes hname.bytes, Text.splitOn_append_cons, hname.spelled,
      Text.splitOn_of_notMem hname.noSlash]
  rcases hp with rfl | rfl
  · exact ⟨_, [], (List.append_nil _).symm, Or.inl rfl, hnames⟩
  · refine ⟨_, [[]], ?_, Or.inr rfl, hnames⟩
    have hnil : IsByteText [] := fun c hc => by cases hc
    rw [canonical_append_slash hbytes hnil, Text.splitOn_append_cons]
    rfl

/-! ## Following one name more -/

/-- Names that lead to a directory lead to a directory in it with its name behind them. -/
lemma Lands.concat {f : Location → Option Fixture} {links : Nat} {loc dir : Location}
    {names idle : List Name} {name : Name} (h : Lands f .lookup links loc (names ++ idle) (.stop dir))
    (hidle : idle = [] ∨ idle = [[]]) (hdir : f dir = some .directory)
    (hpass : Passes .lookup name []) (hentry : f (dir ++ [name]) = some .directory) :
    Lands f .lookup links loc (names ++ [name]) (.stop (dir ++ [name])) := by
  -- by induction on the steps, of which an empty name at the end is the only one to go
  generalize hall : names ++ idle = all at h
  generalize hl : Landing.stop dir = l at h
  induction h generalizing names with
  | stop hloc =>
    cases hl
    obtain ⟨rfl, -⟩ := List.append_eq_nil_iff.mp hall
    exact .down hdir hpass hentry (.stop hentry)
  | off hloc => cases hl
  | edge hloc hpass' hentry' => cases hl
  | link hloc hpass' hentry' hlast => simp [Manner.lookup] at hlast
  | @idle links loc n rest l hloc hn hrest ih =>
    cases names with
    | nil =>
      rcases hidle with rfl | rfl
      · cases hall
      · cases hall
        cases hrest with
        | stop _ =>
          cases hl
          exact .down hdir hpass hentry (.stop hentry)
        | off _ => cases hl
    | cons m names =>
      cases hall
      exact .idle hloc hn (ih rfl hl)
  | @up links loc rest l hloc hrest ih =>
    cases names with
    | nil => rcases hidle with rfl | rfl <;> cases hall
    | cons m names =>
      cases hall
      exact .up hloc (ih rfl hl)
  | @down links loc n rest l hloc hpass' hentry' hrest ih =>
    cases names with
    | nil =>
      rcases hidle with rfl | rfl
      · cases hall
      · cases hall
        exact absurd rfl hpass'.notIdle
    | cons m names =>
      cases hall
      exact .down hloc (hpass'.of_reads rfl) hentry' (ih rfl hl)
  | @through links loc n rest target l hloc hpass' hentry' hfollowed hrest ih =>
    cases names with
    | nil =>
      rcases hidle with rfl | rfl
      · cases hall
      · cases hall
        exact absurd rfl hpass'.notIdle
    | cons m names =>
      cases hall
      have hbehind := @ih (target.splitOn '/' ++ names) (List.append_assoc _ _ _) hl
      rw [List.append_assoc] at hbehind
      exact .through hloc (hpass'.of_reads rfl) hentry' (by simp [Manner.lookup]) hbehind

/-! ## Listing -/

namespace State

/-- A directory is listed where a path leads to it. -/
lemma list_eq_ok_iff {s : State} {path : Text} {es : Entries} :
    s.list path = .ok es ↔ ∃ loc, s.locate .lookup path = .ok (.object loc (.directory es)) := by
  rw [← lookup_eq_ok_iff, list]
  constructor
  · intro h
    obtain ⟨n, hn, hes⟩ := Result.of_bind h
    cases n with
    | directory es' =>
      cases hes
      exact hn
    | file content => cases hes
    | link target => cases hes
  · intro h
    rw [h]
    rfl

/-- A directory in a directory that was listed is listed, unless its path is too long. -/
theorem list_under {s : State} (hs : s.IsNamed) {path : Text} (hpath : IsByteText path)
    {es es' : Entries} (hlist : s.list path = .ok es) {name : Name}
    (hentry : (name, .directory es') ∈ es) :
    s.list (under path name) =
      if pathLimit < byteLength (under path name) then .error .nameTooLong else .ok es' := by
  obtain ⟨dir, hlocate⟩ := list_eq_ok_iff.mp hlist
  have hdir := find?_of_object hlocate
  obtain ⟨hnodup, hnames⟩ := hs.entries dir es hdir
  have hname : IsName name := hnames name (List.mem_map_of_mem (f := Prod.fst) hentry)
  have hchild : Node.find? (dir ++ [name]) s.root = some (.directory es') := by
    rw [find?_concat hdir, Table.get?_of_mem hnodup hentry]
  have hunder : under path name ≠ [] := by
    obtain ⟨p, hp, -⟩ := exists_under_eq path name
    rw [hp]
    simp
  split
  · rename_i hlong
    have hlocate' : s.locate .lookup (under path name) = .error .nameTooLong := by
      rw [locate, if_neg (by simpa using hunder), if_pos hlong]
    rw [list, lookup, hlocate']
    rfl
  · rename_i hshort
    obtain ⟨l, hland, hsettles⟩ := locate_eq_ok_iff.mp hlocate
    obtain ⟨hne, -, hlands⟩ := land_eq_ok_iff.mp hland
    have hframe : ∀ {loc es}, Node.find? loc s.root = some (.directory es) →
        s.frame loc = some .directory := by
      intro loc es hfind
      rw [frame_eq, hfind]
    have hfits := hlands.fits
    have hstop : l = .stop dir := by
      cases hsettles with
      | stop _ => rfl
      | off _ => cases (hframe hdir).symm.trans hfits
      | file _ => cases (hframe hdir).symm.trans hfits.2
    subst hstop
    have hpass : Passes .lookup name [] := by
      refine ⟨?_, hname.regular.2.2, by simp [Manner.lookup], by have := hname.short; omega⟩
      simp [hname.regular.1, hname.regular.2.1]
    obtain ⟨names, idle, hbefore, hidle, hbehind⟩ := exists_names_under hpath hname
    rw [hbefore, ← isRooted_under hne name] at hlands
    have hmore := hlands.concat hidle (hframe hdir) hpass (hframe hchild)
    rw [← hbehind] at hmore
    have hland' := land_eq_ok_iff.mpr ⟨hunder, hshort, hmore⟩
    exact list_eq_ok_iff.mpr ⟨_, locate_eq_ok_iff.mpr ⟨_, hland', .stop hchild⟩⟩

end State

end EditorDocs.FileSystem
