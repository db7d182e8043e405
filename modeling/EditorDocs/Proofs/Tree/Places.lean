import EditorDocs.Proofs.Tree.Build

/-!
# The directories below a path

A walk finds the directories to which names lead from the path that it starts at: each is listed under
the path of the one above it with its name behind.  `TreeSettings.Leads` says that names lead to a
directory in this way; their number is its level, and `FileSystem.descend` is its path.

The names can be read off the path (`FileSystem.descend_injective`), so directories that are found in
different ways have different paths.  This is why nothing is reported twice on a walk.
-/

namespace EditorDocs

open FileSystem (Entries Name Node IsByteText IsName under)

/-! ## Paths with names behind them -/

namespace FileSystem

/-- The path that names lead to from a path. -/
def descend (path : Text) (names : List Name) : Text := names.foldl under path

/-- No names lead nowhere else. -/
@[simp] lemma descend_nil (path : Text) : descend path [] = path := rfl

/-- The first name leads to where the others begin. -/
@[simp] lemma descend_cons (path : Text) (name : Name) (names : List Name) :
    descend path (name :: names) = descend (under path name) names := rfl

/-- The last name leads on from where the others end. -/
lemma descend_concat (path : Text) (names : List Name) (name : Name) :
    descend path (names ++ [name]) = under (descend path names) name := by
  rw [descend, List.foldl_append]
  rfl

/-- A path without a slash at its end falls into its own parts and the name that is put behind it. -/
lemma splitOn_under {path : Text} {name : Name} (hend : ¬ path.endsWith "/" = true)
    (hname : IsName name) : (under path name).splitOn '/' = path.splitOn '/' ++ [name] := by
  have hslash : ("/" : Text) = [('/' : CodePoint)] := by decide
  rw [under, if_neg hend, hslash, List.append_assoc, List.singleton_append,
    Text.splitOn_append_cons, Text.splitOn_of_notMem hname.noSlash]

/-- A path with a slash at its end is the path before it and an empty part. -/
lemma exists_eq_of_endsWith {path : Text} (hend : path.endsWith "/" = true) :
    ∃ p : Text, p ++ [('/' : CodePoint)] = path := by
  have hslash : ("/" : Text) = [('/' : CodePoint)] := by decide
  rwa [Text.endsWith, hslash, List.isSuffixOf_iff_suffix] at hend

/-- A path with a name behind it falls into parts that are its own and the name. -/
lemma exists_splitOn_under (path : Text) : ∃ parts, ∀ name, IsName name →
    (under path name).splitOn '/' = parts ++ [name] := by
  by_cases hend : path.endsWith "/" = true
  · obtain ⟨p, rfl⟩ := exists_eq_of_endsWith hend
    refine ⟨Text.splitOn '/' p, fun name hname => ?_⟩
    rw [under, if_pos hend, List.append_assoc, List.singleton_append, Text.splitOn_append_cons,
      Text.splitOn_of_notMem hname.noSlash]
  · exact ⟨path.splitOn '/', fun name hname => splitOn_under hend hname⟩

/-- A path whose last part is a name falls into its own parts and the names that are put behind it. -/
lemma splitOn_descend {path : Text} {parts : List Text} {last : Name}
    (hpath : path.splitOn '/' = parts ++ [last]) (hlast : IsName last) {names : List Name}
    (hnames : ∀ n ∈ names, IsName n) :
    (descend path names).splitOn '/' = parts ++ last :: names := by
  induction names generalizing path parts last with
  | nil => exact hpath
  | cons name rest ih =>
    have hname := hnames name List.mem_cons_self
    -- a path with a slash at its end has an empty part there
    have hend : ¬ path.endsWith "/" = true := by
      intro hend
      obtain ⟨p, rfl⟩ := exists_eq_of_endsWith hend
      rw [Text.splitOn_append_cons] at hpath
      have hsame : [[]] = [last] := List.append_inj_right' hpath rfl
      exact hlast.regular.1 (List.cons.inj hsame).1.symm
    have hunder : (under path name).splitOn '/' = (parts ++ [last]) ++ [name] := by
      rw [splitOn_under hend hname, hpath]
    have hrest := ih hunder hname fun n hn => hnames n (List.mem_cons_of_mem name hn)
    rw [descend_cons, hrest, List.append_assoc, List.singleton_append]

/-- A path with a name behind it is longer. -/
lemma length_lt_length_under (path : Text) {name : Name} (hname : IsName name) :
    path.length < (under path name).length := by
  have hpos := List.length_pos_iff.mpr hname.regular.1
  unfold under
  split
  · rw [List.length_append]
    omega
  · rw [List.length_append, List.length_append]
    omega

/-- A path with names behind it is no shorter. -/
lemma length_le_length_descend (path : Text) {names : List Name} (hnames : ∀ n ∈ names, IsName n) :
    path.length ≤ (descend path names).length := by
  induction names generalizing path with
  | nil => exact Nat.le_refl _
  | cons name rest ih =>
    have hfirst := length_lt_length_under path (hnames name List.mem_cons_self)
    have hrest := ih (under path name) fun n hn => hnames n (List.mem_cons_of_mem name hn)
    rw [descend_cons]
    omega

/-- The names can be read off the path that they lead to. -/
theorem descend_injective {path : Text} {names names' : List Name} (h : ∀ n ∈ names, IsName n)
    (h' : ∀ n ∈ names', IsName n) (heq : descend path names = descend path names') :
    names = names' := by
  have hlonger : ∀ name rest, (∀ n ∈ name :: rest, IsName n) →
      path.length < (descend path (name :: rest)).length := by
    intro name rest hall
    have hfirst := length_lt_length_under path (hall name List.mem_cons_self)
    have hrest := length_le_length_descend (under path name) fun n hn =>
      hall n (List.mem_cons_of_mem name hn)
    exact Nat.lt_of_lt_of_le hfirst hrest
  obtain ⟨parts, hparts⟩ := exists_splitOn_under path
  have hsplit : ∀ name rest, (∀ n ∈ name :: rest, IsName n) →
      (descend path (name :: rest)).splitOn '/' = parts ++ name :: rest := by
    intro name rest hall
    have hname := hall name List.mem_cons_self
    exact splitOn_descend (hparts name hname) hname fun n hn => hall n (List.mem_cons_of_mem name hn)
  rcases names with _ | ⟨name, rest⟩ <;> rcases names' with _ | ⟨name', rest'⟩
  · rfl
  · have := hlonger name' rest' h'
    rw [← heq] at this
    exact absurd this (Nat.lt_irrefl _)
  · have := hlonger name rest h
    rw [heq] at this
    exact absurd this (Nat.lt_irrefl _)
  · have hboth := (hsplit name rest h).symm.trans ((congrArg _ heq).trans (hsplit name' rest' h'))
    exact List.append_cancel_left hboth

end FileSystem

namespace TreeSettings

/-! ## Directories that are found -/

/-- The names that are listed are names, and different ones. -/
lemma isName_of_rootListing {w : World} (hw : w.files.IsNamed) {path : Text} {es : Entries}
    (h : rootListing w path = .ok es) :
    (Table.keys es).Nodup ∧ ∀ name ∈ Table.keys es, IsName name := by
  obtain ⟨dir, hlocate⟩ := FileSystem.State.list_eq_ok_iff.mp (list_of_rootListing h)
  exact hw.entries dir es (FileSystem.State.find?_of_object hlocate)

/-- The names lead from a path to a directory: each but the last one leads to a directory that can be
listed, and the next one is the name of a directory in it. -/
inductive Leads (w : World) : Text → List Name → Prop where
  /-- No names lead to the directory itself. -/
  | here {path} : Leads w path []
  /-- The first name leads to a directory in it, from which the others lead on. -/
  | down {path es name es' names} (hlist : rootListing w path = .ok es)
      (hentry : (name, Node.directory es') ∈ es) (hrest : Leads w (under path name) names) :
      Leads w path (name :: names)

/-- Names that lead to a directory are names. -/
lemma Leads.isName {w : World} (hw : w.files.IsNamed) {path : Text} {names : List Name}
    (h : Leads w path names) : ∀ n ∈ names, IsName n := by
  induction h with
  | here => simp
  | @down path es name es' names hlist hentry hrest ih =>
    have hname := (isName_of_rootListing hw hlist).2 name
      (List.mem_map_of_mem (f := Prod.fst) hentry)
    exact List.forall_mem_cons.mpr ⟨hname, ih⟩

/-- A directory is found on one way only. -/
theorem Leads.unique {w : World} (hw : w.files.IsNamed) {path : Text} {names names' : List Name}
    (h : Leads w path names) (h' : Leads w path names')
    (heq : FileSystem.descend path names = FileSystem.descend path names') : names = names' :=
  FileSystem.descend_injective (h.isName hw) (h'.isName hw) heq

/-- Names that lead to a directory lead on to those in it. -/
lemma Leads.concat {w : World} {path : Text} {names : List Name} (h : Leads w path names)
    {es : Entries} (hlist : rootListing w (FileSystem.descend path names) = .ok es) {name : Name}
    {es' : Entries} (hentry : (name, Node.directory es') ∈ es) : Leads w path (names ++ [name]) := by
  induction h with
  | here => exact .down hlist hentry .here
  | down hlist' hentry' hrest ih => exact .down hlist' hentry' (ih hlist)

/-- The directory under a path is found so many levels below another one. -/
def LiesAt (w : World) (path : Text) (level : Nat) (p : Text) : Prop :=
  ∃ names, Leads w path names ∧ names.length = level ∧ FileSystem.descend path names = p

/-- A directory lies on one level only. -/
lemma LiesAt.unique {w : World} (hw : w.files.IsNamed) {path p : Text} {level level' : Nat}
    (h : LiesAt w path level p) (h' : LiesAt w path level' p) : level = level' := by
  obtain ⟨names, hleads, rfl, hp⟩ := h
  obtain ⟨names', hleads', rfl, hp'⟩ := h'
  rw [hleads.unique hw hleads' (hp.trans hp'.symm)]

/-- A directory in a directory lies on the next level. -/
lemma LiesAt.under {w : World} {path p : Text} {level : Nat} (h : LiesAt w path level p)
    {es : Entries} (hlist : rootListing w p = .ok es) {name : Name} {es' : Entries}
    (hentry : (name, Node.directory es') ∈ es) :
    LiesAt w path (level + 1) (FileSystem.under p name) := by
  obtain ⟨names, hleads, rfl, rfl⟩ := h
  refine ⟨names ++ [name], hleads.concat hlist hentry, ?_, FileSystem.descend_concat path names name⟩
  rw [List.length_append, List.length_singleton]

/-- The subdirectories are the entries that are directories. -/
lemma mem_subdirectories_iff {before : Name → Name → Bool} {es : Entries} {d : Name × Entries} :
    d ∈ Walk.subdirectories (Entries.sort before es) ↔ (d.1, Node.directory d.2) ∈ es := by
  have hmem : ∀ es : Entries, (d.1, Node.directory d.2) ∈ es → d ∈ Walk.subdirectories es := by
    intro es h
    induction es using Walk.subdirectories.induct with
    | case1 => cases h
    | case2 name es' rest ih =>
      rw [Walk.subdirectories]
      rcases List.mem_cons.mp h with hfirst | hrest
      · cases hfirst
        exact List.mem_cons_self
      · exact List.mem_cons_of_mem _ (ih hrest)
    | case3 e rest hfile ih =>
      obtain ⟨name, n⟩ := e
      rcases List.mem_cons.mp h with hfirst | hrest
      · cases hfirst
        exact absurd rfl (hfile _ _)
      · rw [Walk.subdirectories]
        · exact ih hrest
        · exact hfile
  constructor
  · exact fun h => (FileSystem.Entries.sort_perm before es).subset (mem_of_mem_subdirectories h)
  · exact fun h => hmem _ ((FileSystem.Entries.sort_perm before es).symm.subset h)

/-- Subdirectories have different names. -/
lemma nodup_subdirectories {before : Name → Name → Bool} {es : Entries}
    (h : (Table.keys es).Nodup) :
    ((Walk.subdirectories (Entries.sort before es)).map Prod.fst).Nodup := by
  have hsub : ∀ es : Entries, ((Walk.subdirectories es).map Prod.fst).Sublist (Table.keys es) := by
    intro es
    fun_induction Walk.subdirectories es with
    | case1 => exact .slnil
    | case2 name es' rest ih => exact ih.cons_cons name
    | case3 e rest hfile ih => exact ih.cons e.1
  have hkeys : (Table.keys (Entries.sort before es)).Perm (Table.keys es) :=
    (FileSystem.Entries.sort_perm before es).map Prod.fst
  exact (hsub _).nodup (hkeys.nodup_iff.mpr h)

end TreeSettings

end EditorDocs
