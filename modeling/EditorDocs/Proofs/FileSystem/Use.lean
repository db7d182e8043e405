import EditorDocs.Proofs.FileSystem.Names
import EditorDocs.Proofs.FileSystem.Spelling
import EditorDocs.World.Files

/-!
# Names in use

Whether some entry has a name of a kind is asked of the whole tree, and answered by what stands at the
locations, if directories list their entries under different names (`Node.anyName_iff`).  So the end of
a name that nobody uses is the same for files in which the same entries stand, as far as their names
could have that end (`Files.freshEnd?_congr`).
-/

namespace EditorDocs

namespace FileSystem.Node

variable {p : Name → Bool} {home : Location}

/-- Some of the entries have such a name, in them or as their own. -/
lemma anyNameOfEntries_iff {es : Entries} :
    anyNameOfEntries p es = true ↔ ∃ e ∈ es, p e.1 = true ∨ e.2.anyName p = true := by
  induction es with
  | nil => simp [anyNameOfEntries]
  | cons e rest ih =>
    obtain ⟨name, n⟩ := e
    simp [anyNameOfEntries, ih, or_assoc]

/-- An entry with such a name that is found is one of the tree. -/
lemma anyName_of_find? {loc : Location} {name : Name} {n : Node} (hname : p name = true)
    (h : find? (loc ++ [name]) n ≠ none) : n.anyName p = true := by
  induction loc generalizing n with
  | nil =>
    cases n with
    | directory es =>
      obtain ⟨child, hchild⟩ := Option.ne_none_iff_exists'.mp h
      obtain ⟨child', hget, -⟩ := Option.bind_eq_some_iff.mp hchild
      exact anyNameOfEntries_iff.mpr ⟨_, Table.mem_of_get? hget, Or.inl hname⟩
    | _ => exact absurd rfl h
  | cons first rest ih =>
    cases n with
    | directory es =>
      obtain ⟨found, hfound⟩ := Option.ne_none_iff_exists'.mp h
      obtain ⟨child, hget, hrest⟩ := Option.bind_eq_some_iff.mp hfound
      have hbelow : find? (rest ++ [name]) child = some found := hrest
      exact anyNameOfEntries_iff.mpr
        ⟨_, Table.mem_of_get? hget, Or.inr (ih (by rw [hbelow]; simp))⟩
    | _ => exact absurd rfl h

mutual

/-- An entry of the tree with such a name is found. -/
theorem exists_find?_of_anyName :
    (n : Node) → State.IsNamed ⟨n, home⟩ → n.anyName p = true →
      ∃ loc name, p name = true ∧ find? (loc ++ [name]) n ≠ none
  | .file _, _, h => by cases h
  | .link _, _, h => by cases h
  | .directory es, hn, h => by
    obtain ⟨hnodup, -, hentries⟩ := isNamed_directory_iff.mp hn
    obtain ⟨e, he, hname | ⟨loc, name, hname, hfind⟩⟩ := exists_find?_of_anyNameOfEntries es hentries h
    · refine ⟨[], e.1, hname, ?_⟩
      simp [find?, Table.get?_of_mem hnodup he]
    · refine ⟨e.1 :: loc, name, hname, ?_⟩
      rw [List.cons_append, find?, Table.get?_of_mem hnodup he]
      exact hfind

/-- One of the entries has such a name, or an entry in it is found that has. -/
theorem exists_find?_of_anyNameOfEntries :
    (es : Entries) → (∀ e ∈ es, State.IsNamed ⟨e.2, home⟩) → anyNameOfEntries p es = true →
      ∃ e ∈ es, p e.1 = true ∨ ∃ loc name, p name = true ∧ find? (loc ++ [name]) e.2 ≠ none
  | [], _, h => by cases h
  | (name, n) :: rest, hes, h => by
    obtain ⟨hn, hrest⟩ := List.forall_mem_cons.mp hes
    simp only [anyNameOfEntries, Bool.or_eq_true, or_assoc] at h
    rcases h with hname | hbelow | hlater
    · exact ⟨_, List.mem_cons_self, Or.inl hname⟩
    · exact ⟨_, List.mem_cons_self, Or.inr (exists_find?_of_anyName n hn hbelow)⟩
    · obtain ⟨e, he, h⟩ := exists_find?_of_anyNameOfEntries rest hrest hlater
      exact ⟨e, List.mem_cons_of_mem _ he, h⟩

end

/-- In a tree whose directories list different names, some entry has such a name if one is found. -/
theorem anyName_iff {n : Node} (hn : State.IsNamed ⟨n, home⟩) :
    n.anyName p = true ↔ ∃ loc name, p name = true ∧ find? (loc ++ [name]) n ≠ none :=
  ⟨exists_find?_of_anyName n hn, fun ⟨_, _, hname, h⟩ => anyName_of_find? hname h⟩

end FileSystem.Node

namespace Files

open FileSystem

/-- The end of a name that nobody uses is the same where the same entries stand whose names could have
that end. -/
theorem freshEnd?_congr {s t : State} (hs : s.IsNamed) (ht : t.IsNamed) {stop : Text}
    (h : ∀ loc name, name.endsWith stop = true →
      (t.view (loc ++ [name]) = none ↔ s.view (loc ++ [name]) = none)) :
    freshEnd? t stop = freshEnd? s stop := by
  have hany : ∀ n, (t.root.anyName fun name => name.endsWith (candidate n ++ stop)) =
      s.root.anyName fun name => name.endsWith (candidate n ++ stop) := by
    intro n
    have htree : State.IsNamed ⟨t.root, t.home⟩ := ht
    have hstree : State.IsNamed ⟨s.root, s.home⟩ := hs
    rw [Bool.eq_iff_iff, Node.anyName_iff htree, Node.anyName_iff hstree]
    refine exists_congr fun loc => exists_congr fun name => and_congr_right fun hname => ?_
    have hstop : name.endsWith stop = true := by
      rw [Text.endsWith, List.isSuffixOf_iff_suffix] at hname ⊢
      exact (List.suffix_append _ _).trans hname
    have hsame := h loc name hstop
    rw [State.view, State.view, Node.view, Node.view, Option.map_eq_none_iff,
      Option.map_eq_none_iff] at hsame
    exact not_congr hsame
  unfold freshEnd?
  rw [List.find?_map, List.find?_map]
  refine congrArg (Option.map _) (congrArg₂ List.find? (funext fun n => ?_) rfl)
  simp only [Function.comp_apply, hany n]

end Files

end EditorDocs
