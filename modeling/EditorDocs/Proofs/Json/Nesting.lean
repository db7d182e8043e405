import EditorDocs.Proofs.Json.Pretty

/-!
# How deep values are nested

`Value.nesting` counts the containers around the innermost part of a value.  A plain value whose
containers are nested no deeper than a budget can be written within it
(`Value.IsPlain.fault?_eq_none`), and what is no container needs no budget at all
(`Value.fault?_of_scalar`).
-/

namespace EditorDocs.Json

mutual

/-- The number of containers, one in the other, around the innermost part of a value. -/
def Value.nesting : Value → Nat
  | .list items => nestingOfItems items + 1
  | .object members => nestingOfMembers members + 1
  | .unordered items => nestingOfItems items + 1
  | _ => 0

/-- The deepest nesting among the items of a list. -/
def nestingOfItems : List Value → Nat
  | [] => 0
  | v :: rest => max v.nesting (nestingOfItems rest)

/-- The deepest nesting among the members of an object. -/
def nestingOfMembers : List (Text × Value) → Nat
  | [] => 0
  | (_, v) :: rest => max v.nesting (nestingOfMembers rest)

end

/-- Items are nested no deeper than a bound if each of them is. -/
lemma nestingOfItems_le_iff {bound : Nat} {vs : List Value} :
    nestingOfItems vs ≤ bound ↔ ∀ v ∈ vs, v.nesting ≤ bound := by
  induction vs with
  | nil => simp [nestingOfItems]
  | cons v rest ih => rw [nestingOfItems, Nat.max_le, ih, List.forall_mem_cons]

/-- Members are nested no deeper than a bound if each of them is. -/
lemma nestingOfMembers_le_iff {bound : Nat} {ms : List (Text × Value)} :
    nestingOfMembers ms ≤ bound ↔ ∀ m ∈ ms, m.2.nesting ≤ bound := by
  induction ms with
  | nil => simp [nestingOfMembers]
  | cons m rest ih =>
    obtain ⟨name, v⟩ := m
    rw [nestingOfMembers, Nat.max_le, ih, List.forall_mem_cons]

/-- Texts are no containers. -/
lemma nestingOfItems_strings (ts : List Text) : nestingOfItems (ts.map .string) = 0 := by
  refine Nat.le_zero.mp (nestingOfItems_le_iff.mpr fun v hv => ?_)
  obtain ⟨t, -, rfl⟩ := List.mem_map.mp hv
  exact Nat.le_refl 0

namespace Value

/-- A plain value is written within a budget in which its containers fit. -/
theorem IsPlain.fault?_eq_none {v : Value} (h : v.IsPlain) {budget : Nat}
    (hfits : v.nesting ≤ budget) : v.fault? budget = none := by
  -- on how the value is plain; a container takes one from the budget
  induction h generalizing budget with
  | null => rfl
  | bool b => rfl
  | string t => rfl
  | list h ih =>
    rw [nesting] at hfits
    obtain ⟨inner, rfl⟩ := Nat.exists_eq_add_of_le' (Nat.le_of_add_left_le hfits)
    have hitems := nestingOfItems_le_iff.mp (Nat.le_of_succ_le_succ hfits)
    exact faultItems?_eq_none_iff.mpr fun v hv => ih v hv (hitems v hv)
  | object hnames h ih =>
    rw [nesting] at hfits
    obtain ⟨inner, rfl⟩ := Nat.exists_eq_add_of_le' (Nat.le_of_add_left_le hfits)
    have hmembers := nestingOfMembers_le_iff.mp (Nat.le_of_succ_le_succ hfits)
    exact faultMembers?_eq_none_iff.mpr fun m hm => ih m hm (hmembers m hm)

/-- What is no container is written within any budget if within one. -/
lemma fault?_of_scalar {v : Value} (hscalar : v.nesting = 0) {budget : Nat}
    (h : v.fault? budget = none) (budget' : Nat) : v.fault? budget' = none := by
  cases v with
  | list items => cases hscalar
  | object members => cases hscalar
  | unordered items => cases hscalar
  | int n => exact h
  | _ => rfl

end Value

end EditorDocs.Json
