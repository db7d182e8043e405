import EditorDocs.Config.Problem
import Mathlib.Tactic.Lemma

/-!
# Checked values and their problems

A checked value is known by its problems and, if there are none, by the value.  Both pass through
every way in which checked values are put together: the problems of the whole are those of its parts
one after the other (`Checked.problems_seq`), and there is a value if all parts have one
(`Checked.value?_seq`).  A check is sound if it never finds fault without a problem
(`Checked.IsSound`); then what has no problems is a value (`Checked.IsSound.exists_value`).
-/

namespace EditorDocs.Config.Checked

variable {α β : Type}

/-- The value, if there are no problems. -/
def value? : Checked α → Option α
  | .valid a => some a
  | .invalid _ => none

/-- A checked value is valid if it has a value. -/
lemma value?_eq_some {c : Checked α} {a : α} : c.value? = some a ↔ c = .valid a := by
  cases c <;> simp [value?]

/-! ## Problems -/

/-- A valid value has no problems. -/
@[simp]
lemma problems_valid (a : α) : (valid a).problems = [] := rfl

/-- A value without a check has no problems. -/
@[simp]
lemma problems_pure (a : α) : (pure a : Checked α).problems = [] := rfl

/-- A function does not change the problems. -/
@[simp]
lemma problems_map (f : α → β) (c : Checked α) : (f <$> c).problems = c.problems := by
  cases c <;> rfl

/-- The problems of a function come before those of what it is applied to. -/
@[simp]
lemma problems_seq (f : Checked (α → β)) (c : Checked α) :
    (f <*> c).problems = f.problems ++ c.problems := by
  cases f <;> cases c <;> rfl

/-- Further problems come behind. -/
@[simp]
lemma problems_also (c : Checked α) (further : List Problem) :
    (c.also further).problems = c.problems ++ further := by
  cases further with
  | nil => simp [also]
  | cons p rest => rfl

/-- The problems are all seen from one step further out. -/
@[simp]
lemma problems_within (step : Step) (c : Checked α) :
    (c.within step).problems = c.problems.map (Problem.within step) := by
  cases c <;> rfl

/-! ## Values -/

/-- A function of a value. -/
@[simp]
lemma value?_map (f : α → β) (c : Checked α) : (f <$> c).value? = c.value?.map f := by
  cases c <;> rfl

/-- A checked function has a value where both it and what it is applied to have one. -/
@[simp]
lemma value?_seq (f : Checked (α → β)) (c : Checked α) :
    (f <*> c).value? = f.value?.bind fun g => c.value?.map g := by
  cases f <;> cases c <;> rfl

/-- There is a value only if there are no further problems. -/
@[simp]
lemma value?_also (c : Checked α) (further : List Problem) :
    (c.also further).value? = if further = [] then c.value? else none := by
  cases further with
  | nil => rw [also, if_pos rfl]
  | cons p rest => rw [if_neg (List.cons_ne_nil p rest)]; rfl

/-- The place from which it is seen does not change a value. -/
@[simp]
lemma value?_within (step : Step) (c : Checked α) : (c.within step).value? = c.value? := by
  cases c <;> rfl

/-! ## Valid values -/

/-- A function of a value is valid if it has been applied to a valid value. -/
lemma map_eq_valid_iff {f : α → β} {c : Checked α} {b : β} :
    f <$> c = .valid b ↔ ∃ a, c = .valid a ∧ f a = b := by
  simp only [← value?_eq_some, value?_map, Option.map_eq_some_iff]

/-- What a function makes of a value is valid if both of them are. -/
lemma seq_eq_valid_iff {f : Checked (α → β)} {c : Checked α} {b : β} :
    f <*> c = .valid b ↔ ∃ g a, f = .valid g ∧ c = .valid a ∧ g a = b := by
  simp only [← value?_eq_some, value?_seq, Option.bind_eq_some_iff, Option.map_eq_some_iff]
  exact ⟨fun ⟨g, hg, a, ha, hb⟩ => ⟨g, a, hg, ha, hb⟩, fun ⟨g, a, hg, ha, hb⟩ => ⟨g, hg, a, ha, hb⟩⟩

/-- A value is as valid where it is seen from further out. -/
lemma within_eq_valid_iff {step : Step} {c : Checked α} {a : α} :
    c.within step = .valid a ↔ c = .valid a := by
  rw [← value?_eq_some, value?_within, value?_eq_some]

/-- A value that was found is valid. -/
lemma ofExcept_eq_valid_iff {x : Except Cause α} {a : α} : ofExcept x = .valid a ↔ x = .ok a := by
  cases x <;> simp [ofExcept]

/-! ## Soundness -/

/-- Where no value is found there is a problem. -/
def IsSound (c : Checked α) : Prop := c.problems = [] → c.value?.isSome

/-- A check without problems has found a value. -/
lemma IsSound.exists_value {c : Checked α} (h : c.IsSound) (hc : c.problems = []) :
    ∃ a, c = .valid a := by
  obtain ⟨a, ha⟩ := Option.isSome_iff_exists.mp (h hc)
  exact ⟨a, value?_eq_some.mp ha⟩

/-- A value without a check is sound. -/
lemma isSound_pure (a : α) : (pure a : Checked α).IsSound := fun _ => rfl

/-- A single problem at this place is a problem. -/
lemma isSound_ofExcept (x : Except Cause α) : (ofExcept x).IsSound := by
  cases x with
  | ok a => exact fun _ => rfl
  | error cause => exact fun h => by cases h

/-- A function of a sound check is sound. -/
lemma IsSound.map {c : Checked α} (h : c.IsSound) (f : α → β) : (f <$> c).IsSound := by
  intro hc
  rw [problems_map] at hc
  rw [value?_map, Option.isSome_map]
  exact h hc

/-- A sound check of a function and one of what it is applied to are sound together. -/
lemma IsSound.seq {f : Checked (α → β)} {c : Checked α} (hf : f.IsSound) (hc : c.IsSound) :
    (f <*> c).IsSound := by
  intro h
  rw [problems_seq, List.append_eq_nil_iff] at h
  obtain ⟨g, rfl⟩ := hf.exists_value h.1
  obtain ⟨a, rfl⟩ := hc.exists_value h.2
  rfl

/-- Further problems leave a check sound. -/
lemma IsSound.also {c : Checked α} (h : c.IsSound) (further : List Problem) :
    (c.also further).IsSound := by
  intro hc
  rw [problems_also, List.append_eq_nil_iff] at hc
  rw [value?_also, if_pos hc.2]
  exact h hc.1

/-- A check seen from further out is as sound. -/
lemma IsSound.within {c : Checked α} (h : c.IsSound) (step : Step) : (c.within step).IsSound := by
  intro hc
  rw [problems_within, List.map_eq_nil_iff] at hc
  rw [value?_within]
  exact h hc

end EditorDocs.Config.Checked
