import EditorDocs.Log.Journal
import EditorDocs.Proofs.Json.Line
import EditorDocs.Proofs.Table
import Mathlib.Tactic.Lemma

/-!
# What comes back from a record

Not every record can be rendered.  What comes back then to where it was made is of three kinds only
(`Log.IsRefusal`), and beside a file it is the want of stack alone
(`Log.Pipeline.failure_fate_filed`): whatever else goes wrong there is shown on the console.
-/

namespace EditorDocs.Log

open Json (Value)

/-! ## Refusals -/

/-- The failures that come back from records. -/
inductive IsRefusal : Failure → Prop
  /-- The stack does not suffice for a value. -/
  | tooDeep : IsRefusal .tooDeep
  /-- An integer has too many digits. -/
  | value (message : Text) : IsRefusal (.value message)
  /-- A stack or an exception is no text. -/
  | shapeless : IsRefusal .shapelessBlock

section Faults

variable {budget : Nat} {fields : Context} {f : Failure}

/-- The failure to render a value is one of them. -/
lemma isRefusal_of_valueFault {v : Value} (h : valueFault? budget v = some f) : IsRefusal f := by
  unfold valueFault? at h
  rcases hfault : v.fault? budget with _ | fault <;> rw [hfault] at h
  · cases h
  · cases fault with
    | tooDeep =>
      cases h
      exact .tooDeep
    | longInteger =>
      cases h
      exact .value _
    | noForm => cases h

/-- A value that can be written on a line is kept from being rendered by its depth alone. -/
lemma eq_tooDeep_of_valueFault {v : Value} {limit : Nat} (h : v.fault? limit = none)
    (hf : valueFault? budget v = some f) : f = .tooDeep := by
  unfold valueFault? at hf
  rcases hfault : v.fault? budget with _ | fault <;> rw [hfault] at hf
  · cases hf
  · cases Json.Value.fault?_eq_tooDeep h hfault
    cases hf
    rfl

/-- The failure to render fields for the console is one of them. -/
lemma isRefusal_of_consoleFault (h : consoleFault? budget fields = some f) : IsRefusal f := by
  unfold consoleFault? at h
  split at h
  · rename_i g hfound
    cases h
    obtain ⟨v, -, hv⟩ := List.exists_of_findSome?_eq_some hfound
    exact isRefusal_of_valueFault hv
  · split at h
    · cases h
    · cases h
      exact .shapeless

end Faults

/-! ## Fields that are rendered -/

/-- A value that is put in among others is there with them. -/
lemma insertByName_perm (m : Text × Value) (fields : Context) :
    (insertByName m fields).Perm (m :: fields) := by
  induction fields with
  | nil => exact List.Perm.refl _
  | cons n rest ih =>
    rw [insertByName]
    split
    · exact List.Perm.refl _
    · exact (ih.cons n).trans (List.Perm.swap m n rest)

/-- Sorting by name leaves the values the same. -/
lemma sortByName_perm (fields : Context) : (sortByName fields).Perm fields := by
  induction fields with
  | nil => exact List.Perm.refl _
  | cons m rest ih => exact (insertByName_perm m _).trans (ih.cons m)

/-- The console renders no other values than those of the fields. -/
lemma exists_of_mem_consoleValues {fields : Context} {v : Value} (h : v ∈ consoleValues fields) :
    ∃ m ∈ fields, m.2 = v := by
  rcases List.mem_append.mp h with hleading | hother
  · obtain ⟨c, -, hc⟩ := List.mem_filterMap.mp hleading
    exact ⟨(c.1, v), Table.mem_of_get? hc, rfl⟩
  · obtain ⟨m, hm, rfl⟩ := List.mem_map.mp hother
    exact ⟨m, (List.mem_filter.mp ((sortByName_perm _).subset hm)).1, rfl⟩

/-- Fields are rendered for the console if their values are, and a stack and an exception are texts. -/
lemma consoleFault?_eq_none_iff {budget : Nat} {fields : Context} :
    consoleFault? budget fields = none ↔
      (∀ v ∈ consoleValues fields, valueFault? budget v = none) ∧
        ∀ name ∈ blockNames, isBlock fields name = true := by
  rw [← List.findSome?_eq_none_iff, ← List.all_eq_true]
  unfold consoleFault?
  cases (consoleValues fields).findSome? (valueFault? budget) with
  | some f => simp
  | none => simp

/-- Texts are rendered for the console whatever the stack. -/
lemma consoleFault?_texts {fields : Context} (h : ∀ m ∈ fields, ∃ t, m.2 = .string t) (budget : Nat) :
    consoleFault? budget fields = none := by
  refine consoleFault?_eq_none_iff.mpr ⟨fun v hv => ?_, fun name _ => ?_⟩
  · obtain ⟨m, hm, rfl⟩ := exists_of_mem_consoleValues hv
    obtain ⟨t, ht⟩ := h m hm
    rw [ht]
    rfl
  · unfold isBlock
    rcases hget : fields.get? name with _ | v
    · rfl
    · obtain ⟨t, ht⟩ := h (name, v) (Table.mem_of_get? hget)
      cases ht
      rfl

/-- So they are in a line, as far as there is room for its braces. -/
lemma lineFault?_texts {fields : Context} (h : ∀ m ∈ fields, ∃ t, m.2 = .string t) {budget : Nat}
    (hroom : 0 < budget) : lineFault? budget fields = none := by
  obtain ⟨inner, rfl⟩ := Nat.exists_eq_add_of_le' hroom
  have hfault : (Value.object fields).fault? (inner + 1) = none := by
    refine Json.faultMembers?_eq_none_iff.mpr fun m hm => ?_
    obtain ⟨t, ht⟩ := h m hm
    rw [ht]
    rfl
  rw [lineFault?, valueFault?, hfault]

/-! ## What comes back from pipelines -/

namespace Pipeline

variable (p : Pipeline) (r : Rendering) (time : Text) (e : Emission)

/-- Without a file, what becomes of a record is up to the console alone. -/
lemma fate_alone {p : Pipeline} (h : p.file = none) : p.fate r time e = p.fateAlone r time e := by
  simp [fate, h]

/-- With a file, the console comes behind it, as far as no failure comes back from there. -/
lemma fate_filed {p : Pipeline} (h : p.file ≠ none) :
    p.fate r time e =
      if (p.fateFiled r time e).failure.isSome then p.fateFiled r time e
      else ⟨(p.fateFiled r time e).filed,
        (p.fateFiled r time e).shown ++ (p.fateShown r time e).shown,
        (p.fateShown r time e).failure⟩ := by
  unfold fate
  rw [if_neg (by simpa using h)]

/-- What comes back from the console beside a file is the want of stack. -/
lemma failure_fateShown : ∀ f ∈ (p.fateShown r time e).failure, f = .tooDeep := by
  intro f hf
  unfold fateShown at hf
  split at hf
  · split at hf <;> cases hf
    rfl
  · cases hf

/-- What comes back from the file is the want of stack. -/
lemma failure_fateFiled : ∀ f ∈ (p.fateFiled r time e).failure, f = .tooDeep := by
  intro f hf
  unfold fateFiled at hf
  split at hf
  · split at hf <;> cases hf
    rfl
  · cases hf

/-- With a file, what comes back from a record is the want of stack. -/
theorem failure_fate_filed {p : Pipeline} (h : p.file ≠ none) :
    ∀ f ∈ (p.fate r time e).failure, f = .tooDeep := by
  intro f hf
  rw [fate_filed r time e h] at hf
  split at hf
  · exact p.failure_fateFiled r time e f hf
  · exact p.failure_fateShown r time e f hf

/-- What comes back from a record is one of the three failures. -/
theorem isRefusal_fate : ∀ f ∈ (p.fate r time e).failure, IsRefusal f := by
  intro f hf
  by_cases hfile : p.file = none
  · rw [fate_alone r time e hfile] at hf
    unfold fateAlone at hf
    split at hf
    · cases hf
    · split at hf
      · cases hf
        rename_i hfault
        exact isRefusal_of_consoleFault hfault
      · cases hf
  · rw [failure_fate_filed r time e hfile f hf]
    exact .tooDeep

end Pipeline

end EditorDocs.Log
