import Mathlib.Tactic.Lemma

/-!
# Results that are taken apart

A computation that gives a result has given one at each of its stages.
-/

namespace EditorDocs.Result

variable {ε α β : Type}

/-- After a stage with a result the computation goes on with this. -/
lemma bind_of_ok {x : Except ε α} {a : α} (h : x = .ok a) (f : α → Except ε β) :
    (x >>= f) = f a := by
  rw [h]
  rfl

/-- A result of two stages is one of the second on a result of the first. -/
lemma of_bind {x : Except ε α} {f : α → Except ε β} {b : β} (h : (x >>= f) = .ok b) :
    ∃ a, x = .ok a ∧ f a = .ok b := by
  cases x with
  | error e => cases h
  | ok a => exact ⟨a, rfl, h⟩

/-- A result that was passed through a function is the image of one. -/
lemma of_map {x : Except ε α} {f : α → β} {b : β} (h : x.map f = .ok b) :
    ∃ a, x = .ok a ∧ f a = b := by
  cases x with
  | error e => cases h
  | ok a =>
    cases h
    exact ⟨a, rfl, rfl⟩

/-- What is left of a result when its failures are dropped was a result. -/
lemma of_toOption {x : Except ε α} {a : α} (h : x.toOption = some a) : x = .ok a := by
  cases x with
  | error e => cases h
  | ok b =>
    cases h
    rfl

/-! ## Both ways to end -/

/-- The computation gives a result of one kind or a failure of another. -/
def Ends (p : ε → Prop) (q : α → Prop) : Except ε α → Prop
  | .ok a => q a
  | .error e => p e

variable {p : ε → Prop} {q : α → Prop} {q' : β → Prop}

/-- A computation of two stages ends in its ways if each stage does. -/
lemma Ends.bind {x : Except ε α} {f : α → Except ε β} (h : Ends p q x)
    (hf : ∀ a, q a → Ends p q' (f a)) : Ends p q' (x >>= f) := by
  cases x with
  | error e => exact h
  | ok a => exact hf a h

/-- A result that is passed through a function is of the kind that this gives. -/
lemma Ends.map {x : Except ε α} {f : α → β} (h : Ends p q x) (hf : ∀ a, q a → q' (f a)) :
    Ends p q' (x.map f) := by
  cases x with
  | error e => exact h
  | ok a => exact hf a h

/-- A failure is of its kind. -/
lemma Ends.of_error {x : Except ε α} (h : Ends p q x) {e : ε} (hx : x = .error e) : p e := by
  rw [hx] at h
  exact h

/-- A computation by cases ends in its ways if it does in each case. -/
lemma Ends.ite {c : Prop} [Decidable c] {x y : Except ε α} (hx : Ends p q x) (hy : Ends p q y) :
    Ends p q (if c then x else y) := by
  split
  · exact hx
  · exact hy

/-- Items that are computed one after the other end in one of the ways of each of them. -/
lemma Ends.mapM {f : α → Except ε β} {items : List α} (hf : ∀ a ∈ items, Ends p q' (f a)) :
    Ends p (fun bs => ∀ b ∈ bs, q' b) (items.mapM f) := by
  induction items with
  | nil => exact List.forall_mem_nil _
  | cons a rest ih =>
    rw [List.mapM_cons]
    refine (hf a List.mem_cons_self).bind fun b hb => ?_
    refine (ih fun a ha => hf a (List.mem_cons_of_mem _ ha)).bind fun bs hbs => ?_
    exact List.forall_mem_cons.mpr ⟨hb, hbs⟩

/-- Items that are taken in one after the other end in one of the ways of each of them. -/
lemma Ends.foldlM {f : α → β → Except ε α} (items : List β) {a : α} (ha : q a)
    (hf : ∀ a b, q a → Ends p q (f a b)) : Ends p q (items.foldlM f a) := by
  induction items generalizing a with
  | nil => exact ha
  | cons b rest ih =>
    rw [List.foldlM_cons]
    exact (hf a b ha).bind fun a' ha' => ih ha'

/-! ## Steps on a state -/

/-- The step ends in a failure of one kind or leads from states of another kind to such states. -/
def Keeps {σ : Type} (p : ε → Prop) (I : σ → Prop) (m : StateT σ (Except ε) α) : Prop :=
  ∀ s, I s → Ends p (fun r => I r.2) (m s)

section

variable {σ : Type} {I : σ → Prop}

/-- A step that does nothing keeps every kind of state. -/
lemma Keeps.pure (a : α) : Keeps p I (Pure.pure a : StateT σ (Except ε) α) := fun _ hs => hs

/-- Two steps keep what each of them keeps. -/
lemma Keeps.bind {m : StateT σ (Except ε) α} {f : α → StateT σ (Except ε) β} (h : Keeps p I m)
    (hf : ∀ a, Keeps p I (f a)) : Keeps p I (m >>= f) := fun s hs =>
  Ends.bind (h s hs) fun r hr => hf r.1 r.2 hr

/-- A step that fails in its way keeps every kind of state. -/
lemma Keeps.throw {e : ε} (h : p e) : Keeps p I (throw e : StateT σ (Except ε) α) := fun _ _ => h

/-- Looking at the state keeps it. -/
lemma Keeps.get : Keeps p I (MonadState.get : StateT σ (Except ε) σ) := fun _ hs => hs

/-- A change of the state keeps a kind that it does not lead out of. -/
lemma Keeps.modifyGet {f : σ → α × σ} (h : ∀ s, I s → I (f s).2) :
    Keeps p I (MonadStateOf.modifyGet f : StateT σ (Except ε) α) := h

/-- A change of the state keeps a kind that it does not lead out of. -/
lemma Keeps.modify {f : σ → σ} (h : ∀ s, I s → I (f s)) :
    Keeps p I (modify f : StateT σ (Except ε) PUnit) := h

/-- A new state of the kind is of the kind. -/
lemma Keeps.set {s : σ} (h : I s) : Keeps p I (set s : StateT σ (Except ε) PUnit) := fun _ _ => h

/-- What has nothing to do with the state keeps every kind of state. -/
lemma Keeps.lift {x : Except ε α} (h : Ends p (fun _ => True) x) :
    Keeps p I (liftM x : StateT σ (Except ε) α) := fun _ hs => h.bind fun _ _ => hs

/-- A step by cases keeps what it keeps in each case. -/
lemma Keeps.ite {c : Prop} [Decidable c] {m m' : StateT σ (Except ε) α} (h : Keeps p I m)
    (h' : Keeps p I m') : Keeps p I (if c then m else m') := by
  split
  · exact h
  · exact h'

/-- Steps for the items of a list keep what each of them keeps. -/
lemma Keeps.mapM {f : α → StateT σ (Except ε) β} (items : List α) (hf : ∀ a, Keeps p I (f a)) :
    Keeps p I (items.mapM f) := by
  induction items with
  | nil => exact Keeps.pure _
  | cons a rest ih =>
    rw [List.mapM_cons]
    exact (hf a).bind fun b => ih.bind fun bs => Keeps.pure _

end

end EditorDocs.Result
