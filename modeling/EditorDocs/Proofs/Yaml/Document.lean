import EditorDocs.Proofs.Yaml.Nodes

/-!
# Why a document says nothing

A scalar has a value or ends in a fault (`Yaml.ends_scalarValue`), a mapping is completed or has
something merged in that is none, and the collections are looked into by steps of these kinds.  So
reading a document as a whole gives what it says or ends in a fault (`Yaml.ends_ofSource`).
-/

namespace EditorDocs.Yaml

open Result (Ends Keeps)

/-! ## Scalars -/

lemma ends_integerIn (base : Nat) (t : Text) : Ends IsFault (fun _ => True) (integerIn base t) := by
  unfold integerIn
  simp only
  split
  · exact IsFault.value rfl
  · split
    · exact IsFault.value rfl
    · split
      · exact IsFault.value rfl
      · trivial

lemma ends_splitNumber (t : Text) : Ends IsFault (fun _ => True) (splitNumber t) :=
  Ends.ite (IsFault.slip .empty) trivial

lemma ends_integer (t : Text) : Ends IsFault (fun _ => True) (integer t) := by
  unfold integer
  refine (ends_splitNumber t).bind fun r _ => ?_
  obtain ⟨negative, size⟩ := r
  refine Ends.bind (q := fun _ => True) ?_ fun _ _ => trivial
  refine Ends.ite trivial <|
    Ends.ite (ends_integerIn 2 _) <|
    Ends.ite (ends_integerIn 16 _) <|
    Ends.ite (IsFault.slip .empty) <|
    Ends.ite (ends_integerIn 8 _) <|
    Ends.ite ?_ (ends_integerIn 10 _)
  exact (Ends.mapM fun part _ => ends_integerIn 10 part).bind fun _ _ => trivial

lemma ends_decimalNumber (t : Text) : Ends IsFault (fun _ => True) (decimalNumber t) := by
  unfold decimalNumber
  split
  · trivial
  · exact IsFault.value rfl

lemma ends_sixtiethsNumber (parts : List Binary64) :
    Ends IsFault (fun _ => True) (sixtiethsNumber parts) := by
  unfold sixtiethsNumber
  refine Ends.bind (Ends.foldlM parts (q := fun _ => True) trivial fun r d _ => ?_) fun _ _ => trivial
  exact Ends.ite trivial (IsFault.slip .place)

lemma ends_number (t : Text) : Ends IsFault (fun _ => True) (number t) := by
  unfold number
  refine (ends_splitNumber t.lower).bind fun r _ => ?_
  obtain ⟨negative, size⟩ := r
  refine Ends.bind (q := fun _ => True) ?_ fun _ _ => trivial
  refine Ends.ite trivial <| Ends.ite trivial <| Ends.ite ?_ (ends_decimalNumber _)
  exact (Ends.mapM fun part _ => ends_decimalNumber part).bind fun _ _ => ends_sixtiethsNumber _

lemma ends_truth (t : Text) : Ends IsFault (fun _ => True) (truth t) :=
  Ends.ite trivial (Ends.ite trivial (IsFault.slip (.word _)))

lemma ends_instant (t : Text) : Ends IsFault (fun _ => True) (instant t) := by
  unfold instant
  split
  · exact IsFault.slip .instant
  · split
    · exact IsFault.value rfl
    · trivial

lemma ends_bytes (t : Text) : Ends IsFault (fun _ => True) (bytes t) := by
  unfold bytes
  refine Ends.ite ends_malformed ?_
  split
  · trivial
  · exact ends_malformed

/-- A scalar has a value or ends in a fault. -/
lemma ends_scalarValue {tag : Tag} {t : Text} {x : Except Failure Config.Scalar}
    (h : scalarValue? tag t = some x) : Ends IsFault (fun _ => True) x := by
  cases tag <;> simp only [scalarValue?, Option.some.injEq, reduceCtorEq] at h <;> subst h
  case bool => exact (ends_truth t).map fun _ _ => trivial
  case int => exact (ends_integer t).map fun _ _ => trivial
  case float => exact (ends_number t).map fun _ _ => trivial
  case binary => exact (ends_bytes t).map fun _ _ => trivial
  case timestamp => exact ends_instant t
  all_goals trivial

/-! ## Nodes -/

/-- A node is taken for a text, or it is none, or it is within itself. -/
lemma ends_text (g : Graph) (id : NodeId) : Ends IsFault (fun _ => True) (g.text id) := by
  have hafter : ∀ rounds id, Ends IsFault (fun _ => True) (g.textAfter rounds id) := by
    intro rounds
    induction rounds with
    | zero => exact fun _ => IsFault.slip .depth
    | succ rounds ih =>
      intro id
      unfold Graph.textAfter
      split
      · trivial
      · split
        · exact ih _
        · exact IsFault.malformed rfl
      · exact IsFault.malformed rfl
  exact hafter _ id

/-- A mapping is completed, or something is merged in that is no mapping. -/
lemma ends_completeAfter (rounds : Nat) (id : NodeId) (g : Graph) :
    Ends IsFault (fun _ => True) (g.completeAfter rounds id) := by
  induction rounds generalizing id g with
  | zero => trivial
  | succ rounds ih =>
    unfold Graph.completeAfter
    split
    · trivial
    · extract_lets g' entriesOf rest
      have hentries : ∀ v g, Ends IsFault (fun _ => True) (entriesOf v g) := by
        intro v g
        simp only [entriesOf]
        split
        · exact (ih _ _).bind fun _ _ => trivial
        · exact IsFault.malformed rfl
      have hrest : ∀ r, Ends IsFault (fun _ => True) (rest r) :=
        fun r => (ih _ _).bind fun _ _ => trivial
      split
      · refine Ends.bind (q := fun _ => True) (Ends.foldlM _ trivial fun r item _ => ?_)
          fun r _ => hrest r
        exact (hentries item _).bind fun _ _ => trivial
      · exact (hentries _ _).bind fun r _ => hrest r

lemma ends_complete (id : NodeId) (g : Graph) :
    Ends IsFault (fun _ => True) (g.complete id) := by
  unfold Graph.complete
  split
  · trivial
  · exact ends_completeAfter _ _ _

/-! ## Values -/

namespace Reading

/-- The step ends in a fault if it ends early. -/
abbrev Sound {α : Type} (r : Reads α) : Prop := Keeps IsFault (fun _ => True) r

lemma ends_scalarOf (g : Graph) (id : NodeId) : Ends IsFault (fun _ => True) (scalarOf g id) := by
  unfold scalarOf
  extract_lets n
  clear_value n
  split
  · exact IsFault.malformed rfl
  · refine (ends_text g id).bind fun t _ => ?_
    extract_lets rest
    have hrest : Ends IsFault (fun _ => True) (rest ()) := by
      simp only [rest]
      split
      · rename_i hx
        exact ends_scalarValue hx
      · exact IsFault.malformed rfl
    split
    · exact hrest
    · exact Ends.ite (IsFault.slip .mapping) hrest

lemma sound_value (id : NodeId) : Sound (value id) := by
  intro r _
  unfold value
  split
  · trivial
  · refine Ends.ite trivial ?_
    exact (ends_scalarOf _ _).bind fun _ _ => trivial

lemma sound_key (id : NodeId) : Sound (key id) := by
  unfold key
  refine (sound_value id).bind fun v => ?_
  split
  · exact Keeps.pure _
  · exact Keeps.throw (.malformed rfl)

lemma sound_pair (id : NodeId) : Sound (pair id) := by
  unfold pair
  refine Keeps.get.bind fun r => ?_
  split
  · exact (sound_value _).bind fun _ => (sound_value _).bind fun _ => Keeps.pure _
  · exact Keeps.throw (.malformed rfl)

lemma sound_entries (id : NodeId) : Sound (entries id) := by
  unfold entries
  refine Keeps.get.bind fun r => ?_
  split
  · refine (Keeps.lift (ends_complete id _)).bind fun g => ?_
    refine Keeps.bind (Keeps.set trivial) fun _ => ?_
    refine (Keeps.mapM _ fun entry => ?_).bind fun _ => Keeps.pure _
    exact (sound_key _).bind fun _ => (sound_value _).bind fun _ => Keeps.pure _
  · exact Keeps.throw (.malformed rfl)

lemma sound_contents (id : NodeId) : Sound (contents id) := by
  unfold contents
  refine Keeps.get.bind fun r => ?_
  extract_lets n
  clear_value n
  split
  · exact (sound_entries id).bind fun _ => Keeps.pure _
  · exact (sound_entries id).bind fun _ => Keeps.pure _
  · split
    · refine Keeps.ite ?_ ?_
      · exact (Keeps.mapM _ sound_value).bind fun _ => Keeps.pure _
      · exact (Keeps.mapM _ sound_pair).bind fun _ => Keeps.pure _
    · exact Keeps.throw (.malformed rfl)

lemma sound_openAll (rounds : Nat) (waiting : List NodeId) : Sound (openAll rounds waiting) := by
  induction rounds generalizing waiting with
  | zero => exact Keeps.pure _
  | succ rounds ih =>
    cases waiting with
    | nil =>
      unfold openAll
      refine Keeps.get.bind fun r => ?_
      split
      · exact Keeps.pure _
      · exact Keeps.bind (Keeps.modify fun _ _ => trivial) fun _ => ih _
    | cons id waiting =>
      unfold openAll
      refine (sound_contents id).bind fun c => ?_
      exact Keeps.bind (Keeps.modify fun _ _ => trivial) fun _ => ih _

end Reading

/-- A document says something, or there is a fault. -/
lemma ends_ofSource (budget : Nat) (bytes : Bytes) :
    Ends IsFault (fun _ => True) (Document.ofSource budget (.ofBytes bytes)) := by
  unfold Document.ofSource
  refine (ends_graph budget bytes).bind fun r _ => ?_
  split
  · unfold Document.ofGraph
    extract_lets start
    refine Ends.bind (q := fun _ => True) ?_ fun _ _ => trivial
    refine ((Reading.sound_value _).bind fun v => ?_ : Reading.Sound _) _ trivial
    exact (Reading.sound_openAll _ _).bind fun _ => Keeps.pure _
  · trivial

end EditorDocs.Yaml
