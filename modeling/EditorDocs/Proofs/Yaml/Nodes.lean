import EditorDocs.Proofs.Yaml.Tokens

/-!
# Why the nodes of a document cannot be read

A reader of nodes carries the fault behind the tokens along, and ends in that fault or in one of its
own if it ends early (`Yaml.Reader.Sound`).  What holds of the reader of a part holds of the readers
of the collections, and by induction on the depth of the reader of a node (`Yaml.Reader.sound_node`).
So the nodes of a file are read or there is a fault (`Yaml.ends_graph`).
-/

namespace EditorDocs.Yaml

open Result (Ends Keeps)

/-- The fault behind the tokens, if there is one, is of its kind. -/
def Progress.Fair (s : Progress) : Prop := ∀ f, s.fault = some f → IsFault f

namespace Reader

/-- The reader ends in a fault if it ends early. -/
abbrev Sound {α : Type} (r : Reader α) : Prop := Keeps IsFault Progress.Fair r

lemma sound_refuse {α : Type} : Sound (refuse : Reader α) := Keeps.throw (.malformed rfl)

/-- At the end of the tokens stands the end of the text or a fault. -/
lemma sound_peek : Sound peek := by
  rintro ⟨tokens, fault, handles, anchors, graph⟩ hs
  cases tokens with
  | cons t rest => exact hs
  | nil =>
    cases fault with
    | none => exact hs
    | some f => exact hs f rfl

lemma sound_skip : Sound skip := Keeps.modify fun _ hs => hs

lemma sound_sees (p : Token → Bool) : Sound (sees p) := by
  unfold sees
  refine sound_peek.bind fun t => ?_
  cases t <;> exact Keeps.pure _

lemma sound_seesOneOf (ts : List Token) : Sound (seesOneOf ts) := sound_sees _

lemma sound_expect (t : Token) : Sound (expect t) :=
  (sound_seesOneOf [t]).bind fun _ => Keeps.ite sound_skip sound_refuse

lemma sound_tagName (handle : Option Text) (suffix : Text) : Sound (tagName handle suffix) := by
  unfold tagName
  cases handle with
  | none => exact Keeps.pure _
  | some h =>
    refine Keeps.get.bind fun s => ?_
    split
    · exact Keeps.pure _
    · exact sound_refuse

lemma sound_properties : Sound properties := by
  unfold properties
  refine sound_peek.bind fun t => ?_
  split
  · refine sound_skip.bind fun _ => sound_peek.bind fun t' => ?_
    split
    · exact sound_skip.bind fun _ => (sound_tagName _ _).bind fun _ => Keeps.pure _
    · exact Keeps.pure _
  · refine sound_skip.bind fun _ => sound_peek.bind fun t' => ?_
    split
    · exact sound_skip.bind fun _ => (sound_tagName _ _).bind fun _ => Keeps.pure _
    · exact (sound_tagName _ _).bind fun _ => Keeps.pure _
  · exact Keeps.pure _

lemma sound_add (n : Node) : Sound (add n) := Keeps.modifyGet fun _ hs => hs

lemma sound_named (name : Text) : Sound (named name) := by
  unfold named
  refine Keeps.get.bind fun s => ?_
  split
  · exact Keeps.pure _
  · exact sound_refuse

lemma sound_checkName (anchor : Option Text) : Sound (checkName anchor) := by
  unfold checkName
  split
  · exact Keeps.get.bind fun s => Keeps.ite sound_refuse (Keeps.pure _)
  · exact Keeps.pure _

lemma sound_giveName (anchor : Option Text) (id : NodeId) : Sound (giveName anchor id) := by
  unfold giveName
  split
  · exact Keeps.modify fun _ hs => hs
  · exact Keeps.pure _

lemma sound_scalar (anchor : Option Text) (tag : Tag) (text : Text) :
    Sound (scalar anchor tag text) :=
  (sound_add _).bind fun id => (sound_giveName anchor id).bind fun _ => Keeps.pure _

/-- A collection is read soundly if its parts are. -/
lemma sound_collection {α : Type} (anchor : Option Text) (make : α → Node) {parts : Reader α}
    (h : Sound parts) : Sound (collection anchor make parts) := by
  unfold collection
  refine (sound_add _).bind fun id => (sound_giveName anchor id).bind fun _ => h.bind fun _ => ?_
  extract_lets n
  exact Keeps.bind (Keeps.modify fun _ hs => hs) fun _ => Keeps.pure _

/-! ### Collections -/

section

variable {entry : Place → Reader NodeId} (h : ∀ place, Sound (entry place))
include h

omit h in
/-- A node that may be missing is read soundly if a node is. -/
lemma sound_unlessBefore (stops : List Token) {r : Reader NodeId} (hr : Sound r) :
    Sound (unlessBefore stops r) :=
  (sound_seesOneOf stops).bind fun _ => Keeps.ite (sound_add _) hr

lemma sound_blockItems (stops : List Token) (rounds : Nat) :
    Sound (blockItems entry stops rounds) := by
  induction rounds with
  | zero => exact sound_refuse
  | succ rounds ih =>
    unfold blockItems
    refine (sound_seesOneOf _).bind fun _ => Keeps.ite ?_ (Keeps.pure _)
    refine sound_skip.bind fun _ => (sound_unlessBefore stops (h .block)).bind fun n => ?_
    exact ih.bind fun _ => Keeps.pure _

lemma sound_mappedValue (stops : List Token) (place : Place) :
    Sound (mappedValue entry stops place) :=
  (sound_seesOneOf _).bind fun _ => Keeps.ite
    (sound_skip.bind fun _ => sound_unlessBefore stops (h place)) (sound_add _)

lemma sound_blockEntries (rounds : Nat) : Sound (blockEntries entry rounds) := by
  induction rounds with
  | zero => exact sound_refuse
  | succ rounds ih =>
    unfold blockEntries
    refine (sound_seesOneOf _).bind fun _ => Keeps.ite ?_ (Keeps.pure _)
    refine sound_skip.bind fun _ => (sound_unlessBefore _ (h _)).bind fun k => ?_
    exact (sound_mappedValue h _ _).bind fun v => ih.bind fun _ => Keeps.pure _

lemma sound_flowItem : Sound (flowItem entry) := by
  unfold flowItem
  refine (sound_seesOneOf _).bind fun _ => Keeps.ite (sound_collection _ _ ?_) (h _)
  refine sound_skip.bind fun _ => (sound_unlessBefore _ (h _)).bind fun k => ?_
  exact (sound_mappedValue h _ _).bind fun v => Keeps.pure _

omit h in
/-- The comma in front of an entry that is not the first one. -/
lemma sound_comma {α : Type} (isFirst : Bool) {r : Reader α} (hr : Sound r) :
    Sound (do
      if !isFirst then expect .flowEntry
      r) := by
  split
  · exact (sound_expect _).bind fun _ => hr
  · exact (Keeps.pure ()).bind fun _ => hr

lemma sound_flowItems (isFirst : Bool) (rounds : Nat) :
    Sound (flowItems entry isFirst rounds) := by
  induction rounds generalizing isFirst with
  | zero => exact sound_refuse
  | succ rounds ih =>
    have hclosed : Sound (do skip; pure ([] : List NodeId)) := sound_skip.bind fun _ => Keeps.pure _
    unfold flowItems
    refine (sound_seesOneOf _).bind fun _ => Keeps.ite hclosed (sound_comma isFirst ?_)
    refine (sound_seesOneOf _).bind fun _ => Keeps.ite hclosed ?_
    exact (sound_flowItem h).bind fun n => (ih false).bind fun _ => Keeps.pure _

lemma sound_flowEntries (isFirst : Bool) (rounds : Nat) :
    Sound (flowEntries entry isFirst rounds) := by
  induction rounds generalizing isFirst with
  | zero => exact sound_refuse
  | succ rounds ih =>
    have hclosed : Sound (do skip; pure ([] : List (NodeId × NodeId))) :=
      sound_skip.bind fun _ => Keeps.pure _
    unfold flowEntries
    refine (sound_seesOneOf _).bind fun _ => Keeps.ite hclosed (sound_comma isFirst ?_)
    refine (sound_seesOneOf _).bind fun _ => Keeps.ite hclosed ?_
    refine (sound_seesOneOf _).bind fun _ => Keeps.ite ?_ ?_
    · refine sound_skip.bind fun _ => (sound_unlessBefore _ (h _)).bind fun k => ?_
      exact (sound_mappedValue h _ _).bind fun v => (ih false).bind fun _ => Keeps.pure _
    · exact (h _).bind fun k => (sound_add _).bind fun v => (ih false).bind fun _ => Keeps.pure _

omit h in
lemma sound_blank (anchor tag : Option Text) : Sound (content.blank anchor tag) :=
  Keeps.ite (sound_scalar _ _ _) sound_refuse

lemma sound_content (place : Place) (anchor tag : Option Text) :
    Sound (content entry place anchor tag) := by
  have hblank := sound_blank anchor tag
  unfold content
  refine Keeps.get.bind fun s => sound_peek.bind fun t => ?_
  split
  · exact sound_skip.bind fun _ => sound_scalar _ _ _
  · exact sound_skip.bind fun _ => sound_collection _ _ (sound_flowItems h true _)
  · exact sound_skip.bind fun _ => sound_collection _ _ (sound_flowEntries h true _)
  · refine Keeps.ite (sound_skip.bind fun _ => sound_collection _ _ ?_) hblank
    exact (sound_blockItems h _ _).bind fun _ => (sound_expect _).bind fun _ => Keeps.pure _
  · refine Keeps.ite (sound_skip.bind fun _ => sound_collection _ _ ?_) hblank
    exact (sound_blockEntries h _).bind fun _ => (sound_expect _).bind fun _ => Keeps.pure _
  · exact Keeps.ite (sound_collection _ _ (sound_blockItems h _ _)) hblank
  · exact hblank

end

/-- A node is read soundly, to whatever depth. -/
lemma sound_node (budget : Nat) (place : Place) : Sound (node budget place) := by
  induction budget generalizing place with
  | zero => exact Keeps.throw (.slip .depth)
  | succ budget ih =>
    unfold node
    refine sound_peek.bind fun t => ?_
    split
    · exact sound_skip.bind fun _ => sound_named _
    · refine sound_properties.bind fun _ => sound_peek.bind fun _ => ?_
      exact (sound_checkName _).bind fun _ => sound_content ih _ _ _

/-! ### Documents -/

lemma sound_directives (hasVersion : Bool) (rounds : Nat) :
    Sound (directives hasVersion rounds) := by
  induction rounds generalizing hasVersion with
  | zero => exact sound_refuse
  | succ rounds ih =>
    unfold directives
    refine sound_peek.bind fun t => ?_
    split
    · refine sound_skip.bind fun _ => ?_
      split
      · exact Keeps.ite sound_refuse (ih _)
      · refine Keeps.get.bind fun s => Keeps.ite sound_refuse ?_
        exact Keeps.bind (Keeps.modify fun _ hs => hs) fun _ => ih _
      · exact ih _
    · exact Keeps.pure _

lemma sound_markedDocument (budget : Nat) : Sound (markedDocument budget) := by
  unfold markedDocument
  refine Keeps.get.bind fun s => (sound_directives _ _).bind fun _ => ?_
  refine (sound_expect _).bind fun _ => Keeps.bind (Keeps.modify fun _ hs => hs) fun _ => ?_
  refine sound_peek.bind fun t => ?_
  split
  · exact sound_add _
  · exact sound_add _
  · exact sound_add _
  · exact Keeps.ite (sound_add _) (sound_node _ _)

lemma sound_ending (rounds : Nat) : Sound (ending rounds) := by
  induction rounds with
  | zero => exact sound_refuse
  | succ rounds ih =>
    unfold ending
    refine sound_peek.bind fun t => ?_
    split
    · exact Keeps.pure _
    · exact sound_skip.bind fun _ => ih
    · refine Keeps.bind (Keeps.modify fun _ hs => hs) fun _ => Keeps.get.bind fun s => ?_
      exact (sound_directives _ _).bind fun _ => sound_refuse

/-- A document is read soundly. -/
lemma sound_document (budget : Nat) : Sound (document budget) := by
  unfold document
  refine sound_peek.bind fun t => ?_
  split
  · exact Keeps.pure _
  · extract_lets rest
    have hrest : ∀ n, Sound (rest n) := fun n =>
      Keeps.get.bind fun s => (sound_ending _).bind fun _ => Keeps.pure _
    refine Keeps.ite ((sound_markedDocument budget).bind hrest) ?_
    exact Keeps.bind (Keeps.modify fun _ hs => hs) fun _ => (sound_node _ _).bind hrest

end Reader

/-- The nodes of a file are read, or there is a fault. -/
lemma ends_graph (budget : Nat) (bytes : Bytes) :
    Ends IsFault (fun _ => True) (Graph.ofSource budget (.ofBytes bytes)) := by
  unfold Graph.ofSource
  refine Ends.bind (Reader.sound_document budget _ ?_) fun _ _ => trivial
  exact isFault_tokens bytes

end EditorDocs.Yaml
