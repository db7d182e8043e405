import EditorDocs.Proofs.Result
import EditorDocs.Yaml.Document

/-!
# Why a document cannot be read

Reading a document ends in a result or in a failure of a few kinds only (`Yaml.IsFault`): the text is
not well formed, or a value in it is not what it should be, which a user is told; or else it is one of
the seven kinds of `Yaml.Slips`, which come from single scalars or from the depth of the document and
are not told.

Every stage is a chain of small steps, and what holds of the steps holds of the chain.  The invariant
of a scanner is that the fault that waits behind the text is of such a kind (`Cursor.Fair`), and that of
the reader of nodes is the same of the fault behind the tokens (`Progress.Fair`).
-/

namespace EditorDocs.Yaml

open Result (Ends)

/-! ## Kinds of failures -/

/-- The failures in which reading a document can end and which say neither that it is not well formed
nor that a value is not what it should be. -/
inductive Slips : Failure → Prop where
  /-- A word stands for no truth value. -/
  | word (t : Text) : Slips (.unknownWord t)
  /-- A number has no characters. -/
  | empty : Slips .emptyNumber
  /-- A point in time does not have the form of one. -/
  | instant : Slips .unreadableInstant
  /-- An escape numbers a character that is out of all range. -/
  | character : Slips .characterNumber
  /-- A number in base sixty has more places than a floating point number reaches. -/
  | place : Slips .hugeNumber
  /-- A point in time is written as a mapping. -/
  | mapping : Slips .instantOfMapping
  /-- Nodes are nested too deeply, or a node is within itself where a text is wanted. -/
  | depth : Slips .tooDeep

/-- The failures in which reading a document can end. -/
inductive IsFault (f : Failure) : Prop where
  /-- The document is not well formed. -/
  | malformed (h : f = .malformedConfiguration)
  /-- A value is not what it should be, or the bytes are no text. -/
  | value (h : f.isValue = true)
  /-- It is one of the others. -/
  | slip (h : Slips f)

/-- A document that is not well formed ends in a fault. -/
lemma ends_malformed {α : Type} {q : α → Prop} : Ends IsFault q (malformed : Except Failure α) :=
  .malformed rfl

/-! ## Positions -/

namespace Cursor

variable {c : Cursor}

/-- The fault behind the text, if there is one, is of its kind. -/
def Fair (c : Cursor) : Prop := ∀ f, c.fault = some f → IsFault f

lemma Fair.next (h : c.Fair) : c.next.Fair := by
  unfold Cursor.next
  split
  · exact h
  · simp only
    split <;> exact h

lemma Fair.advance (h : c.Fair) (n : Nat) : (c.advance n).Fair := by
  induction n generalizing c with
  | zero => exact h
  | succ n ih => exact ih h.next

lemma Fair.span (h : c.Fair) (p : CodePoint → Bool) : (c.span p).2.Fair := h.advance _

lemma Fair.skip (h : c.Fair) (p : CodePoint → Bool) : (c.skip p).Fair := h.span p

lemma Fair.skipLine (h : c.Fair) : c.skipLine.Fair := h.skip _

lemma Fair.lineBreak (h : c.Fair) : c.lineBreak.2.Fair := by
  unfold Cursor.lineBreak
  split
  · split
    · exact h.advance 2
    · split
      · exact h.next
      · split
        · exact h.next
        · exact h
  · exact h

/-- The position behind a line break that was read is fair. -/
lemma Fair.of_lineBreak (h : c.Fair) {b : Text} {after : Cursor} (heq : c.lineBreak = (b, after)) :
    after.Fair := by
  have hafter := h.lineBreak
  rw [heq] at hafter
  exact hafter

/-- A document is refused in a fault. -/
lemma Fair.refuse {α : Type} {q : α → Prop} (h : c.Fair) :
    Ends IsFault q (c.refuse : Except Failure α) := by
  change IsFault c.refusal
  unfold refusal
  split
  · cases hfault : c.fault with
    | none => exact .malformed rfl
    | some f => exact h f hfault
  · exact .malformed rfl

/-- A fair position can be read, or there is the fault. -/
lemma Fair.readable (h : c.Fair) : Ends IsFault Fair c.readable := by
  unfold Cursor.readable
  split
  · rename_i f _ hfault
    exact h f hfault
  · exact h

end Cursor

open Cursor (Fair)

variable {c : Cursor}

/-- Something was read, and the position behind it is fair. -/
abbrev Ahead {α : Type} (r : α × Cursor) : Prop := r.2.Fair

/-! ## Quoted scalars -/

lemma ends_quotedEmptyLines (h : c.Fair) (breaks : Text) (rounds : Nat) :
    Ends IsFault Ahead (quotedEmptyLines breaks rounds c) := by
  induction rounds generalizing c breaks with
  | zero => exact h.refuse
  | succ rounds ih =>
    unfold quotedEmptyLines
    split
    · exact h.refuse
    · simp only
      split
      · exact h.skip isGap
      · rename_i hbreak
        exact ih ((h.skip isGap).of_lineBreak hbreak) _

lemma ends_numbered (n : Nat) : Ends IsFault (fun _ => True) (numbered n) := by
  unfold numbered
  split
  · trivial
  · split
    · exact IsFault.value rfl
    · exact IsFault.slip .character

lemma ends_escape (h : c.Fair) : Ends IsFault Ahead (escape c) := by
  unfold escape
  split
  · exact h.refuse
  · split
    · exact h.next
    · split
      · split
        · split
          · exact (ends_numbered _).bind fun _ _ => h.advance _
          · exact (h.advance _).refuse
        · exact ends_malformed
      · split
        · exact ends_quotedEmptyLines h.lineBreak _ _
        · exact h.refuse

lemma ends_quotedGap (h : c.Fair) : Ends IsFault Ahead (quotedGap c) := by
  unfold quotedGap
  have hafter := h.span isGap
  simp only
  split
  · exact hafter.refuse
  · split
    · exact hafter
    · rename_i hbreak
      exact (ends_quotedEmptyLines (hafter.of_lineBreak hbreak) _ _).bind fun _ hr => hr

lemma ends_quotedAfter (h : c.Fair) (double : Bool) (done : List Text) (rounds : Nat) :
    Ends IsFault Ahead (quotedAfter double done rounds c) := by
  induction rounds generalizing c done with
  | zero => exact h.refuse
  | succ rounds ih =>
    unfold quotedAfter
    split
    · exact h.refuse
    · split
      · exact h.next
      · split
        · split
          · exact ih (h.advance 2) _
          · exact h.next
        · split
          · exact (ends_escape h.next).bind fun _ hr => ih hr _
          · split
            · exact (ends_quotedGap h).bind fun _ hr => ih hr _
            · exact ih h.next _

/-! ## Plain scalars -/

lemma fair_plainEmptyLines (h : c.Fair) (breaks : Text) (rounds : Nat) :
    (plainEmptyLines breaks rounds c).2.Fair := by
  induction rounds generalizing c breaks with
  | zero => exact h
  | succ rounds ih =>
    unfold plainEmptyLines
    split
    · exact h
    · simp only
      split
      · exact h.skip isSpace
      · rename_i hbreak
        exact ih ((h.skip isSpace).of_lineBreak hbreak) _

lemma fair_plainGap (h : c.Fair) : (plainGap c).after.Fair := by
  unfold plainGap
  have hafter := h.span isSpace
  simp only
  split
  · exact hafter
  · rename_i hbreak
    exact fair_plainEmptyLines (hafter.of_lineBreak hbreak) _ _

lemma fair_plainAfter (h : c.Fair) (inFlow : Bool) (indent : Int) (done : List Text) (gap : Text)
    (breaksLine : Bool) (rounds : Nat) :
    (plainAfter inFlow indent done gap breaksLine rounds c).after.Fair := by
  induction rounds generalizing c done gap breaksLine with
  | zero => exact h
  | succ rounds ih =>
    have hnext := fair_plainGap (h.advance (plainRun inFlow c.rest))
    unfold plainAfter
    simp only
    split
    · exact h
    · split
      · exact h
      · split
        · exact hnext
        · split
          · exact hnext
          · exact ih hnext _ _ _

/-! ## Block scalars -/

lemma fair_blockHeader (h : c.Fair) : (blockHeader c).2.2.Fair := by
  unfold blockHeader
  split
  · split
    · exact h.advance 2
    · exact h.next
  · split
    · split
      · exact h.advance 2
      · exact h.next
    · exact h

lemma ends_idleLine (h : c.Fair) : Ends IsFault Fair (idleLine c) := by
  have hskipped : (if (c.skip isSpace).sees (· = ('#' : CodePoint)) then (c.skip isSpace).skipLine
      else c.skip isSpace).Fair := by
    split
    · exact (h.skip isSpace).skipLine
    · exact h.skip isSpace
  unfold idleLine
  simp only
  generalize (if (c.skip isSpace).sees (· = ('#' : CodePoint)) then (c.skip isSpace).skipLine
    else c.skip isSpace) = c' at hskipped
  split
  · exact hskipped.lineBreak
  · exact hskipped.refuse

lemma fair_leadingLines (h : c.Fair) (breaks : Text) (widest rounds : Nat) :
    (leadingLines breaks widest rounds c).2.2.Fair := by
  induction rounds generalizing c breaks widest with
  | zero => exact h
  | succ rounds ih =>
    unfold leadingLines
    split
    · exact h
    · split
      · exact ih h.next _ _
      · split
        · exact h
        · rename_i hbreak
          exact ih (h.of_lineBreak hbreak) _ _

lemma fair_blockEmptyLines (h : c.Fair) (indent : Nat) (breaks : Text) (rounds : Nat) :
    (blockEmptyLines indent breaks rounds c).2.Fair := by
  induction rounds generalizing c breaks with
  | zero => exact h
  | succ rounds ih =>
    have hskipped : (skipIndent indent c).Fair := h.advance _
    unfold blockEmptyLines
    simp only
    split
    · exact hskipped
    · rename_i hbreak
      exact ih (hskipped.of_lineBreak hbreak) _

lemma fair_blockLines (h : c.Fair) (folded : Bool) (indent : Nat) (chomping : Chomping)
    (done : List Text) (lineBreak breaks : Text) (rounds : Nat) :
    (blockLines folded indent chomping done lineBreak breaks rounds c).2.Fair := by
  induction rounds generalizing c done lineBreak breaks with
  | zero => exact h
  | succ rounds ih =>
    have hafter := fair_blockEmptyLines (h.span fun x => !isBreak x).lineBreak indent []
      (c.rest.length + 1)
    unfold blockLines
    simp only
    split
    · split
      · exact ih hafter _ _ _
      · exact hafter
    · exact h

lemma ends_blockScalar (h : c.Fair) (folded : Bool) (outer : Int) :
    Ends IsFault Ahead (blockScalar folded outer c) := by
  have hheader := fair_blockHeader h.next
  unfold blockScalar
  rcases hread : blockHeader c.next with ⟨chomping, increment, c'⟩
  rw [hread] at hheader
  simp only
  split
  · exact hheader.refuse
  · refine (ends_idleLine hheader).bind fun c'' hc'' => ?_
    refine fair_blockLines ?_ _ _ _ _ _ _ _
    cases increment with
    | none => exact fair_leadingLines hc'' _ _ _
    | some n => exact fair_blockEmptyLines hc'' _ _ _

/-! ## Names -/

lemma ends_escapedBytes (h : c.Fair) (done : Bytes) (rounds : Nat) :
    Ends IsFault Ahead (escapedBytes done rounds c) := by
  induction rounds generalizing c done with
  | zero => exact h.refuse
  | succ rounds ih =>
    unfold escapedBytes
    split
    · split
      · split
        · split
          · exact ih (h.advance 3) _
          · exact h.refuse
        · exact (h.advance _).refuse
      · exact h
    · exact h

lemma ends_tagTextAfter (h : c.Fair) (done : List Text) (rounds : Nat) :
    Ends IsFault Ahead (tagTextAfter done rounds c) := by
  induction rounds generalizing c done with
  | zero => exact h.refuse
  | succ rounds ih =>
    unfold tagTextAfter
    split
    · split
      · refine (ends_escapedBytes h _ _).bind fun r hr => ?_
        obtain ⟨bytes, c'⟩ := r
        simp only
        split
        · exact ih hr _
        · exact ends_malformed
      · split
        · exact ih h.next _
        · exact h
    · exact h

lemma ends_tagText (h : c.Fair) : Ends IsFault Ahead (tagText c) := by
  unfold tagText
  split
  · exact ends_tagTextAfter h _ _
  · exact h.refuse

lemma ends_tagHandle (h : c.Fair) : Ends IsFault Ahead (tagHandle c) := by
  unfold tagHandle
  split
  · split
    · split
      · exact h.next
      · simp only
        split
        · exact (h.advance _).next
        · exact (h.advance _).refuse
    · exact h.refuse
  · exact h.refuse

lemma ends_tag (h : c.Fair) : Ends IsFault Ahead (tag c) := by
  unfold tag
  simp only
  refine Ends.bind (q := fun r => r.2.2.Fair) ?_ fun r hr => ?_
  · split
    · refine (ends_tagText h.next.next).bind fun r hr => ?_
      obtain ⟨suffix, after⟩ := r
      simp only
      split
      · exact hr.next
      · exact hr.refuse
    · split
      · exact h.next
      · split
        · exact (ends_tagHandle h).bind fun r hr => (ends_tagText hr).bind fun r' hr' => hr'
        · exact (ends_tagText h.next).bind fun r hr => hr
  · obtain ⟨handle, suffix, after⟩ := r
    simp only
    split
    · exact hr
    · exact hr.refuse

lemma ends_anchorName (h : c.Fair) : Ends IsFault Ahead (anchorName c) := by
  have hafter := h.next.span isNameChar
  unfold anchorName
  simp only
  split
  · exact hafter.refuse
  · exact hafter

lemma ends_versionNumber (h : c.Fair) : Ends IsFault Ahead (versionNumber c) := by
  have hafter := h.span CodePoint.isDigit
  unfold versionNumber
  simp only
  split
  · exact h.refuse
  · refine hafter.readable.bind fun c' hc' => ?_
    split
    · exact IsFault.value rfl
    · exact hc'

lemma ends_versionDirective (h : c.Fair) : Ends IsFault Ahead (versionDirective c) := by
  unfold versionDirective
  refine (ends_versionNumber (h.skip isSpace)).bind fun r hr => ?_
  obtain ⟨major, c'⟩ := r
  simp only
  split
  · refine (ends_versionNumber hr.next).bind fun r' hr' => ?_
    obtain ⟨minor, c''⟩ := r'
    simp only
    split
    · exact hr'
    · exact hr'.refuse
  · exact hr.refuse

lemma ends_handleDirective (h : c.Fair) : Ends IsFault Ahead (handleDirective c) := by
  unfold handleDirective
  refine (ends_tagHandle (h.skip isSpace)).bind fun r hr => ?_
  obtain ⟨name, c'⟩ := r
  simp only
  split
  · refine (ends_tagText (hr.skip isSpace)).bind fun r' hr' => ?_
    obtain ⟨expansion, c''⟩ := r'
    simp only
    split
    · exact hr'
    · exact hr'.refuse
  · exact hr.refuse

lemma ends_directive (h : c.Fair) : Ends IsFault Ahead (directive c) := by
  have hafter := h.next.span isNameChar
  unfold directive
  simp only
  split
  · exact hafter.refuse
  · refine Ends.bind (q := Ahead) ?_ fun r hr => (ends_idleLine hr).bind fun c' hc' => hc'
    split
    · exact ends_versionDirective hafter
    · split
      · exact ends_handleDirective hafter
      · exact hafter.skipLine

end EditorDocs.Yaml
