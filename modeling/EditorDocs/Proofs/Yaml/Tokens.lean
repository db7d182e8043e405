import EditorDocs.Proofs.Yaml.Faults

/-!
# Why the tokens of a document end

Each step of the lexer leads from a fair position to a fair position or ends in a fault
(`Yaml.Lexer.ends_fetch`).  So the tokens of a document end where the text ends or in a fault
(`Yaml.isFault_tokens`).
-/

namespace EditorDocs.Yaml

open Result (Ends)
open Cursor (Fair)

namespace Lexer

variable {l : Lexer}

/-- The lexer stands at a fair position. -/
def IsFair (l : Lexer) : Prop := l.cursor.Fair

/-- A candidate is refused or kept. -/
lemma ends_refresh (c : Cursor) (k : Option Candidate) :
    Ends IsFault (fun _ => True) (refresh c k) := by
  unfold refresh
  split
  · trivial
  · split
    · split
      · exact ends_malformed
      · trivial
    · trivial

lemma ends_dropStale (h : l.IsFair) : Ends IsFault IsFair l.dropStale := by
  unfold dropStale
  refine (ends_refresh _ _).bind fun candidate _ => ?_
  exact (Ends.mapM fun k _ => ends_refresh _ k).bind fun suspended _ => h

lemma ends_dropCandidate (h : l.IsFair) : Ends IsFault IsFair l.dropCandidate := by
  unfold dropCandidate
  split
  · split
    · exact ends_malformed
    · exact h
  · exact h

lemma ends_saveCandidate (h : l.IsFair) : Ends IsFault IsFair l.saveCandidate := by
  unfold saveCandidate
  split
  · exact (ends_dropCandidate h).bind fun l' hl' => hl'
  · exact h

/-- Blocks that are closed leave the lexer where it is. -/
lemma fair_closeBlocks (h : l.IsFair) (column : Int) : (l.closeBlocks column).IsFair := by
  have hgo : ∀ (outer : List Int) (l : Lexer), l.IsFair → (closeBlocks.go column outer l).IsFair := by
    intro outer
    induction outer with
    | nil =>
      intro l hl
      unfold closeBlocks.go
      split <;> exact hl
    | cons i rest ih =>
      intro l hl
      unfold closeBlocks.go
      split
      · exact ih _ hl
      · exact hl
  unfold closeBlocks
  split
  · exact h
  · exact hgo l.outer l h

/-- A block that is opened leaves the lexer where it is. -/
lemma fair_openBlock (h : l.IsFair) (column : Nat) : (l.openBlock column).2.IsFair := by
  unfold openBlock
  split <;> exact h

lemma ends_startBlock (h : l.IsFair) (start : Token) : Ends IsFault IsFair (l.startBlock start) := by
  have hopened := fair_openBlock h l.cursor.column
  unfold startBlock
  split
  · exact h
  · split
    · exact ends_malformed
    · split
      · rename_i hopen
        rw [hopen] at hopened
        exact hopened
      · rename_i hopen
        rw [hopen] at hopened
        exact hopened

lemma ends_closeDocument (h : l.IsFair) : Ends IsFault IsFair l.closeDocument :=
  (ends_dropCandidate (fair_closeBlocks h _)).bind fun _ hl => hl

lemma ends_division (h : l.IsFair) (t : Token) : Ends IsFault IsFair (l.division t) :=
  (ends_closeDocument h).bind fun _ hl => Fair.advance hl 3

lemma ends_openFlow (h : l.IsFair) (t : Token) : Ends IsFault IsFair (l.openFlow t) :=
  (ends_saveCandidate h).bind fun _ hl => Fair.next hl

lemma ends_closeFlow (h : l.IsFair) (t : Token) : Ends IsFault IsFair (l.closeFlow t) := by
  unfold closeFlow
  refine (ends_dropCandidate h).bind fun l' hl' => ?_
  split
  · exact ends_malformed
  · exact Fair.next hl'

lemma ends_flowEntry (h : l.IsFair) : Ends IsFault IsFair l.flowEntry := by
  unfold flowEntry
  refine Ends.bind (ends_dropCandidate h) fun l' hl' => ?_
  exact Fair.next hl'

lemma ends_blockEntry (h : l.IsFair) : Ends IsFault IsFair l.blockEntry := by
  unfold blockEntry
  refine (ends_startBlock h _).bind fun l' hl' => ?_
  refine Ends.bind (ends_dropCandidate hl') fun l'' hl'' => ?_
  exact Fair.next hl''

lemma ends_explicitKey (h : l.IsFair) : Ends IsFault IsFair l.explicitKey := by
  unfold explicitKey
  refine (ends_startBlock h _).bind fun l' hl' => ?_
  refine Ends.bind (ends_dropCandidate hl') fun l'' hl'' => ?_
  exact Fair.next hl''

/-- A token that was put in between leaves the lexer where it is. -/
lemma fair_insert (h : l.IsFair) (position : Nat) (t : Token) : (l.insert position t).IsFair := h

lemma ends_value (h : l.IsFair) : Ends IsFault IsFair l.value := by
  unfold value
  split
  · rename_i k _
    have hinserted := fair_insert (l := { l with candidate := none, keyAllowed := false }) h
      k.position .key
    generalize { l with candidate := none, keyAllowed := false }.insert k.position .key = l'
      at hinserted
    have hopened := fair_openBlock hinserted k.column
    refine Fair.next ?_
    split
    · exact hinserted
    · rcases hopen : l'.openBlock k.column with ⟨_ | _, l''⟩
      · rw [hopen] at hopened
        exact hopened
      · rw [hopen] at hopened
        exact fair_insert hopened _ _
  · refine (ends_startBlock h _).bind fun l' hl' => ?_
    exact Fair.next hl'

lemma ends_word {read : Lexer → Except Failure (Token × Cursor)}
    (hread : ∀ l : Lexer, l.IsFair → Ends IsFault Ahead (read l)) (h : l.IsFair) :
    Ends IsFault IsFair (l.word read) :=
  (ends_saveCandidate h).bind fun _ hl => (hread _ hl).bind fun _ hr => hr

lemma ends_plain (h : l.IsFair) : Ends IsFault IsFair l.plain := by
  unfold plain
  refine (ends_saveCandidate h).bind fun l' hl' => ?_
  have hafter := fair_plainAfter hl' l'.inFlow (l'.indent + 1) [] [] false (l'.cursor.rest.length + 1)
  simp only
  split
  · exact (Fair.readable (Fair.next hafter)).bind fun _ _ => hafter
  · exact hafter

lemma ends_block (h : l.IsFair) (folded : Bool) : Ends IsFault IsFair (l.block folded) := by
  unfold block
  refine Ends.bind (ends_dropCandidate h) fun l' hl' => ?_
  exact (ends_blockScalar hl' _ _).bind fun _ hr => hr

/-- Skipping to the next token keeps to the text. -/
lemma fair_skipToToken (h : l.IsFair) : l.skipToToken.IsFair := by
  have hgo : ∀ (rounds : Nat) (l : Lexer), l.IsFair → (skipToToken.go rounds l).IsFair := by
    intro rounds
    induction rounds with
    | zero => exact fun l hl => hl
    | succ rounds ih =>
      intro l hl
      have hskipped : (if (l.cursor.skip isSpace).sees (· = ('#' : CodePoint)) then
          (l.cursor.skip isSpace).skipLine else l.cursor.skip isSpace).Fair := by
        split
        · exact (Fair.skip hl isSpace).skipLine
        · exact Fair.skip hl isSpace
      unfold skipToToken.go
      simp only
      generalize (if (l.cursor.skip isSpace).sees (· = ('#' : CodePoint)) then
          (l.cursor.skip isSpace).skipLine else l.cursor.skip isSpace) = c at hskipped
      split
      · exact hskipped
      · rename_i hbreak
        exact ih _ (hskipped.of_lineBreak hbreak)
  unfold skipToToken
  refine hgo _ _ ?_
  split
  · exact Fair.next h
  · exact h

/-- A token leads to a fair position, whatever its first character is. -/
lemma ends_token (h : l.IsFair) (x : CodePoint) : Ends IsFault IsFair (l.token x) := by
  have hdirective : Ends IsFault IsFair (l.closeDocument >>= fun l =>
      directive l.cursor >>= fun r => pure (l.emit r.1 r.2)) := by
    refine Ends.bind (ends_closeDocument h) fun l' hl' => ?_
    exact (ends_directive hl').bind fun _ hr => hr
  have hname : ∀ make : Text → Token, ∀ l : Lexer, l.IsFair →
      Ends IsFault Ahead (anchorName l.cursor >>= fun r => pure (make r.1, r.2)) :=
    fun make l hl => (ends_anchorName hl).bind fun _ hr => hr
  have hquoted : ∀ double : Bool, ∀ l : Lexer, l.IsFair →
      Ends IsFault Ahead (quotedScalar double l.cursor >>= fun r =>
        pure (Token.scalar r.1 false, r.2)) :=
    fun double l hl => (ends_quotedAfter (Fair.next hl) double [] _).bind fun _ hr => hr
  unfold token
  extract_lets c jp
  -- one line for every first character of a token, in the order in which they are looked for
  have hjp : Ends IsFault IsFair (jp ()) :=
    Ends.ite hdirective <|
    Ends.ite (ends_division h _) <|
    Ends.ite (ends_division h _) <|
    Ends.ite (ends_openFlow h _) <|
    Ends.ite (ends_openFlow h _) <|
    Ends.ite (ends_closeFlow h _) <|
    Ends.ite (ends_closeFlow h _) <|
    Ends.ite (ends_flowEntry h) <|
    Ends.ite (ends_blockEntry h) <|
    Ends.ite (ends_explicitKey h) <|
    Ends.ite (ends_value h) <|
    Ends.ite (ends_word (hname .alias) h) <|
    Ends.ite (ends_word (hname .anchor) h) <|
    Ends.ite (ends_word (fun _ hl => ends_tag hl) h) <|
    Ends.ite (ends_block h false) <|
    Ends.ite (ends_block h true) <|
    Ends.ite (ends_word (hquoted _) h) <|
    Ends.ite (ends_plain h) ends_malformed
  split
  · exact (Fair.readable (Fair.next h)).bind fun _ _ => hjp
  · exact hjp

/-- The next token leads to a fair position. -/
lemma ends_fetch (h : l.IsFair) : Ends IsFault (fun r => r.2.IsFair) l.fetch := by
  unfold fetch
  refine (ends_dropStale h).bind fun l₁ h₁ => ?_
  refine (Fair.readable (fair_skipToToken h₁)).bind fun c hc => ?_
  refine Ends.bind (ends_dropStale hc) fun l₂ h₂ => ?_
  have h₃ := fair_closeBlocks h₂ l₂.cursor.column
  simp only
  split
  · exact (ends_closeDocument h₃).bind fun _ hl => hl
  · exact (ends_token h₃ _).bind fun l₄ h₄ => (Fair.readable h₄).bind fun _ hc => hc

/-- The tokens of a text end in a fault or at its end. -/
lemma isFault_run (h : l.IsFair) (rounds : Nat) {f : Failure} (hf : (run rounds l).2 = some f) :
    IsFault f := by
  induction rounds generalizing l with
  | zero =>
    cases hf
    exact .malformed rfl
  | succ rounds ih =>
    have hfetch := ends_fetch h
    unfold run at hf
    split at hf
    · rename_i f' heq
      cases hf
      exact hfetch.of_error heq
    · cases hf
    · rename_i l' heq
      rw [heq] at hfetch
      exact ih hfetch hf

end Lexer

/-! ## Documents -/

/-- What ends the portions of a text is a fault if what stands behind them is one. -/
lemma isFault_ofPortions {fault : Option Failure} (h : ∀ f, fault = some f → IsFault f)
    (portions : List Text) :
    ∀ f, (Source.ofPortions fault portions).fault = some f → IsFault f := by
  induction portions with
  | nil => exact h
  | cons t rest ih =>
    unfold Source.ofPortions
    split
    · exact ih
    · rintro f ⟨⟩
      exact .malformed rfl

/-- What keeps the text of a file from being read is a fault. -/
lemma isFault_ofBytes (bytes : Bytes) :
    ∀ f, (Source.ofBytes bytes).fault = some f → IsFault f := by
  unfold Source.ofBytes
  refine isFault_ofPortions (fun f hf => ?_) _
  obtain ⟨m, -, rfl⟩ := Option.map_eq_some_iff.mp hf
  exact .value rfl

/-- The tokens of a file end where its text ends or in a fault. -/
lemma isFault_tokens (bytes : Bytes) :
    ∀ f, (tokens (.ofBytes bytes)).2 = some f → IsFault f := fun _ hf =>
  Lexer.isFault_run (l := Lexer.start (.ofBytes bytes)) (isFault_ofBytes bytes) _ hf

end EditorDocs.Yaml
