import EditorDocs.Proofs.Server.Survival

/-!
# Answers in turn

The service of lines is a loop through them: what a line is answered depends on the world that the
lines before it have left, and on nothing behind it.  `Server.run_serveLines_append` says this of the
loop: serving lines and then others is serving the first ones and, in the world that they leave, the
others.  `Server.exists_of_answer` says it of one answer: it is the response to its own line, written
in the world that the lines before have left (`Server.Answered`).

What is written is one line an answer, whatever stands in it: an answer consists of printable
characters of ASCII, so the text that is written falls into the answers at its line feeds
(`Server.lines_written`).
-/

namespace EditorDocs

/-! ## Lines that are written -/

namespace Text

/-- What stands before a line feed without one in it is a line. -/
lemma linesAfter_append {a : Text} (ha : ∀ c ∈ a, c.val ≠ 0x0A) (line t : Text) :
    linesAfter line (a ++ CodePoint.ofNat 0x0A :: t) = (line.reverse ++ a) :: linesAfter [] t := by
  induction a generalizing line with
  | nil =>
    rw [List.nil_append, linesAfter, if_pos (by decide), List.append_nil]
  | cons c a ih =>
    have hc : c.val ≠ 0x0A := ha c List.mem_cons_self
    have hrest := ih (fun d hd => ha d (List.mem_cons_of_mem c hd)) (c :: line)
    rw [List.cons_append, linesAfter, if_neg hc, hrest, List.reverse_cons, List.append_assoc]
    rfl

end Text

namespace Server

open Json (Value)

/-- What is written for answers: each on a line of its own. -/
def written (answers : List Text) : Text := answers.flatMap fun answer => answer ++ "\n"

/-- Answers without line breaks are the lines of what is written for them. -/
lemma lines_written {answers : List Text} (h : ∀ answer ∈ answers, answer.IsPrintable) :
    (written answers).lines = answers := by
  induction answers with
  | nil => rfl
  | cons answer rest ih =>
    have hbreak : ("\n" : Text) = [CodePoint.ofNat 0x0A] := by decide
    have hno : ∀ c ∈ answer, c.val ≠ 0x0A := by
      intro c hc hfeed
      have hprintable := h answer List.mem_cons_self c hc
      omega
    have hrest := ih fun a ha => h a (List.mem_cons_of_mem answer ha)
    rw [written, List.flatMap_cons, hbreak, List.append_assoc, Text.lines, List.singleton_append,
      Text.linesAfter_append hno]
    rw [written, hbreak] at hrest
    exact congrArg _ hrest

/-- What is encoded is printable. -/
lemma isPrintable_of_encode {budget : Nat} {response : Value} {answer : Text} {w w' : World}
    (h : (encode budget response).exec w = (.ok answer, w')) : answer.IsPrintable := by
  unfold encode at h
  split at h
  · cases h
    exact Json.isPrintable_render _
  · rename_i fault hfault
    simp only at h
    obtain ⟨_, v, -, h⟩ := Action.of_bind h
    split at h
    · cases h
      exact Json.isPrintable_render _
    · cases h

/-! ## One line -/

/-- The answer is what a line that is not blank is answered in a world: the response to it, encoded. -/
structure Answered (r : Registry) (budget : Nat) (w : World) (line answer : Text) : Prop where
  /-- The line is not blank. -/
  notBlank : isBlank line = false
  /-- The answer encodes the response. -/
  encoded : ∃ response w₁ w₂, (handleLine r budget line.strip).exec w = (.ok response, w₁) ∧
    (encode budget response).exec w₁ = (.ok answer, w₂)

/-- A line is answered if it is not blank. -/
lemma answered_of_respond {r : Registry} {budget : Nat} {line answer : Text} {w w' : World}
    (h : (respond r budget line).exec w = (.ok (some answer), w')) :
    Answered r budget w line answer := by
  cases hblank : isBlank line with
  | true =>
    rw [exec_respond_blank r budget hblank] at h
    cases h
  | false =>
    rw [exec_respond_of_not_blank r budget hblank] at h
    refine ⟨hblank, ?_⟩
    rcases hhandle : (handleLine r budget line.strip).exec w with ⟨f | response, w₁⟩
    · rw [hhandle] at h
      cases h
    · rw [hhandle] at h
      simp only at h
      rcases hencode : (encode budget response).exec w₁ with ⟨f | answer', w₂⟩
      · rw [hencode] at h
        cases h
      · rw [hencode] at h
        cases h
        exact ⟨response, w₁, w', rfl, hencode⟩

/-- A line that is not answered is blank and leaves the world as it is. -/
lemma isBlank_of_respond {r : Registry} {budget : Nat} {line : Text} {w w' : World}
    (h : (respond r budget line).exec w = (.ok none, w')) : isBlank line = true ∧ w' = w := by
  cases hblank : isBlank line with
  | true =>
    rw [exec_respond_blank r budget hblank] at h
    cases h
    exact ⟨rfl, rfl⟩
  | false =>
    rw [exec_respond_of_not_blank r budget hblank] at h
    split at h
    · cases h
    · split at h <;> cases h

/-! ## The loop -/

/-- Every answer is that of its own line, in the world that the lines before it have left. -/
theorem exists_of_answer (r : Registry) (budget : Nat) (lines : List Text) (w : World) {i : Nat}
    {answer : Text} (h : ((serveLines r budget lines).run w).1.1[i]? = some answer) :
    ∃ before line after w', lines = before ++ line :: after ∧
      before.countP (fun line => !isBlank line) = i ∧
      (serveLines r budget before).run w = ((((serveLines r budget lines).run w).1.1.take i, none), w') ∧
      Answered r budget w' line answer := by
  induction lines generalizing w i with
  | nil => cases h
  | cons line rest ih =>
    rw [run_serveLines_cons] at h ⊢
    rcases hrespond : (respond r budget line).exec w with ⟨f | _ | first, w₁⟩
    · rw [hrespond] at h
      cases h
    · rw [hrespond] at h
      obtain ⟨before, line', after, w', hlines, hcount, hserve, hanswered⟩ := ih w₁ h
      refine ⟨line :: before, line', after, w', by rw [hlines]; rfl, ?_, ?_, hanswered⟩
      · simpa [(isBlank_of_respond hrespond).1] using hcount
      · rw [run_serveLines_cons, hrespond]
        exact hserve
    · rw [hrespond] at h
      have hfirst := answered_of_respond hrespond
      cases i with
      | zero =>
        cases h
        exact ⟨[], line, rest, w, rfl, rfl, rfl, hfirst⟩
      | succ i =>
        obtain ⟨before, line', after, w', hlines, hcount, hserve, hanswered⟩ := ih w₁ h
        refine ⟨line :: before, line', after, w', by rw [hlines]; rfl, ?_, ?_, hanswered⟩
        · simpa [hfirst.notBlank] using hcount
        · rw [run_serveLines_cons, hrespond]
          simp only [hserve]
          rfl

/-- If the service has not ended before, every line that is not blank is answered. -/
lemma length_answers (r : Registry) (budget : Nat) (lines : List Text) (w : World)
    (h : ((serveLines r budget lines).run w).1.2 = none) :
    ((serveLines r budget lines).run w).1.1.length = lines.countP fun line => !isBlank line := by
  induction lines generalizing w with
  | nil => rfl
  | cons line rest ih =>
    rw [run_serveLines_cons] at h ⊢
    rcases hrespond : (respond r budget line).exec w with ⟨f | _ | first, w₁⟩
    · rw [hrespond] at h
      cases h
    · rw [hrespond] at h
      simpa [(isBlank_of_respond hrespond).1] using ih w₁ h
    · rw [hrespond] at h
      have hnot := (answered_of_respond hrespond).notBlank
      rw [List.countP_cons_of_pos (by simp [hnot]), ← ih w₁ h]
      rfl

/-! ## The service -/

/-- The service answers in turn, a line a line.  It serves the lines of its input one after the other.
The answer at each place is that of the line at this place among those that are not blank: the
encoded response to it in the world that the lines before have left.  There are as many answers as
such lines unless the service has ended before.  What is written is printable ASCII with a line feed
behind each answer and nowhere else, and serving lines and then others is serving the first ones and,
in the world that they leave, the others. -/
theorem serve_in_turn (r : Registry) (budget : Nat) (w : World) :
    (∀ input, ((serve r input).run w).1 =
      ((serveLines r w.host.stack.lines input.lines).run (startedAt r w)).1) ∧
    (∀ lines i answer, ((serveLines r budget lines).run w).1.1[i]? = some answer →
      ∃ before line after w', lines = before ++ line :: after ∧
        before.countP (fun line => !isBlank line) = i ∧
        (serveLines r budget before).run w =
          ((((serveLines r budget lines).run w).1.1.take i, none), w') ∧
        Answered r budget w' line answer) ∧
    (∀ lines, ((serveLines r budget lines).run w).1.2 = none →
      ((serveLines r budget lines).run w).1.1.length = lines.countP fun line => !isBlank line) ∧
    (∀ lines, (∀ answer ∈ ((serveLines r budget lines).run w).1.1, answer.IsPrintable) ∧
      (written ((serveLines r budget lines).run w).1.1).lines =
        ((serveLines r budget lines).run w).1.1) ∧
    ∀ a b, ((serveLines r budget a).run w).1.2 = none →
      (serveLines r budget (a ++ b)).run w =
        let first := (serveLines r budget a).run w
        let second := (serveLines r budget b).run first.2
        ((first.1.1 ++ second.1.1, second.1.2), second.2) := by
  have hprintable : ∀ lines, ∀ answer ∈ ((serveLines r budget lines).run w).1.1,
      answer.IsPrintable := by
    intro lines answer hanswer
    obtain ⟨i, hi⟩ := List.getElem?_of_mem hanswer
    obtain ⟨_, _, _, _, -, -, -, hanswered⟩ := exists_of_answer r budget lines w hi
    obtain ⟨response, w₁, w₂, -, hencode⟩ := hanswered.encoded
    exact isPrintable_of_encode hencode
  refine ⟨fun input => run_serve_eq r input w,
    fun lines i answer h => exists_of_answer r budget lines w h,
    fun lines hnone => length_answers r budget lines w hnone,
    fun lines => ⟨hprintable lines, lines_written (hprintable lines)⟩, fun a b hnone => ?_⟩
  rw [run_serveLines_append]
  rcases hserve : (serveLines r budget a).run w with ⟨⟨answers, _ | f⟩, w'⟩
  · rfl
  · rw [hserve] at hnone
    cases hnone

/-- The lines of the sample are answered by the answer to the first one and, in the world that it
leaves, the answers to the others. -/
theorem serve_in_turn_sample :
    let first := (serveLines sampleRegistry 980 (sampleInput.lines.take 1)).run sampleWorld
    let second := (serveLines sampleRegistry 980 (sampleInput.lines.drop 1)).run first.2
    (serveLines sampleRegistry 980 sampleInput.lines).run sampleWorld =
      ((first.1.1 ++ second.1.1, second.1.2), second.2) := by
  have hnone : ((serveLines sampleRegistry 980 (sampleInput.lines.take 1)).run
      sampleWorld).1.2 = none := by decide +kernel
  have happend := (serve_in_turn sampleRegistry 980 sampleWorld).2.2.2.2 _
    (sampleInput.lines.drop 1) hnone
  rw [List.take_append_drop] at happend
  exact happend

end Server

end EditorDocs
