import EditorDocs.Proofs.Json.Standard
import EditorDocs.Proofs.Result
import EditorDocs.Proofs.Server.Framing

/-!
# Which answers are JSON

An answer is written as its line asks for, and what cannot be written at all is answered with
`INTERNAL_ERROR` under the same id (`Server.Standard`).  What is written is a document of the strict
grammar unless a number that is infinite or none at all comes back: in the id, which the line itself
may hold since it is read more leniently, or in what a command has returned (`Server.serve_standard`).
Such a number is not among the reasons why a response cannot be written, so it is written as a word
that JSON does not have (`Server.respond_nan`).
-/

namespace EditorDocs

open Json (Value)

namespace Server

/-! ## Numbers in responses -/

/-- The numbers of a response that says that all is well are those of its id and of its result. -/
lemma isFinite_okResponse (id v : Value) :
    (okResponse id v).isFinite = (id.isFinite && v.isFinite) := by
  simp [okResponse, Value.isFinite, Json.areFiniteMembers]

/-- The numbers of any other response are those of its id. -/
lemma isFinite_errorResponse (id : Value) (kind message : Text) :
    (errorResponse id kind message).isFinite = id.isFinite := by
  simp [errorResponse, Value.isFinite, Json.areFiniteMembers]

section

variable {r : Registry} {payload response : Value} {w : World}

/-- All numbers in a response are finite if those in the id of the payload are, and those in what the
command has returned. -/
lemma Responds.isFinite_iff (h : Responds r payload w response) :
    response.isFinite = true ↔ (memberOrNull "id" payload).isFinite = true ∧
      ∀ method v, Executes r payload w method (.ok v) → v.isFinite = true := by
  have hother : ∀ kind message, response = errorResponse (memberOrNull "id" payload) kind message →
      (response.isFinite = true ↔ (memberOrNull "id" payload).isFinite = true ∧
        ∀ method v, Executes r payload w method (.ok v) → v.isFinite = true) := by
    intro kind message hresponse
    rw [hresponse, isFinite_errorResponse]
    refine ⟨fun hid => ⟨hid, fun method v hx => ?_⟩, And.left⟩
    have hok := h.eq_okResponse hx
    rw [hresponse] at hok
    cases hok
  cases h with
  | @returned method v hx =>
    rw [isFinite_okResponse, Bool.and_eq_true]
    refine and_congr_right fun _ => ⟨fun hv method' v' hx' => ?_, fun hall => hall _ _ hx⟩
    cases hx.unique hx'
    exact hv
  | _ => exact hother _ _ rfl

end

/-! ## Answers -/

/-- How a line is answered in a world, as far as the strict grammar goes. -/
structure Standard (r : Registry) (budget : Nat) (w : World) (line answer : Text) : Prop where
  /-- To a line that is not JSON the answer is a document. -/
  malformed : Json.readLine budget line.strip = .error .malformed → Json.IsDocument answer
  /-- To a payload it is a document if and only if all numbers are finite in the id and in what the
  command has returned, if that is written. -/
  document : ∀ payload, Json.readLine budget line.strip = .ok payload →
    (Json.IsDocument answer ↔ (memberOrNull "id" payload).isFinite = true ∧
      ∀ method v, Executes r payload w method (.ok v) →
        (okResponse (memberOrNull "id" payload) v).fault? budget = none → v.isFinite = true)
  /-- If what the command has returned cannot be written, the answer says so under the id. -/
  refused : ∀ payload, Json.readLine budget line.strip = .ok payload →
    ∀ method v fault, Executes r payload w method (.ok v) →
      (okResponse (memberOrNull "id" payload) v).fault? budget = some fault →
      answer = (standIn (memberOrNull "id" payload) fault).render .line

section

variable {r : Registry} {budget : Nat} {payload : Value} {w : World} {line answer : Text}

/-- The answer to a malformed line is a document. -/
lemma Answered.isDocument (hroom : 1 < budget) (h : Answered r budget w line answer)
    (hread : Json.readLine budget line.strip = .error .malformed) : Json.IsDocument answer := by
  obtain ⟨response, w₁, w₂, hhandle, hencode⟩ := h.encoded
  have hnull : Value.null.fault? (budget - 1) = none := rfl
  rw [handleLine, hread] at hhandle
  cases hhandle
  rw [encode, fault?_errorResponse hroom hnull] at hencode
  cases hencode
  exact (Json.isDocument_render_iff _).mpr (isFinite_errorResponse _ _ _)

/-- The answer to a payload is the response as it is written, if it can be, and otherwise says under
the id that it cannot. -/
lemma Answered.written (hroom : 1 < budget) (h : Answered r budget w line answer)
    (hread : Json.readLine budget line.strip = .ok payload) :
    ∃ response, Responds r payload w response ∧
      (response.fault? budget = none → answer = response.render .line) ∧
      ∀ fault, response.fault? budget = some fault →
        answer = (standIn (memberOrNull "id" payload) fault).render .line := by
  obtain ⟨response, w₁, w₂, hhandle, hencode⟩ := h.encoded
  have hsame : (handleLine r budget line.strip).exec w = (handle r payload).exec w := by
    rw [handleLine, hread]
  have hresponds : Responds r payload w response := by
    rw [hsame] at hhandle
    rcases exec_handle_either r payload w with ⟨_, _, _, -, hexec⟩ | ⟨response', w', hexec, h⟩
    all_goals rw [hexec] at hhandle
    · cases hhandle
    · cases hhandle
      exact h
  have hid : memberOrNull "id" response = memberOrNull "id" payload := by
    rw [memberOrNull, hresponds.id]
    rfl
  obtain ⟨x, w'', hwritten, hwrites⟩ :=
    exec_encode hroom (hresponds.hasId (Json.fault?_of_readLine hread)) w₁
  rw [hencode] at hwritten
  rw [hid] at hwrites
  refine ⟨response, hresponds, ?_⟩
  cases hwrites with
  | whole hnone =>
    cases hwritten
    exact ⟨fun _ => rfl, fun fault hsome => absurd (hnone.symm.trans hsome) (by simp)⟩
  | replaced hsome _ =>
    cases hwritten
    refine ⟨fun hnone => absurd (hnone.symm.trans hsome) (by simp), fun fault hfault => ?_⟩
    cases hsome.symm.trans hfault
    rfl
  | unlogged _ _ => cases hwritten

/-- The answer to a payload is a document unless a number comes back that is not finite. -/
lemma Answered.isDocument_iff (hroom : 1 < budget) (h : Answered r budget w line answer)
    (hread : Json.readLine budget line.strip = .ok payload) :
    Json.IsDocument answer ↔ (memberOrNull "id" payload).isFinite = true ∧
      ∀ method v, Executes r payload w method (.ok v) →
        (okResponse (memberOrNull "id" payload) v).fault? budget = none → v.isFinite = true := by
  obtain ⟨response, hresponds, hwritten, hrefused⟩ := h.written hroom hread
  cases hfault : response.fault? budget with
  | none =>
    rw [hwritten hfault, Json.isDocument_render_iff, hresponds.isFinite_iff]
    refine and_congr_right fun _ => forall_congr' fun method => forall_congr' fun result => ?_
    refine forall_congr' fun hx => ?_
    rw [← hresponds.eq_okResponse hx, hfault]
    simp
  | some fault =>
    -- the result is not written, so only the number in the id counts
    rw [hrefused fault hfault, Json.isDocument_render_iff, standIn, isFinite_errorResponse]
    refine ⟨fun hid => ⟨hid, fun method result hx hnone => ?_⟩, And.left⟩
    rw [← hresponds.eq_okResponse hx, hfault] at hnone
    cases hnone

/-- A line that is answered is answered in this way. -/
lemma Answered.standard (hroom : 1 < budget) (h : Answered r budget w line answer) :
    Standard r budget w line answer where
  malformed hread := h.isDocument hroom hread
  document _ hread := h.isDocument_iff hroom hread
  refused payload hread method v fault hx hsome := by
    obtain ⟨response, hresponds, -, hrefused⟩ := h.written hroom hread
    rw [← hresponds.eq_okResponse hx] at hsome
    exact hrefused fault hsome

end

/-! ## The service -/

/-- Which answers are JSON.  Every line that is not blank is answered by one text, unless it ends the
service or the user interrupts the call that it asks for.  The answer is a document of the strict
grammar to a line that is not JSON, and to a payload if and only if all numbers are finite in its id
and in what its command has returned; what cannot be written is answered with `INTERNAL_ERROR` under
its id.  The answers of the service are such answers, each to its own line in the world that the lines
before it have left. -/
theorem serve_standard (r : Registry) (w : World) :
    let budget := w.host.stack.lines
    (∀ line, isBlank line = false →
      (∃ f w', (respond r budget line).exec w = (.error f, w') ∧
        (f = .interrupted ∨ Ends r budget w line f)) ∨
      ∃ answer w', (respond r budget line).exec w = (.ok (some answer), w') ∧
        Standard r budget w line answer) ∧
    ∀ input i answer, ((serve r input).run w).1.1[i]? = some answer →
      ∃ before line after w', input.lines = before ++ line :: after ∧
        before.countP (fun line => !isBlank line) = i ∧
        ((serveLines r budget before).run (startedAt r w)).2 = w' ∧
        Standard r budget w' line answer := by
  intro budget
  have hroom : 1 < budget := w.host.stack.room
  refine ⟨fun line hblank => ?_, fun input i answer hanswer => ?_⟩
  · rcases exec_respond r hroom hblank w with
      ⟨_, w', -, hrespond⟩ | ⟨f, w', hrespond, hends⟩ | ⟨answer, w', hrespond, -⟩
    · exact Or.inl ⟨_, w', hrespond, Or.inl rfl⟩
    · exact Or.inl ⟨f, w', hrespond, Or.inr hends⟩
    · exact Or.inr ⟨answer, w', hrespond, (answered_of_respond hrespond).standard hroom⟩
  · rw [run_serve_eq] at hanswer
    obtain ⟨before, line, after, w', hlines, hcount, hserve, hanswered⟩ :=
      exists_of_answer r budget input.lines (startedAt r w) hanswer
    exact ⟨before, line, after, w', hlines, hcount, congrArg Prod.snd hserve,
      hanswered.standard hroom⟩

/-- A request whose id is a text. -/
def sampleGreeting : Text := "\x7b\"id\": \"a\", \"method\": \"Hello\"\x7d"

/-- The request is answered by a document, since its id is finite and so is any greeting. -/
theorem serve_standard_sample : ∃ answer w',
    (respond sampleRegistry sampleWorld.host.stack.lines sampleGreeting).exec sampleWorld =
      (.ok (some answer), w') ∧ Json.IsDocument answer := by
  have hanswered : ((respond sampleRegistry sampleWorld.host.stack.lines sampleGreeting).exec
      sampleWorld).1 = .ok (some "\x7b\"id\": \"a\", \"ok\": true, \"result\": \"\"\x7d") := by
    decide +kernel
  have hid : (Json.readLine sampleWorld.host.stack.lines sampleGreeting.strip).toOption.map
      (fun payload => (memberOrNull "id" payload).isFinite) = some true := by decide +kernel
  have hgreeting : ∀ payload method v,
      Executes sampleRegistry payload sampleWorld method (.ok v) → v.isFinite = true := by
    rintro payload method v ⟨-, hget, -, hgives⟩
    cases List.mem_singleton.mp (Table.mem_of_get? hget)
    cases hgives
    rfl
  rcases (serve_standard sampleRegistry sampleWorld).1 sampleGreeting (by decide +kernel) with
    ⟨f, w', hstopped, -⟩ | ⟨answer, w', hrespond, hstandard⟩
  · rw [hstopped] at hanswered
    cases hanswered
  · refine ⟨answer, w', hrespond, ?_⟩
    obtain ⟨payload, hread, hfinite⟩ := Option.map_eq_some_iff.mp hid
    exact (hstandard.document payload (Result.of_toOption hread)).mpr
      ⟨hfinite, fun method v hx _ => hgreeting payload method v hx⟩

/-- A request whose id is a number that is none, which the reader accepts. -/
def sampleNan : Text := "\x7b\"id\": NaN, \"method\": \"Hello\"\x7d"

/-- The request is answered, not with `INTERNAL_ERROR` but as any other, and the answer is no
document. -/
theorem respond_nan : ∃ answer,
    ((respond sampleRegistry sampleWorld.host.stack.lines sampleNan).exec sampleWorld).1 =
      .ok (some answer) ∧
      answer = "\x7b\"id\": NaN, \"ok\": true, \"result\": \"\"\x7d" ∧ ¬ Json.IsDocument answer := by
  refine ⟨_, by decide +kernel, rfl, fun hdocument => ?_⟩
  have hsilent := hdocument.isQuiet.silent
  revert hsilent
  decide +kernel

end Server

end EditorDocs
