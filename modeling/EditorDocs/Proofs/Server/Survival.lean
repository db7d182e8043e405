import EditorDocs.Proofs.Server.Response
import Mathlib.Data.List.Forall2

/-!
# How the service goes on

Every line that is not blank is answered by one line, and the next line is served, whatever the
commands do and whatever stands in the lines, unless the line ends the service (`Server.Ends`).  In
reading it does so if it holds an integer with too many digits or is nested too deeply
(`Server.ending?`).

A response can always be written.  Its id came from a line, so it can be written
(`Json.fault?_of_readLine`) even if the result cannot, and then the response says so
(`Server.exec_encode`).  But this is recorded first, with the id, and where the record is made less of
the stack is left than where the line was read.  So a line whose id is nested almost too deeply ends
the service, too, if its result cannot be written.  Where no id holds other values the service ends in
reading alone (`Server.not_ends_of_isFlat`).
-/

namespace EditorDocs

open Json (Value)

namespace Server

/-! ## Lines -/

/-- The line is blank. -/
def isBlank (line : Text) : Bool := line.strip.isEmpty

/-- The failure in which the service ends in reading the line, if it does: the line holds an integer
with too many digits, or is nested too deeply. -/
def ending? (budget : Nat) (line : Text) : Option Failure :=
  match Json.readLine budget line.strip with
  | .error (.longInteger digits) => some (.longInteger digits)
  | .error .tooDeep => some .tooDeep
  | _ => none

/-- How a line ends the service in a world. -/
inductive Ends (r : Registry) (budget : Nat) (w : World) (line : Text) : Failure → Prop where
  /-- It is not read to its end. -/
  | unread {f} (h : ending? budget line = some f) : Ends r budget w line f
  /-- Its response cannot be written, and the record of this cannot be made for the depth of its id. -/
  | unlogged {payload response w' fault} (hread : Json.readLine budget line.strip = .ok payload)
      (hhandle : (handle r payload).exec w = (.ok response, w'))
      (hfault : response.fault? budget = some fault)
      (hlog : w'.refusal? (encodeFailed (memberOrNull "id" payload) fault) = some .tooDeep) :
      Ends r budget w line .tooDeep

/-- The answer to a line that is not JSON. -/
def invalidAnswer : Text :=
  (errorResponse .null "INVALID_JSON" "Request must be valid JSON.").render .line

/-- The record of a line that is not JSON, by the number of its characters. -/
def invalidRecord (length : Nat) : Record :=
  ⟨.warning, "server.invalid_json", Context.bind [("component", .string "stdio_server")]
    [("length", .int length)], none⟩

/-- The line answers the other one: it is a value, written on one line, and says so if the other one
is not JSON. -/
structure Answers (budget : Nat) (line answer : Text) : Prop where
  /-- The answer is a value. -/
  value : ∃ v, answer = Value.render .line v
  /-- There is no line break in it. -/
  printable : answer.IsPrintable
  /-- A line that is not JSON is answered in this way. -/
  malformed : Json.readLine budget line.strip = .error .malformed →
    answer = invalidAnswer

section

variable {r : Registry} {budget : Nat} {line : Text} {w : World}

/-- Nothing is not JSON. -/
lemma readLine_nil (budget : Nat) : Json.readLine budget [] = .error .malformed := by
  cases budget <;> rfl

/-- A line that is read is not blank. -/
lemma isBlank_of_readLine {payload : Value}
    (h : Json.readLine budget line.strip = .ok payload) : isBlank line = false := by
  unfold isBlank
  cases hstrip : line.strip with
  | nil =>
    rw [hstrip, readLine_nil] at h
    cases h
  | cons c t => rfl

/-- A line that is not blank is handled, and the response is encoded. -/
lemma exec_respond_of_not_blank (r : Registry) (budget : Nat) (h : isBlank line = false) (w : World) :
    (respond r budget line).exec w = match (handleLine r budget line.strip).exec w with
      | (.error f, w₁) => (.error f, w₁)
      | (.ok response, w₁) => match (encode budget response).exec w₁ with
        | (.error f, w₂) => (.error f, w₂)
        | (.ok answer, w₂) => (.ok (some answer), w₂) := by
  unfold respond
  split
  · rename_i hempty
    rw [isBlank, hempty] at h
    cases h
  · rw [Action.exec_bind]
    rcases (handleLine r budget line.strip).exec w with ⟨f | response, w₁⟩
    · rfl
    · simp only
      rw [Action.exec_bind]
      rcases (encode budget response).exec w₁ with ⟨f | answer, w₂⟩
      · rfl
      · rfl

/-- A blank line is passed over. -/
lemma exec_respond_blank (r : Registry) (budget : Nat) (h : isBlank line = true) (w : World) :
    (respond r budget line).exec w = (.ok none, w) := by
  have hempty : line.strip = [] := List.isEmpty_iff.mp h
  unfold respond
  rw [hempty]
  rfl

/-- A line that cannot be read to its end is not answered. -/
lemma exec_respond_ending (r : Registry) {f : Failure} (h : ending? budget line = some f)
    (w : World) : (respond r budget line).exec w = (.error f, w) := by
  unfold ending? at h
  unfold respond
  split
  · rename_i hempty
    rw [hempty, readLine_nil] at h
    cases h
  · rw [Action.exec_bind]
    unfold handleLine
    split at h
    · rename_i digits hread
      rw [hread]
      cases h
      rfl
    · rename_i hread
      rw [hread]
      cases h
      rfl
    · cases h

/-- A payload from a line is handled and the response is written, unless the user interrupts the
call. -/
lemma exec_respond_payload (hroom : 1 < budget) {payload : Value}
    (hread : Json.readLine budget line.strip = .ok payload) (w : World) :
    (∃ w', (handle r payload).exec w = (.error .interrupted, w') ∧
      (respond r budget line).exec w = (.error .interrupted, w')) ∨
    ∃ response w' x w'', (handle r payload).exec w = (.ok response, w') ∧
      Writes budget (memberOrNull "id" payload) response w' x w'' ∧
      (respond r budget line).exec w = (x.map fun v => some (Value.render .line v), w'') := by
  rw [exec_respond_of_not_blank r budget (isBlank_of_readLine hread), handleLine, hread]
  rcases exec_handle_either r payload w with
    ⟨_, _, w', -, hexec⟩ | ⟨response, w', hexec, hresponds⟩
  · exact Or.inl ⟨w', hexec, by rw [hexec]⟩
  · have hid : memberOrNull "id" response = memberOrNull "id" payload := by
      rw [memberOrNull, hresponds.id]
      rfl
    obtain ⟨x, w'', hencode, hwrites⟩ :=
      exec_encode hroom (hresponds.hasId (Json.fault?_of_readLine hread)) w'
    rw [hid] at hwrites
    refine Or.inr ⟨response, w', x, w'', hexec, hwrites, ?_⟩
    simp only [hexec, hencode]
    cases x <;> rfl

/-- A line that is not JSON is answered with `INVALID_JSON`, whatever the commands are, and all that
it leaves behind is a record. -/
lemma exec_respond_malformed (r : Registry) (hroom : 1 < budget) (hblank : isBlank line = false)
    (hread : Json.readLine budget line.strip = .error .malformed) (w : World) :
    (respond r budget line).exec w =
      (.ok (some invalidAnswer), w.report (invalidRecord line.strip.length)) := by
  have hnull : Value.null.fault? (budget - 1) = none := rfl
  have hreport : (report .warning "server.invalid_json" [("length", .int line.strip.length)]
      none).exec w = (.ok (), w.report (invalidRecord line.strip.length)) :=
    Action.exec_report_of_isFlat rfl w
  rw [exec_respond_of_not_blank r budget hblank, handleLine, hread]
  simp only
  rw [Action.exec_bind_ok hreport]
  simp only [Action.exec_pure, encode, fault?_errorResponse hroom hnull]
  rfl

/-- A line that is not blank is answered, or ends the service, or the user interrupts the call that it
asks for. -/
theorem exec_respond (r : Registry) (hroom : 1 < budget) (hblank : isBlank line = false)
    (w : World) :
    (∃ payload w', (handle r payload).exec w = (.error .interrupted, w') ∧
      (respond r budget line).exec w = (.error .interrupted, w')) ∨
    (∃ f w', (respond r budget line).exec w = (.error f, w') ∧ Ends r budget w line f) ∨
    ∃ answer w', (respond r budget line).exec w = (.ok (some answer), w') ∧
      Answers budget line answer := by
  cases hread : Json.readLine budget line.strip with
  | ok payload =>
    have hanswers : ∀ v, Answers budget line (Value.render .line v) := fun v =>
      ⟨⟨v, rfl⟩, Json.isPrintable_render v, fun hmalformed => by
        rw [hread] at hmalformed
        cases hmalformed⟩
    rcases exec_respond_payload hroom hread w with
      ⟨w', hhandle, hrespond⟩ | ⟨response, w', x, w'', hhandle, hwrites, hrespond⟩
    · exact Or.inl ⟨payload, w', hhandle, hrespond⟩
    · rw [hrespond]
      cases hwrites with
      | whole _ => exact Or.inr (Or.inr ⟨_, _, rfl, hanswers _⟩)
      | replaced _ _ => exact Or.inr (Or.inr ⟨_, _, rfl, hanswers _⟩)
      | unlogged hfault hlog =>
        exact Or.inr (Or.inl ⟨_, _, rfl, .unlogged hread hhandle hfault hlog⟩)
  | error fault =>
    cases fault with
    | malformed =>
      exact Or.inr (Or.inr ⟨_, _, exec_respond_malformed r hroom hblank hread w, ⟨_, rfl⟩,
        Json.isPrintable_render _, fun _ => rfl⟩)
    | longInteger digits =>
      have hending : ending? budget line = some (.longInteger digits) := by rw [ending?, hread]
      exact Or.inr (Or.inl ⟨_, w, exec_respond_ending r hending w, .unread hending⟩)
    | tooDeep =>
      have hending : ending? budget line = some .tooDeep := by rw [ending?, hread]
      exact Or.inr (Or.inl ⟨_, w, exec_respond_ending r hending w, .unread hending⟩)

/-- A line that ends the service is not answered. -/
lemma Ends.exec_respond (hroom : 1 < budget) {f : Failure} (h : Ends r budget w line f) :
    ∃ w', (respond r budget line).exec w = (.error f, w') := by
  cases h with
  | unread h => exact ⟨w, exec_respond_ending r h w⟩
  | @unlogged payload response w' fault hread hhandle hfault hlog =>
    rcases exec_respond_payload (r := r) hroom hread w with
      ⟨w₁, hinterrupted, -⟩ | ⟨response', w₁, x, w₂, hexec, hwrites, hrespond⟩
    · rw [hhandle] at hinterrupted
      cases hinterrupted
    · rw [hhandle] at hexec
      cases hexec
      rw [hrespond]
      cases hwrites with
      | whole hnone =>
        rw [hfault] at hnone
        cases hnone
      | replaced hfault' hnone =>
        cases hfault.symm.trans hfault'
        rw [hlog] at hnone
        cases hnone
      | unlogged _ _ => exact ⟨_, rfl⟩

/-- A line whose id holds no other values ends the service in reading it, if at all. -/
lemma Ends.ending (h : Ends r budget w line f)
    (hflat : ∀ payload, Json.readLine budget line.strip = .ok payload →
      (memberOrNull "id" payload).isFlat = true) : ending? budget line = some f := by
  cases h with
  | unread h => exact h
  | @unlogged payload _ _ fault hread _ _ hlog =>
    have hrecord : (encodeFailed (memberOrNull "id" payload) fault).context.isFlat = true := by
      simp [encodeFailed, hflat payload hread]
    rw [World.refusal?_of_isFlat hrecord] at hlog
    cases hlog

end

/-! ## The service -/

/-- The service goes on with the next line unless one ends it. -/
lemma run_serveLines_cons (r : Registry) (budget : Nat) (line : Text) (rest : List Text)
    (w : World) :
    (serveLines r budget (line :: rest)).run w = match (respond r budget line).exec w with
      | (.error e, w') => (([], some e), w')
      | (.ok none, w') => (serveLines r budget rest).run w'
      | (.ok (some answer), w') =>
        let ((answers, failure), w'') := (serveLines r budget rest).run w'
        ((answer :: answers, failure), w'') := by
  rw [serveLines, StateT.run_bind]
  have hexec : (StateT.run (ExceptT.run (respond r budget line)) w : Id _) =
      (respond r budget line).exec w := rfl
  rw [hexec]
  rcases (respond r budget line).exec w with ⟨e | answer, w'⟩
  · rfl
  · cases answer <;> rfl

/-- Serving lines and then others is serving the others in the world that the first ones leave, unless
the service has ended before. -/
theorem run_serveLines_append (r : Registry) (budget : Nat) (a b : List Text) (w : World) :
    (serveLines r budget (a ++ b)).run w = match (serveLines r budget a).run w with
      | ((answers, some f), w') => ((answers, some f), w')
      | ((answers, none), w') => match (serveLines r budget b).run w' with
        | ((more, failure), w'') => ((answers ++ more, failure), w'') := by
  induction a generalizing w with
  | nil => rfl
  | cons line rest ih =>
    rw [List.cons_append, run_serveLines_cons, run_serveLines_cons]
    rcases (respond r budget line).exec w with ⟨f | _ | answer, w'⟩
    · rfl
    · exact ih w'
    · simp only [ih w']
      rcases (serveLines r budget rest).run w' with ⟨⟨answers, _ | f⟩, w''⟩
      · rfl
      · rfl

section

variable {r : Registry} {budget : Nat}

/-- The lines before the first one that ends the service are answered in turn, and it goes through them
all unless there is such a line. -/
theorem run_serveLines (hr : r.IsCalm) (hroom : 1 < budget) (lines : List Text) (w : World) :
    ∃ before after answers failure w₁ w₂, lines = before ++ after ∧
      (serveLines r budget lines).run w = ((answers, failure), w₂) ∧
      (serveLines r budget before).run w = ((answers, none), w₁) ∧
      List.Forall₂ (Answers budget) (before.filter fun line => !isBlank line) answers ∧
      match after with
      | [] => failure = none
      | line :: _ => ∃ f, failure = some f ∧ Ends r budget w₁ line f := by
  induction lines generalizing w with
  | nil => exact ⟨[], [], [], none, w, w, rfl, rfl, rfl, .nil, rfl⟩
  | cons line rest ih =>
    simp only [run_serveLines_cons]
    cases hblank : isBlank line with
    | true =>
      obtain ⟨before, after, answers, failure, w₁, w₂, hrest, hserve, hbefore, hanswers, hends⟩ :=
        ih w
      refine ⟨line :: before, after, answers, failure, w₁, w₂, by rw [hrest]; rfl, ?_, ?_, ?_, hends⟩
      · rw [exec_respond_blank r budget hblank]
        exact hserve
      · rw [run_serveLines_cons, exec_respond_blank r budget hblank]
        exact hbefore
      · simpa [hblank] using hanswers
    | false =>
      rcases exec_respond r hroom hblank w with ⟨payload, w', hhandle, -⟩ |
        ⟨f, w', hrespond, hends⟩ | ⟨answer, w', hrespond, hanswer⟩
      · obtain ⟨response, w'', hexec, -⟩ := exec_handle_cases hr payload w
        rw [hhandle] at hexec
        cases hexec
      · exact ⟨[], line :: rest, [], some f, w, w', rfl, by rw [hrespond], rfl, .nil, f, rfl, hends⟩
      · obtain ⟨before, after, answers, failure, w₁, w₂, hrest, hserve, hbefore, hanswers, hends⟩ :=
          ih w'
        refine ⟨line :: before, after, answer :: answers, failure, w₁, w₂, by rw [hrest]; rfl, ?_,
          ?_, ?_, hends⟩
        · simp only [hrespond, hserve]
        · simp only [run_serveLines_cons, hrespond, hbefore]
        · simpa [hblank] using ⟨hanswer, hanswers⟩

/-- The service has read to their end all lines that it has gone through. -/
lemma ending?_of_serveLines {lines : List Text} {w : World}
    (h : ((serveLines r budget lines).run w).1.2 = none) :
    ∀ line ∈ lines, ending? budget line = none := by
  induction lines generalizing w with
  | nil => exact List.forall_mem_nil _
  | cons line rest ih =>
    rw [run_serveLines_cons] at h
    cases hending : ending? budget line with
    | some f =>
      rw [exec_respond_ending r hending] at h
      cases h
    | none =>
      refine List.forall_mem_cons.mpr ⟨hending, ?_⟩
      rcases hrespond : (respond r budget line).exec w with ⟨f | _ | answer, w'⟩
      all_goals rw [hrespond] at h
      · cases h
      · exact ih h
      · exact ih h

end

/-- The world in which the first line is served. -/
def startedAt (r : Registry) (w : World) : World :=
  ((report .info "server.started" [("commands", .int r.count)] none).exec w).2

/-- The service is that of the lines of its input, between two records. -/
lemma run_serve (r : Registry) (input : Text) (w : World) :
    (serve r input).run w =
      match (serveLines r w.host.stack.lines input.lines).run (startedAt r w) with
      | ((answers, none), w') => ((answers, none), w'.report ⟨.info, "server.stopped",
          Context.bind [("component", .string "stdio_server")] [], none⟩)
      | ((answers, some f), w') => ((answers, some f), w') := by
  have hstopped : ∀ v : World, (StateT.run (ExceptT.run (report .info "server.stopped" [] none)) v :
      Id _) = (.ok (), v.report ⟨.info, "server.stopped",
        Context.bind [("component", .string "stdio_server")] [], none⟩) :=
    fun v => Action.exec_report_of_isFlat rfl v
  unfold serve
  rw [StateT.run_bind]
  change StateT.run (_ >>= fun _ => serveLines r w.host.stack.lines input.lines >>= _) w = _
  rw [StateT.run_bind]
  change StateT.run (serveLines r w.host.stack.lines input.lines >>= _) (startedAt r w) = _
  rw [StateT.run_bind]
  rcases StateT.run (serveLines r w.host.stack.lines input.lines) (startedAt r w)
    with ⟨⟨answers, _ | f⟩, w'⟩
  · change StateT.run (ExceptT.run (report .info "server.stopped" [] none) >>= _) w' = _
    rw [StateT.run_bind, hstopped]
    rfl
  · rfl

/-- The answers of the service are those to the lines of its input. -/
lemma run_serve_eq (r : Registry) (input : Text) (w : World) :
    ((serve r input).run w).1 =
      ((serveLines r w.host.stack.lines input.lines).run (startedAt r w)).1 := by
  rw [run_serve]
  rcases StateT.run (serveLines r w.host.stack.lines input.lines) (startedAt r w)
    with ⟨⟨answers, _ | f⟩, w'⟩
  · rfl
  · rfl

/-- The service survives all lines but those that end it.  If no command ends in an interruption, the
service goes through its input, and answers every line that is not blank, up to the first line that
ends it.  It ends in a failure if and only if it comes to such a line, and in the failure of this
line.  If no id holds other values then these are the lines that hold an integer with too many
digits or are nested too deeply, whatever the commands do. -/
theorem serve_survives {r : Registry} (hr : r.IsCalm) (input : Text) (w : World) :
    let budget := w.host.stack.lines
    let served := ((serve r input).run w).1
    (∃ before after w', input.lines = before ++ after ∧
      (serveLines r budget before).run (startedAt r w) = ((served.1, none), w') ∧
      List.Forall₂ (Answers budget) (before.filter fun line => !isBlank line) served.1 ∧
      match after with
      | [] => served.2 = none
      | line :: _ => ∃ f, served.2 = some f ∧ Ends r budget w' line f) ∧
    (∀ f, served.2 = some f ↔ ∃ before line after answers w', input.lines = before ++ line :: after ∧
      (serveLines r budget before).run (startedAt r w) = ((answers, none), w') ∧
      Ends r budget w' line f) ∧
    ((∀ line ∈ input.lines, ∀ payload, Json.readLine budget line.strip = .ok payload →
        (memberOrNull "id" payload).isFlat = true) →
      served.2 = input.lines.findSome? (ending? budget) ∧
      List.Forall₂ (Answers budget) ((input.lines.takeWhile fun line =>
        (ending? budget line).isNone).filter fun line => !isBlank line) served.1) := by
  intro budget served
  have hroom : 1 < budget := w.host.stack.room
  obtain ⟨before, after, answers, failure, w₁, w₂, hlines, hserve, hbefore, hanswers, hends⟩ :=
    run_serveLines hr hroom input.lines (startedAt r w)
  have hserved : served = (answers, failure) :=
    (run_serve_eq r input w).trans (congrArg Prod.fst hserve)
  rw [hserved]
  refine ⟨⟨before, after, w₁, hlines, hbefore, hanswers, hends⟩, fun f => ⟨fun hf => ?_, ?_⟩,
    fun hflat => ?_⟩
  · cases after with
    | nil => exact absurd (hends.symm.trans hf) (Option.some_ne_none f).symm
    | cons line after =>
      obtain ⟨g, hg, hline⟩ := hends
      cases hg.symm.trans hf
      exact ⟨before, line, after, answers, w₁, hlines, hbefore, hline⟩
  · rintro ⟨before', line, after', answers', w', hlines', hbefore', hline⟩
    obtain ⟨w'', hrespond⟩ := hline.exec_respond hroom
    rw [hlines', run_serveLines_append, hbefore'] at hserve
    simp only [run_serveLines_cons, hrespond] at hserve
    exact (congrArg (fun x => x.1.2) hserve).symm
  · have hread := ending?_of_serveLines (congrArg (fun x => x.1.2) hbefore)
    have hwhile : before.takeWhile (fun line => (ending? budget line).isNone) = before :=
      List.takeWhile_eq_self_iff.mpr fun line hline => by rw [hread line hline]; rfl
    have hnone : before.findSome? (ending? budget) = none := List.findSome?_eq_none_iff.mpr hread
    cases after with
    | nil =>
      rw [hlines, List.append_nil, hwhile, hnone]
      exact ⟨hends, hanswers⟩
    | cons line after =>
      obtain ⟨f, rfl, hline⟩ := hends
      have hending := hline.ending (hflat line (by simp [hlines]))
      have hstop : (line :: after).takeWhile (fun line => (ending? budget line).isNone) = [] := by
        simp [hending]
      rw [hlines, List.findSome?_append, hnone,
        List.takeWhile_append_of_pos fun line hline => by rw [hread line hline]; rfl, hstop,
        List.append_nil]
      exact ⟨by simp [hending], hanswers⟩

/-- A line that is not JSON, a blank line and a request. -/
def sampleInput : Text := "[,]\n \n\x7b\"method\": \"Hello\"\x7d\n"

/-- A line that is not JSON and a blank line do not keep a request from its answer. -/
theorem serve_survives_sample :
    ((serve sampleRegistry sampleInput).run sampleWorld).1.2 = none ∧
      ((serve sampleRegistry sampleInput).run sampleWorld).1.1.length = 2 := by
  have hcalm : sampleRegistry.IsCalm := by
    intro entry hentry args w
    rw [List.mem_singleton.mp hentry]
    simp [Command.hello]
  have hflat : ∀ line ∈ sampleInput.lines, ∀ payload,
      Json.readLine sampleWorld.host.stack.lines line.strip = .ok payload →
      (memberOrNull "id" payload).isFlat = true := by
    have hids : ∀ line ∈ sampleInput.lines,
        ((Json.readLine sampleWorld.host.stack.lines line.strip).toOption.all fun payload =>
          (memberOrNull "id" payload).isFlat) = true := by decide +kernel
    intro line hline payload hread
    have hid := hids line hline
    rw [hread] at hid
    exact hid
  obtain ⟨-, -, hserve⟩ := serve_survives hcalm sampleInput sampleWorld
  obtain ⟨hfailure, hanswers⟩ := hserve hflat
  refine ⟨hfailure.trans (by decide +kernel), ?_⟩
  rw [← hanswers.length_eq]
  decide +kernel

/-- A line with an integer of more digits than the limit. -/
def sampleLong : Text := List.replicate (Json.integerLimit + 1) ('1' : CodePoint)

/-- The service ends at such a line without an answer, and the request behind it is not served. -/
theorem serve_ends_sample :
    ((serve sampleRegistry (sampleLong ++ "\n" ++ sampleInput)).run sampleWorld).1 =
      ([], some (.longInteger 4301)) := by
  decide +kernel

end Server

end EditorDocs
