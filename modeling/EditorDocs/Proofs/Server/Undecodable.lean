import EditorDocs.Proofs.Command.Blind
import EditorDocs.Proofs.Json.Outside
import EditorDocs.Proofs.Log.Journal
import EditorDocs.Proofs.Server.Framing

/-!
# Lines that are not UTF-8

A line that holds bytes that are not UTF-8, anywhere but as characters of a string, is not JSON: it
is answered with `INVALID_JSON`, a record is made of it, and no command is called
(`Server.exec_respond_misplaced`).  The other lines are answered as if it were absent, since the
record is seen by none of them unless it reads the file of the log (`Server.run_serveLines_twin`).
That file is there when a service starts (`Log.hasLog_openJournal`) and as long as it goes on
(`Server.hasLog_serveLines`).

Within a string such bytes are read as the replacement character, so that a command may be called
with an argument that the host did not send (`CommandLine.serve_replaces_undecodable`).
-/

namespace EditorDocs

open EditorDocs.Action

namespace Server

open Json (Value)

/-! ## Lines that read the log -/

/-- The request that a line makes, if it makes one. -/
def requestAt (budget : Nat) (line : Text) : Option Request :=
  match Json.readLine budget line.strip with
  | .ok payload => (requestOf payload).toOption
  | .error _ => none

/-- The line asks a command for what is in the file of the log. -/
def ReadsLog (r : Resolver) (s : TreeSettings) (budget : Nat) (w : World) (line : Text) : Prop :=
  ∃ (b : Builtin) (request : Request) (path : Text), requestAt budget line = some request ∧
    (b.command r s).name = request.method ∧ b.readsFrom r request.args = some path ∧
      w.LeadsToLog path

/-- None of the lines asks for what is in the file of the log when it is its turn. -/
def SparesLog (r : Resolver) (s : TreeSettings) (budget : Nat) : List Text → World → Prop
  | [], _ => True
  | line :: rest, w => ¬ ReadsLog r s budget w line ∧
      SparesLog r s budget rest ((respond (Registry.builtin r s) budget line).exec w).2

variable {r : Resolver} {s : TreeSettings} {budget : Nat} {w v : World}

/-! ## Answers in twins -/

/-- To encode a response is blind. -/
lemma isBlind_encode (budget : Nat) (response : Value) : (encode budget response).IsBlind := by
  unfold encode
  split
  · exact isBlind_pure _
  · rename_i fault hfault
    refine (isBlind_report _).bind fun _ => ?_
    simp only
    split
    · exact isBlind_pure _
    · exact isBlind_throw _

/-- To respond to a failure is blind. -/
lemma isBlind_failureResponse (request : Request) (e : Failure) :
    (failureResponse request e).IsBlind := by
  unfold failureResponse
  split
  · exact isBlind_throw _
  · exact isBlind_pure _
  · exact (isBlind_report _).bind fun _ => isBlind_pure _

/-- A line is handled in the same way in twins unless it reads the log. -/
lemma agrees_handleLine (h : w.Twin v) {line : Text} (hlog : ¬ ReadsLog r s budget w line) :
    (handleLine (Registry.builtin r s) budget line.strip).Agrees w v := by
  unfold handleLine
  cases hread : Json.readLine budget line.strip with
  | error fault =>
    cases fault with
    | malformed => exact ((isBlind_report _).bind fun _ => isBlind_pure _) w v h
    | longInteger digits => exact isBlind_throw _ w v h
    | tooDeep => exact isBlind_throw _ w v h
  | ok payload =>
    simp only
    unfold handle
    cases hrequest : requestOf payload with
    | error response => exact isBlind_pure _ w v h
    | ok request =>
      have hat : requestAt budget line = some request := by
        rw [requestAt, hread]
        simp only [hrequest]
        rfl
      have hdispatch : ((Registry.builtin r s).dispatch request.method request.args).Agrees w v :=
        Builtin.agrees_dispatch h request.method request.args fun b hb path hpath hleads =>
          hlog ⟨b, request, path, hat, hb, hpath, hleads⟩
      refine Agrees.tryCatch ?_ (isBlind_failureResponse request)
      exact hdispatch.bind fun _ w' v' _ h' => isBlind_pure _ w' v' h'

/-- A line is answered in the same way in twins unless it reads the log. -/
lemma agrees_respond (h : w.Twin v) {line : Text} (hlog : ¬ ReadsLog r s budget w line) :
    (respond (Registry.builtin r s) budget line).Agrees w v := by
  have hhandle := agrees_handleLine h hlog
  unfold respond
  split
  · exact isBlind_pure _ w v h
  · refine hhandle.bind fun response w' v' _ h' => ?_
    exact ((isBlind_encode budget response).bind fun _ => isBlind_pure _) w' v' h'

/-- To handle a line keeps the log. -/
lemma keepsLog_handleLine (line : Text) : (handleLine (Registry.builtin r s) budget line).KeepsLog := by
  unfold handleLine
  cases Json.readLine budget line with
  | error fault =>
    refine IsBlind.keepsLog ?_
    cases fault with
    | malformed => exact (isBlind_report _).bind fun _ => isBlind_pure _
    | longInteger digits => exact isBlind_throw _
    | tooDeep => exact isBlind_throw _
  | ok payload =>
    simp only
    unfold handle
    cases requestOf payload with
    | error response => exact (isBlind_pure _).keepsLog
    | ok request =>
      refine KeepsLog.tryCatch ?_ fun e => (isBlind_failureResponse request e).keepsLog
      exact (Builtin.keepsLog_dispatch request.method request.args).bind fun _ =>
        (isBlind_pure _).keepsLog

/-- To respond to a line keeps the log. -/
lemma keepsLog_respond (line : Text) : (respond (Registry.builtin r s) budget line).KeepsLog := by
  unfold respond
  split
  · exact (isBlind_pure _).keepsLog
  · exact (keepsLog_handleLine _).bind fun response => IsBlind.keepsLog <|
      (isBlind_encode budget response).bind fun _ => isBlind_pure _

/-- To serve lines keeps the log. -/
lemma hasLog_serveLines (lines : List Text) (hw : w.HasLog) :
    ((serveLines (Registry.builtin r s) budget lines).run w).2.HasLog := by
  induction lines generalizing w with
  | nil => exact hw
  | cons line rest ih =>
    have hfirst : ((respond (Registry.builtin r s) budget line).exec w).2.HasLog :=
      keepsLog_respond line w hw
    rw [run_serveLines_cons]
    rcases hrespond : (respond (Registry.builtin r s) budget line).exec w with ⟨e | _ | answer, w'⟩
    all_goals rw [hrespond] at hfirst
    · exact hfirst
    · exact ih hfirst
    · exact ih hfirst

/-- Lines that spare the log are answered in the same way in twins, and the service ends in the same
way.  The induction is on the lines, and twins are what it carries along. -/
theorem run_serveLines_twin (h : w.Twin v) {lines : List Text} (hlog : SparesLog r s budget lines w) :
    ((serveLines (Registry.builtin r s) budget lines).run v).1 =
      ((serveLines (Registry.builtin r s) budget lines).run w).1 := by
  induction lines generalizing w v with
  | nil => rfl
  | cons line rest ih =>
    obtain ⟨hline, hrest⟩ := hlog
    obtain ⟨x, w', v', hw, hv, h'⟩ := agrees_respond h hline
    rw [hw] at hrest
    rw [run_serveLines_cons, run_serveLines_cons, hw, hv]
    cases x with
    | error e => rfl
    | ok answer =>
      have hsame := ih h' hrest
      cases answer with
      | none => exact hsame
      | some answer => exact congrArg (fun served => (answer :: served.1, served.2)) hsame

/-! ## A line that is not UTF-8 -/

/-- A line with bytes that are not UTF-8 and stand outside of strings is answered with
`INVALID_JSON`, unless the service ends in reading it. -/
theorem exec_respond_misplaced (registry : Registry) (hroom : 1 < budget) {line : Bytes}
    (h : Utf8.IsMisplaced line) (hending : ending? budget (Utf8.decodeLossy line) = none) (u : World) :
    (respond registry budget (Utf8.decodeLossy line)).exec u =
      (.ok (some invalidAnswer),
        u.report (invalidRecord (Utf8.decodeLossy line).strip.length)) := by
  have hread : Json.readLine budget (Utf8.decodeLossy line).strip = .error .malformed := by
    unfold ending? at hending
    cases hread : Json.readLine budget (Utf8.decodeLossy line).strip with
    | ok payload => exact absurd hread (h.not_read budget payload)
    | error fault =>
      cases fault with
      | malformed => rfl
      | longInteger digits => simp [hread] at hending
      | tooDeep => simp [hread] at hending
  have hblank : isBlank (Utf8.decodeLossy line) = false := by
    have hstrays := h.strays
    cases hstrip : (Utf8.decodeLossy line).strip with
    | nil =>
      rw [hstrip] at hstrays
      cases hstrays
    | cons c t => rw [isBlank, hstrip, List.isEmpty_cons]
  exact exec_respond_malformed registry hroom hblank hread u

/-- A line whose answer leaves nothing but a record behind might as well be absent for the others:
the answers before it and behind it are the same, if those behind spare the log. -/
theorem run_serveLines_absent {before after : List Text} {line answer : Text} {record : Record}
    (hw : w.HasLog)
    (hline : ∀ u, (respond (Registry.builtin r s) budget line).exec u =
      (.ok (some answer), u.report record))
    (hspares : SparesLog r s budget after ((serveLines (Registry.builtin r s) budget before).run w).2) :
    let first := (serveLines (Registry.builtin r s) budget before).run w
    let present := ((serveLines (Registry.builtin r s) budget (before ++ line :: after)).run w).1
    let absent := ((serveLines (Registry.builtin r s) budget (before ++ after)).run w).1
    (first.1.2 ≠ none ∧ present = absent) ∨
      (first.1.2 = none ∧ ∃ answers failure, absent = (first.1.1 ++ answers, failure) ∧
        present = (first.1.1 ++ answer :: answers, failure)) := by
  have hlog : ((serveLines (Registry.builtin r s) budget before).run w).2.HasLog :=
    hasLog_serveLines before hw
  simp only [run_serveLines_append]
  rcases hfirst : (serveLines (Registry.builtin r s) budget before).run w with ⟨⟨answers, _ | f⟩, w₁⟩
  all_goals rw [hfirst] at hlog hspares
  · -- the lines behind are served in the twin that the record makes
    have hafter := run_serveLines_twin (World.Twin.of_report hlog record) hspares
    refine Or.inr ⟨rfl, ((serveLines (Registry.builtin r s) budget after).run w₁).1.1,
      ((serveLines (Registry.builtin r s) budget after).run w₁).1.2, rfl, ?_⟩
    simp only [run_serveLines_cons, hline]
    exact congrArg (fun served => (answers ++ answer :: served.1, served.2)) hafter
  · exact Or.inl ⟨by simp, rfl⟩

end Server

/-! ## The log of a service -/

namespace Log

/-- A service starts in a world that has its log: the log that is opened for it has its file. -/
theorem hasLog_openJournal {s : LogSettings} {quiet : Bool} {logger time : Text} {w w' : World}
    {journal : Journal} (h : (openJournal s quiet logger time).exec w = (.ok journal, w')) :
    ({ w' with records := [], journal := some journal } : World).HasLog := by
  intro loc hloc
  replace hloc : journal.file = some loc := hloc
  cases exec_openJournal_ok_iff.mp h with
  | bare _ => cases hloc
  | filed _ hopen =>
    cases hloc
    obtain ⟨before, -, hview⟩ := view_openFile hopen
    exact ⟨before, hview⟩
  | unfiled _ _ => cases hloc

end Log

/-! ## The service -/

namespace CommandLine

open Server

/-- What is printed for answers. -/
def printedFor (answers : List Text) : List Text :=
  answers.map fun answer => answer ++ ("\n" : Text)

/-- How the service ends when the server has given these answers and failed in this way. -/
def endingOf : List Text × Option Failure → Ending
  | (answers, none) | (answers, some .interrupted) => .done (printedFor answers)
  | (answers, some e) => { Ending.ofFailure e with printed := printedFor answers }

/-- The service prints the answers of the server, and ends as the server does. -/
lemma ending_serve (settings : Settings) (input : Bytes) (w : World) :
    ((serve settings input).run w).1 =
      endingOf ((Server.serve (Registry.ofSettings settings) (inputText input)).run w).1 := by
  unfold serve
  rw [StateT.run_bind]
  rcases (Server.serve (Registry.ofSettings settings) (inputText input)).run w
    with ⟨⟨answers, _ | f⟩, w'⟩
  · rfl
  · cases f <;> rfl

/-- What is printed is the answers, however the service ends. -/
lemma printed_endingOf (answers : List Text) (failure : Option Failure) :
    (endingOf (answers, failure)).printed = printedFor answers := by
  unfold endingOf
  split <;> rename_i heq <;> cases heq <;> rfl

/-- Other answers are all that makes one ending differ from another with the same failure. -/
lemma endingOf_eq (answers others : List Text) (failure : Option Failure) :
    endingOf (answers, failure) =
      { endingOf (others, failure) with printed := printedFor answers } := by
  cases failure with
  | none => rfl
  | some e => cases e <;> rfl

/-- Lines that hold bytes that are not UTF-8 outside of strings are answered with `INVALID_JSON`,
and leave nothing but a record behind; no command is called for them.  The lines of an input are
those of its bytes, each decoded by itself, and a line that is UTF-8 is read as what it spells.  The
lines before and behind are answered as if the line were absent, as long as those behind do not ask
for what is in the file of the log, which has got the record; and if the service ends before it
comes to the line then it ends in the same way. -/
theorem serve_undecodable (settings : Settings) (w : World) (hw : w.HasLog) :
    let budget := w.host.stack.lines
    (∀ input, (inputText input).lines = (Utf8.lines input).map Utf8.decodeLossy) ∧
    (∀ line, ¬ Utf8.IsUndecodable line → Utf8.encodeAll (Utf8.decodeLossy line) = line) ∧
    (∀ line, Utf8.IsMisplaced line → ending? budget (Utf8.decodeLossy line) = none →
      Utf8.IsUndecodable line ∧ ∀ u,
        (respond (Registry.ofSettings settings) budget (Utf8.decodeLossy line)).exec u =
          (.ok (some invalidAnswer),
            u.report (invalidRecord (Utf8.decodeLossy line).strip.length))) ∧
    ∀ input without before line after, Utf8.lines input = before ++ line :: after →
      Utf8.lines without = before ++ after → Utf8.IsMisplaced line →
      ending? budget (Utf8.decodeLossy line) = none →
      let first := (serveLines (Registry.ofSettings settings) budget
        (before.map Utf8.decodeLossy)).run (startedAt (Registry.ofSettings settings) w)
      let ending := ((serve settings without).run w).1
      SparesLog (Resolver.create settings.docs) settings.tree budget (after.map Utf8.decodeLossy) first.2 →
      (first.1.2 ≠ none ∧ ((serve settings input).run w).1 = ending) ∨
      (first.1.2 = none ∧ ∃ answers, ending.printed = printedFor (first.1.1 ++ answers) ∧
        ((serve settings input).run w).1 =
          { ending with printed := printedFor (first.1.1 ++ invalidAnswer :: answers) }) := by
  intro budget
  have hroom : 1 < budget := w.host.stack.room
  refine ⟨lines_inputText, fun line hline => ?_, fun line hline hending =>
    ⟨hline.isUndecodable, exec_respond_misplaced _ hroom hline hending⟩, ?_⟩
  · cases hdecode : Utf8.decode line with
    | error m => exact absurd ⟨m, hdecode⟩ hline
    | ok t =>
      obtain ⟨hlossy, hspells⟩ := Utf8.decodeLossy_of_decode hdecode
      rw [hlossy, hspells]
  intro input without before line after hinput hwithout hline hending first ending hspares
  have hstarted : (startedAt (Registry.ofSettings settings) w).HasLog :=
    (isBlind_report _).keepsLog w hw
  have hserve (i : Bytes) (lines : List Text) (h : (Utf8.lines i).map Utf8.decodeLossy = lines) :
      ((serve settings i).run w).1 = endingOf ((serveLines (Registry.builtin
        (Resolver.create settings.docs) settings.tree) budget lines).run
          (startedAt (Registry.ofSettings settings) w)).1 := by
    rw [ending_serve, run_serve_eq, lines_inputText, h]
    rfl
  have hpresent := hserve input _ (by rw [hinput, List.map_append, List.map_cons])
  have habsent : ending = _ := hserve without _ (by rw [hwithout, List.map_append])
  rw [hpresent, habsent]
  rcases run_serveLines_absent hstarted (exec_respond_misplaced _ hroom hline hending) hspares with
    ⟨hended, hsame⟩ | ⟨hgoes, answers, failure, hothers, hall⟩
  · exact Or.inl ⟨hended, congrArg endingOf hsame⟩
  · rw [hothers, hall]
    exact Or.inr ⟨hgoes, answers, printed_endingOf _ _, endingOf_eq _ _ _⟩

/-- Settings of the samples. -/
def sampleSettings : Settings :=
  ⟨⟨Path.ofText "/c", [], [], Binary64.ofInt 30⟩, Settings.defaultTree, Settings.defaultLog⟩

/-- A world with nothing but a log that is open. -/
def sampleWorld : World :=
  { World.still (.directory [("l", .file [])]) fun _ => .interruption with
    journal := some ⟨loggerName, ⟨some .info, none⟩, .usual, some ["l"], [], []⟩ }

/-- Bytes that are no line of UTF-8. -/
def sampleGarbage : Bytes := [0xFF, 0xFE, 0x80]

/-- A request for a greeting, with the bytes of its argument. -/
def sampleGreeting (argument : Bytes) : Bytes :=
  Utf8.encodeAll "\x7b\"id\":1,\"method\":\"Hello\",\"args\":[\"" ++ argument ++
    Utf8.encodeAll "\"]\x7d"

/-- Garbage between two greetings is answered with `INVALID_JSON`, and the greetings are answered as
without it. -/
theorem serve_undecodable_sample :
    ∃ answers, ((serve sampleSettings (sampleGreeting [65] ++ [10] ++ sampleGreeting [66])).run
        sampleWorld).1.printed = printedFor answers ∧
      ((serve sampleSettings
        (sampleGreeting [65] ++ [10] ++ sampleGarbage ++ [10] ++ sampleGreeting [66])).run
          sampleWorld).1.printed =
        printedFor (answers.take 1 ++ invalidAnswer :: answers.drop 1) := by
  have hlog : sampleWorld.HasLog := by
    rintro loc ⟨⟩
    exact ⟨[], rfl⟩
  obtain ⟨-, -, -, habsent⟩ := serve_undecodable sampleSettings sampleWorld hlog
  have hspares : ∀ u, SparesLog (Resolver.create sampleSettings.docs) sampleSettings.tree
      sampleWorld.host.stack.lines ([sampleGreeting [66]].map Utf8.decodeLossy) u := by
    refine fun u => ⟨?_, trivial⟩
    rintro ⟨b, request, path, hrequest, hname, hreads, -⟩
    have hgreeting : (requestAt sampleWorld.host.stack.lines
        (Utf8.decodeLossy (sampleGreeting [66]))).map Request.method = some ("Hello" : Text) := by
      decide +kernel
    rw [hrequest, Option.map_some, ← hname, Option.some.injEq] at hgreeting
    cases b with
    | hello => cases hreads
    | getIndices | getPath | getFiles | openFile | writeFile =>
      exact absurd hgreeting (by decide +kernel)
  have hgoes : ((serveLines (Registry.ofSettings sampleSettings) sampleWorld.host.stack.lines
      ([sampleGreeting [65]].map Utf8.decodeLossy)).run
        (startedAt (Registry.ofSettings sampleSettings) sampleWorld)).1.2 = none := by
    decide +kernel
  have hfirst : ((serveLines (Registry.ofSettings sampleSettings) sampleWorld.host.stack.lines
      ([sampleGreeting [65]].map Utf8.decodeLossy)).run
        (startedAt (Registry.ofSettings sampleSettings) sampleWorld)).1.1.length = 1 := by
    decide +kernel
  have hinput : Utf8.lines (sampleGreeting [65] ++ [10] ++ sampleGarbage ++ [10] ++
      sampleGreeting [66]) = [sampleGreeting [65]] ++ sampleGarbage :: [sampleGreeting [66]] := by
    decide +kernel
  have hwithout : Utf8.lines (sampleGreeting [65] ++ [10] ++ sampleGreeting [66]) =
      [sampleGreeting [65]] ++ [sampleGreeting [66]] := by decide +kernel
  rcases habsent _ _ _ _ _ hinput hwithout (by decide +kernel) (by decide +kernel) (hspares _) with
    ⟨hended, -⟩ | ⟨-, answers, hothers, hall⟩
  · exact absurd hgoes hended
  · refine ⟨_, hothers, ?_⟩
    rw [hall, List.take_left' hfirst, List.drop_left' hfirst]

/-- A byte that is not UTF-8, as the only character of an argument, does not keep the command from
being called: it is called with the replacement character. -/
theorem serve_replaces_undecodable :
    ¬ ∀ (settings : Settings) (w : World) (line : Bytes), w.HasLog → Utf8.IsUndecodable line →
      ((serve settings line).run w).1.printed = printedFor [invalidAnswer] := by
  intro h
  have hlog : sampleWorld.HasLog := by
    rintro loc ⟨⟩
    exact ⟨[], rfl⟩
  have hundecodable : Utf8.IsUndecodable (sampleGreeting [0xFF]) := by
    have hnone : (Utf8.decode (sampleGreeting [0xFF])).toOption = none := by decide +kernel
    cases hdecode : Utf8.decode (sampleGreeting [0xFF]) with
    | error m => exact ⟨m, hdecode⟩
    | ok t =>
      rw [hdecode] at hnone
      cases hnone
  have hprinted : ((serve sampleSettings (sampleGreeting [0xFF])).run sampleWorld).1.printed =
      printedFor ["\x7b\"id\": 1, \"ok\": true, \"result\": \"\\ufffd\"\x7d"] := by decide +kernel
  have hinvalid := h sampleSettings sampleWorld _ hlog hundecodable
  rw [hprinted] at hinvalid
  exact absurd hinvalid (by decide +kernel)

end CommandLine

end EditorDocs
