import EditorDocs.Proofs.CommandLine.Printing
import EditorDocs.Proofs.CommandLine.Unset
import EditorDocs.Proofs.Result
import EditorDocs.Proofs.Server.Response

/-!
# Calls from the command line and from a host

A command of an editor is called by a request or from the command line.  Both dispatch the same call,
so they leave the same files behind, their logs apart, and ask for the same URLs
(`CommandLine.SameEffects`).  What the request is responded, the command line prints as an outcome
from which the value, or the kind and wording of a failure, is read back; and that a command is
unknown it tells the user in the same words (`CommandLine.call_agrees`).

The two do not write alike, though.  A response escapes what is no scalar value and may be nested as
deeply as a request; an outcome is printed as it is, so that a value with surrogates in its texts or
with too many levels breaks the command line, after the command has done its work
(`CommandLine.call_breaks`).
-/

namespace EditorDocs

open Json (Value)

/-! ## Requests -/

namespace Server

/-- The request that a host makes for a call. -/
def requestFor (id : Value) (name : Text) (args : List Text) : Value :=
  .object [("id", id), ("method", .string name), ("args", .list (args.map .string))]

/-- A request for a command with a name is read as the call that it is for. -/
lemma requestOf_requestFor (id : Value) {name : Text} (h : name ≠ []) (args : List Text) :
    requestOf (requestFor id name args) = .ok ⟨id, name, args⟩ :=
  requestOf_eq_ok_iff.mpr ⟨rfl, ⟨_, rfl⟩, rfl, h, Or.inr rfl⟩

end Server

namespace CommandLine

open Server (handle okResponse errorResponse requestFor)

/-! ## Effects -/

/-- The worlds hold the same files but for the log of the first one, and the same was asked for. -/
structure SameEffects (u w : World) : Prop where
  /-- The working directory is the same. -/
  home : w.files.home = u.files.home
  /-- The same stands everywhere but in the log. -/
  view : ∀ loc, u.logFile? ≠ some loc → w.files.view loc = u.files.view loc
  /-- The requests were the same. -/
  requests : w.requests = u.requests

/-- The log is closed without effect. -/
lemma SameEffects.close (w : World) : SameEffects w { w with journal := none } :=
  ⟨rfl, fun _ _ => rfl, rfl⟩

/-- A report before the log is closed has no effect but in the log. -/
lemma SameEffects.close_report (w : World) (r : Record) :
    SameEffects (w.report r) { w with journal := none } := by
  have hreported := World.reported_report w r
  refine ⟨hreported.home.symm, fun loc hloc => ?_, (World.requests_report w r).symm⟩
  rw [hreported.log] at hloc
  exact (hreported.view_of_ne hloc).symm

/-! ## Calls -/

/-- The world in which a command works whose log was just opened. -/
def openedAt (journal : Log.Journal) (w : World) : World :=
  { w with records := [], journal := some journal }

/-- How a command line ends whose call goes like this. -/
def endingOfCall : Except Failure Outcome → Ending
  | .ok outcome => outcomeEnding outcome
  | .error e@(.unknownCommand _ _) => .failed 1 (("Error: " : Text) ++ e.message)
  | .error e => .ofFailure e

/-- What was printed on the console when a command ends. -/
def shownIn (w : World) : Text :=
  match w.journal with
  | some j => j.shown
  | none => []

/-- A call ends as it goes. -/
lemma call_apply (settings : Settings) (name : Text) (args : List Text) (w : World) :
    call settings name args w =
      (endingOfCall (((Registry.ofSettings settings).dispatch name args).exec w).1,
        (((Registry.ofSettings settings).dispatch name args).exec w).2) := by
  have hrun : ((Registry.ofSettings settings).dispatch name args).run w =
      ((Registry.ofSettings settings).dispatch name args).exec w := rfl
  unfold call
  rw [bind_apply, hrun]
  rcases ((Registry.ofSettings settings).dispatch name args).exec w with ⟨e | outcome, w'⟩
  · cases e <;> rfl
  · rfl

/-- A command with a log works in the world in which it was opened, and the log is closed. -/
lemma withLog_apply {s : Setting} {settings : Settings} {w w' : World} {journal : Log.Journal}
    (hopen : (Log.openJournal settings.log false loggerName s.time).exec w = (.ok journal, w'))
    (work : StateM World Ending) :
    withLog s settings work w =
      ((work (openedAt journal w')).1.after (shownIn (work (openedAt journal w')).2),
        { (work (openedAt journal w')).2 with journal := none }) := by
  have hrun : (Log.openJournal settings.log false loggerName s.time).run w = (.ok journal, w') :=
    hopen
  unfold withLog
  rw [bind_apply, hrun]
  rfl

/-- A call from the command line ends as it goes, and the log is closed. -/
lemma run_call {s : Setting} {file : Option Text} {name : Text} {args : List Text} {input : Bytes}
    {w w₁ w₂ w₃ : World} {settings : Settings} {journal : Log.Journal}
    {x : Except Failure Outcome} (hfile : Logged.IsThere file w)
    (hload : (Config.load s.temporary s.environment (file.map Path.ofText)
      Logged.serve.data).exec w = (.ok (.valid settings), w₁))
    (hopen : (Log.openJournal settings.log false loggerName s.time).exec w₁ = (.ok journal, w₂))
    (hdispatch : ((Registry.ofSettings settings).dispatch name args).exec (openedAt journal w₂) =
      (x, w₃)) :
    run s ((Logged.call name args).line file) input w =
      (((endingOfCall x).after (shownIn w₃)).final, { w₃ with journal := none }) := by
  have hpassable : (Logged.call name args).IsPassable := trivial
  have hwork := withSettings_ok hload (.call name args) input
  have hcall := call_apply settings name args (openedAt journal w₂)
  rw [hdispatch] at hcall
  rw [Logged.runUnder, withLog_apply hopen, Logged.work, hcall] at hwork
  rw [Logged.run_line hpassable hfile]
  exact congrArg (fun done : Ending × World => (done.1.final, done.2)) hwork

/-! ## What the user is told -/

/-- The command line tells the user what a host is responded. -/
structure Tells (id response : Value) (ending : Ending) : Prop where
  /-- A value is printed within its outcome if it fits, and breaks the command line otherwise. -/
  value : ∀ v, response = okResponse id v →
    (Fits v → ending.Prints 0 (.completed v)) ∧ (¬ Fits v → ending.Breaks)
  /-- A failure of a command is printed as an outcome if its wording holds no surrogates, and breaks
  the command line otherwise. -/
  failure : ∀ kind message, kind ∉ Server.kinds → response = errorResponse id kind message →
    (message.IsScalar → ending.Prints 1 (.failed kind message)) ∧
      (¬ message.IsScalar → ending.Breaks)
  /-- That a command is unknown is told in the same words. -/
  unknown : ∀ message, response = errorResponse id "UNKNOWN_COMMAND" message →
    ending.code = 1 ∧ ending.printed = [] ∧
      ∃ shown, ending.errors = shown ++ (("Error: " : Text) ++ message ++ "\n")

section

variable {id : Value}

/-- Responses that are the same have the same kind and the same wording. -/
lemma errorResponse_inj {kind kind' message message' : Text}
    (h : errorResponse id kind message = errorResponse id kind' message') :
    kind = kind' ∧ message = message' := by
  simpa [errorResponse] using h

/-- A value is responded otherwise than a failure. -/
lemma errorResponse_ne_okResponse {kind message : Text} {v : Value} :
    errorResponse id kind message ≠ okResponse id v := by
  simp [errorResponse, okResponse]

/-- A text without surrogates is shown as it is. -/
lemma escapeSurrogates_append {shown t : Text} (h : t.IsScalar) :
    escapeSurrogates (shown ++ t) = escapeSurrogates shown ++ t := by
  have hself : escapeSurrogates t = t := by
    unfold escapeSurrogates
    induction t with
    | nil => rfl
    | cons c t ih =>
      obtain ⟨hc, ht⟩ := List.forall_mem_cons.mp h
      rw [List.flatMap_cons, hc, ih ht]
      rfl
  rw [escapeSurrogates, List.flatMap_append]
  exact congrArg (escapeSurrogates shown ++ ·) hself

/-- A response of a kind that is the server's own says nothing about a command unless it says that
there is none. -/
lemma tells_of_kind {kind message : Text} (hkind : kind ∈ Server.kinds)
    (hunknown : kind ≠ "UNKNOWN_COMMAND") (ending : Ending) :
    Tells id (errorResponse id kind message) ending where
  value v h := absurd h errorResponse_ne_okResponse
  failure kind' message' hother h := by
    obtain ⟨rfl, -⟩ := errorResponse_inj h
    exact absurd hkind hother
  unknown message' h := absurd (errorResponse_inj h).1 hunknown

/-- That a command is unknown is told. -/
lemma tells_unknown {e : Failure} (he : e.message.IsScalar) (shown : Text) :
    Tells id (errorResponse id "UNKNOWN_COMMAND" e.message)
      ((Ending.failed 1 (("Error: " : Text) ++ e.message)).after shown).final where
  value v h := absurd h errorResponse_ne_okResponse
  failure kind' message' hother h := by
    obtain ⟨rfl, -⟩ := errorResponse_inj h
    exact absurd (by decide) hother
  unknown message' h := by
    obtain ⟨-, rfl⟩ := errorResponse_inj h
    have hscalar : Text.IsScalar (("Error: " : Text) ++ e.message ++ "\n") :=
      Text.IsScalar.append (Text.IsScalar.append (by decide) he) (by decide)
    exact ⟨rfl, rfl, escapeSurrogates shown, escapeSurrogates_append hscalar⟩

/-- The outcome of a call is told. -/
lemma tells_outcome {outcome : Outcome} (h : outcome.IsNative) (shown : Text) :
    Tells id (Server.responseOf id outcome) ((outcomeEnding outcome).after shown).final := by
  cases h with
  | @completed v hplain =>
    refine ⟨fun v' hv => ?_, fun kind message _ hv => ?_, fun message hv => ?_⟩
    · obtain rfl : v = v' := by simpa [Server.responseOf, okResponse] using hv
      exact ending_completed hplain shown
    · exact absurd hv.symm errorResponse_ne_okResponse
    · exact absurd hv.symm errorResponse_ne_okResponse
  | @failed e he =>
    obtain ⟨hkind, hscalar⟩ := he.kind_notMem
    have hresponse : Server.responseOf id (.ofFailure e) = errorResponse id e.kind e.message := by
      have hnamed : e.kind.isEmpty = false := by
        cases hempty : e.kind with
        | nil => exact absurd hempty e.kind_ne_nil
        | cons c t => rfl
      rw [Outcome.ofFailure, Server.responseOf, hnamed, if_neg Bool.false_ne_true]
    rw [hresponse]
    refine ⟨fun v hv => absurd hv errorResponse_ne_okResponse, fun kind message _ hv => ?_,
      fun message hv => ?_⟩
    · obtain ⟨rfl, rfl⟩ := errorResponse_inj hv
      exact ending_failed hscalar shown
    · exact absurd (by rw [(errorResponse_inj hv).1]; decide) hkind

end

/-- What is said of a command that is not there holds no surrogates if the name does not. -/
lemma isScalar_unknownCommand {name : Text} (h : name.IsScalar) (settings : Settings) :
    (Failure.unknownCommand name (Registry.ofSettings settings).commands.keys).message.IsScalar := by
  have hkeys : Text.IsScalar (Text.join ", " (Registry.ofSettings settings).commands.keys) := by
    change Text.IsScalar (Text.join ", "
      ["Hello", "GetIndices", "GetPath", "GetFiles", "OpenFile", "WriteFile"])
    decide
  have hstart : Text.IsScalar (("Command '" : Text) ++ name) := Text.IsScalar.append (by decide) h
  exact (hstart.append (by decide)).append hkeys

/-- A call goes the same way whether a host asks for it or the user.  In the world in which the
settings were loaded and the log was opened, the response to a request and the call from the command
line leave the same files, their logs apart, and ask for the same URLs.  The command line tells the
user what the host is responded: a value with code zero in an outcome from which it is read back, a
failure of a command with code one in an outcome from which its kind and wording are read back, and
that a command is unknown with code one in the same words.  Only what does not fit into an outcome
that is printed breaks the command line; and if the user interrupts the call, there is no response. -/
theorem call_agrees (s : Setting) (file : Option Text) (name : Text) (args : List Text)
    (input : Bytes) (id : Value) {w w₁ w₂ : World} {settings : Settings} {journal : Log.Journal}
    (hname : name.IsScalar) (hfile : Logged.IsThere file w)
    (hload : (Config.load s.temporary s.environment (file.map Path.ofText)
      Logged.serve.data).exec w = (.ok (.valid settings), w₁))
    (hopen : (Log.openJournal settings.log false loggerName s.time).exec w₁ = (.ok journal, w₂)) :
    ∃ ending w', run s ((Logged.call name args).line file) input w = (ending, w') ∧
      ((∃ u, (handle (Registry.ofSettings settings) (requestFor id name args)).exec
          (openedAt journal w₂) = (.error .interrupted, u) ∧
        SameEffects u w' ∧ ending.code = 1 ∧ ending.printed = []) ∨
      ∃ response u, (handle (Registry.ofSettings settings) (requestFor id name args)).exec
          (openedAt journal w₂) = (.ok response, u) ∧
        SameEffects u w' ∧ Tells id response ending) := by
  obtain ⟨x, w₃, hdispatch, hx⟩ := Builtin.isNative_dispatch (Resolver.create settings.docs)
    settings.tree name args (openedAt journal w₂)
  refine ⟨_, _, run_call hfile hload hopen hdispatch, ?_⟩
  by_cases hempty : name = []
  · -- the host is refused before anything is called, and the user finds no such command
    subst hempty
    have hunknown : ((Registry.builtin (Resolver.create settings.docs) settings.tree).dispatch []
        args).exec (openedAt journal w₂) = (.error (.unknownCommand [] _), openedAt journal w₂) := rfl
    rw [hdispatch] at hunknown
    cases hunknown
    refine Or.inr ⟨_, openedAt journal w₂, rfl, .close _, ?_⟩
    exact tells_of_kind (by decide) (by decide) _
  have hrequest := Server.requestOf_requestFor id hempty args
  by_cases hinterrupted : x = .error .interrupted
  · subst hinterrupted
    exact Or.inl ⟨w₃, Server.exec_handle_interrupted hrequest hdispatch, .close w₃, rfl, rfl⟩
  have htells : Tells id (Server.settle ⟨id, name, args⟩ x)
      ((endingOfCall x).after (shownIn w₃)).final := by
    rcases hx with rfl | ⟨outcome, rfl, hnative⟩ | ⟨e, rfl, hnative⟩
    · exact tells_unknown (isScalar_unknownCommand hname settings) _
    · exact tells_outcome hnative _
    · cases e with
      | interrupted => exact absurd rfl hinterrupted
      | unknownCommand => exact hnative.elim
      | _ => exact tells_of_kind (by decide) (by decide) _
  -- a failure that no command answers for is reported once more when a host asks
  obtain ⟨u, hexec, rfl | ⟨record, rfl⟩⟩ :=
    Server.exec_handle_request hrequest hdispatch hinterrupted
  · exact Or.inr ⟨_, _, hexec, .close u, htells⟩
  · exact Or.inr ⟨_, _, hexec, .close_report w₃ record, htells⟩

/-- A world whose only file is a configuration without a log file. -/
def configuredWorld : World :=
  World.still (.directory [("c", .file (Utf8.encodeAll "logging: \x7bfile: null\x7d"))])
    fun _ => .interruption

/-- A greeting is printed as it is responded. -/
theorem call_agrees_sample :
    (run bareSetting (greetingCall.line (some "c")) [] configuredWorld).1.Prints 0
      (.completed (.string "a")) := by
  have hvalid : (((Config.load bareSetting.temporary bareSetting.environment
      (some (Path.ofText "c")) Logged.serve.data).exec configuredWorld).1.toOption.bind
        Config.Checked.value?).map (fun settings => settings.log.file) = some none := by
    decide +kernel
  have hfile : Logged.IsThere (some "c") configuredWorld := by
    rintro t ⟨⟩
    decide +kernel
  rcases hload : (Config.load bareSetting.temporary bareSetting.environment
    (some (Path.ofText "c")) Logged.serve.data).exec configuredWorld with ⟨e | settings | ps, w₁⟩
  · rw [hload] at hvalid
    cases hvalid
  · rw [hload] at hvalid
    have hlog : settings.log.file = none := Option.some.inj hvalid
    obtain ⟨journal, hopen⟩ : ∃ journal, (Log.openJournal settings.log false loggerName
        bareSetting.time).exec w₁ = (.ok journal, w₁) := by
      unfold Log.openJournal
      rw [hlog]
      exact ⟨_, rfl⟩
    obtain ⟨u, hresponse⟩ : ∃ u, (handle (Registry.ofSettings settings)
        (requestFor .null "Hello" ["a"])).exec (openedAt journal w₁) =
          (.ok (okResponse .null (.string "a")), u) := ⟨_, rfl⟩
    obtain ⟨ending, w', hrun, h⟩ := call_agrees bareSetting (some "c") "Hello" ["a"] [] .null
      (by decide) hfile hload hopen
    have hline : run bareSetting (greetingCall.line (some "c")) [] configuredWorld = (ending, w') :=
      hrun
    rw [hline]
    rcases h with ⟨u', hinterrupted, -⟩ | ⟨response, u', hexec, -, htells⟩
    · rw [hresponse] at hinterrupted
      cases hinterrupted
    · rw [hresponse] at hexec
      cases hexec
      exact (htells.value _ rfl).1 ⟨rfl, by decide⟩
  · rw [hload] at hvalid
    cases hvalid

/-- A directory with so many others in it, one in the other. -/
def nested : Nat → FileSystem.Node
  | 0 => .directory []
  | n + 1 => .directory [("d", nested n)]

/-- A world in which directories are nested. -/
def nestedWorld : World := World.still (nested 127) fun _ => .interruption

/-- The response says that all went well. -/
def saysWell (response : Value) : Bool :=
  match response.member? "ok" with
  | some (.bool b) => b
  | _ => false

/-- The tree of nested directories is responded to a host, and breaks the command line. -/
theorem call_breaks :
    (∃ settings response u,
      ((Config.load bareSetting.temporary bareSetting.environment none
        Logged.serve.data).exec nestedWorld).1 = .ok (.valid settings) ∧
      (handle (Registry.ofSettings settings) (requestFor .null "GetFiles" ["."])).exec nestedWorld =
        (.ok response, u) ∧ saysWell response = true) ∧
    (run bareSetting ((Logged.call "GetFiles" ["."]).line none) [] nestedWorld).1.code = 1 := by
  constructor
  · have hwell : (((Config.load bareSetting.temporary bareSetting.environment none
        Logged.serve.data).exec nestedWorld).1.toOption.bind Config.Checked.value?).map
          (fun settings => ((handle (Registry.ofSettings settings)
            (requestFor .null "GetFiles" ["."])).exec nestedWorld).1.toOption.map saysWell) =
              some (some true) := by
      decide +kernel
    obtain ⟨settings, hsettings, hresponse⟩ := Option.map_eq_some_iff.mp hwell
    obtain ⟨response, hhandle, hsays⟩ := Option.map_eq_some_iff.mp hresponse
    obtain ⟨checked, hload, hvalid⟩ := Option.bind_eq_some_iff.mp hsettings
    refine ⟨settings, response, _, ?_, Action.exec_eq (Result.of_toOption hhandle), hsays⟩
    rw [Result.of_toOption hload, Config.Checked.value?_eq_some.mp hvalid]
  · decide +kernel

end CommandLine

end EditorDocs
