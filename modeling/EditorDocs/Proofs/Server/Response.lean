import EditorDocs.Proofs.Command.Call
import EditorDocs.Proofs.Json.Line
import EditorDocs.Server

/-!
# What is responded

Every payload is responded to, with the id that it holds.  A payload asks for a call or does not
(`Server.Asks`), the command is there or is not, it takes the arguments or does not, and executing it
gives a value or a failure (`Server.Executes`).  `Server.Responds` has one case for each way in which
this can go, and one of them is what happens (`Server.exec_handle_either`): a value is responded as such
and nothing else is, and a failure under its own kind if it is the caller's business.

A response is written as a line if its id can be written, be it only to say that the rest cannot
(`Server.exec_encode`).  Its id is that of the payload, so a payload that came from a line gets a line.
-/

namespace EditorDocs

open Json (Value)

namespace Server

/-! ## Requests -/

/-- The payload asks for a call: it is an object that names a command and gives a list of texts as
arguments, or none. -/
structure Asks (payload : Value) (method : Text) (args : List Text) : Prop where
  /-- The payload is an object. -/
  object : ∃ members, payload = .object members
  /-- It names the command. -/
  names : payload.member? "method" = some (.string method)
  /-- The name is not empty. -/
  named : method ≠ []
  /-- The arguments are texts. -/
  gives : payload.member? "args" = none ∧ args = [] ∨
    payload.member? "args" = some (.list (args.map .string))

/-- The arguments of a payload are none if it does not mention them, and texts in a list otherwise. -/
lemma argsOf_eq_some_iff {payload : Value} {args : List Text} :
    argsOf payload = some args ↔ payload.member? "args" = none ∧ args = [] ∨
      payload.member? "args" = some (.list (args.map .string)) := by
  unfold argsOf
  split
  · rename_i hnone
    simp [hnone, eq_comm]
  · rename_i items hitems
    simp [hitems, Json.mapM_text?_eq_some_iff]
  · rename_i v hlist hv
    have hother : ∀ items, payload.member? "args" ≠ some (.list items) := fun items h =>
      hlist items (Option.some.inj (hv.symm.trans h))
    have hthere : payload.member? "args" ≠ none := by
      rw [hv]
      exact Option.some_ne_none v
    simp [hother, hthere]

/-- What is read under a name and is not null is a member. -/
lemma member?_of_memberOrNull {name : Text} {payload v : Value} (h : memberOrNull name payload = v)
    (hv : v ≠ .null) : payload.member? name = some v := by
  unfold memberOrNull at h
  cases hmember : payload.member? name with
  | none =>
    rw [hmember] at h
    exact absurd h.symm hv
  | some v' =>
    rw [hmember] at h
    exact congrArg some h

/-- A payload is a request if and only if it asks for a call. -/
lemma requestOf_eq_ok_iff {payload : Value} {request : Request} :
    requestOf payload = .ok request ↔ request.id = memberOrNull "id" payload ∧
      Asks payload request.method request.args := by
  constructor
  · intro h
    unfold requestOf at h
    split at h
    · rename_i members
      simp only at h
      split at h
      · rename_i c method hmethod
        have hnames := member?_of_memberOrNull hmethod (by simp)
        split at h
        · rename_i args hargs
          cases h
          exact ⟨rfl, ⟨members, rfl⟩, hnames, List.cons_ne_nil c method, argsOf_eq_some_iff.mp hargs⟩
        · cases h
      · cases h
    · cases h
  · obtain ⟨id, method, args⟩ := request
    rintro ⟨rfl, ⟨members, rfl⟩, hnames, hnamed, hgives⟩
    obtain ⟨c, rest, rfl⟩ := List.exists_cons_of_ne_nil hnamed
    have hmethod : memberOrNull "method" (.object members) = .string (c :: rest) := by
      rw [memberOrNull, hnames]
      rfl
    unfold requestOf
    simp only [hmethod, argsOf_eq_some_iff.mpr hgives]

/-- A payload that is no request is responded to as such. -/
lemma requestOf_eq_error {payload response : Value} (h : requestOf payload = .error response) :
    ∃ message, response = errorResponse (memberOrNull "id" payload) "INVALID_REQUEST" message := by
  unfold requestOf at h
  split at h
  · simp only at h
    split at h
    · split at h
      · cases h
      · cases h
        exact ⟨_, rfl⟩
    · cases h
      exact ⟨_, rfl⟩
  · rename_i hobject
    have hid : memberOrNull "id" payload = .null := by
      cases payload with
      | object members => exact absurd rfl (hobject members)
      | _ => rfl
    cases h
    rw [hid]
    exact ⟨_, rfl⟩

/-! ## Executing what is asked for -/

/-- The payload asks for a call of a command that is there and takes the arguments, and this is what
executing it gives. -/
inductive Executes (r : Registry) (payload : Value) (w : World) (method : Text)
    (result : Except Failure Value) : Prop where
  /-- The call is what the command does with the arguments. -/
  | intro {args : List Text} {c : Command} (asks : Asks payload method args)
      (registered : r.commands.get? method = some c) (accepts : c.accepts args.length = true)
      (gives : ((c.execute args).exec (Registry.dispatchedAt method args w)).1 = result)

/-- The response to a payload in a world. -/
inductive Responds (r : Registry) (payload : Value) (w : World) : (response : Value) → Prop where
  /-- The payload does not ask for a call. -/
  | invalid {message} (h : ∀ method args, ¬ Asks payload method args) :
      Responds r payload w (errorResponse (memberOrNull "id" payload) "INVALID_REQUEST" message)
  /-- There is no command of the name. -/
  | unknown {method args} (h : Asks payload method args) (hget : r.commands.get? method = none) :
      Responds r payload w (errorResponse (memberOrNull "id" payload) "UNKNOWN_COMMAND"
        (Failure.unknownCommand method r.commands.keys).message)
  /-- The command does not take so many arguments. -/
  | arity {method args c} (h : Asks payload method args) (hget : r.commands.get? method = some c)
      (hcount : c.accepts args.length = false) :
      Responds r payload w (errorResponse (memberOrNull "id" payload) "ArgumentCountError"
        (Failure.argumentCount c.name c.expected args.length).message)
  /-- The command has returned a value. -/
  | returned {method v} (h : Executes r payload w method (.ok v)) :
      Responds r payload w (okResponse (memberOrNull "id" payload) v)
  /-- The command has failed in a way that is the caller's business. -/
  | answered {method e} (h : Executes r payload w method (.error e))
      (hanswer : Command.isAnswer e = true) :
      Responds r payload w (errorResponse (memberOrNull "id" payload) e.kind e.message)
  /-- The command has failed because it has not found a command itself. -/
  | notFound {method name available}
      (h : Executes r payload w method (.error (.unknownCommand name available))) :
      Responds r payload w (errorResponse (memberOrNull "id" payload) "UNKNOWN_COMMAND"
        (Failure.unknownCommand name available).message)
  /-- The command has failed in any other way. -/
  | internal {method e} (h : Executes r payload w method (.error e))
      (hanswer : Command.isAnswer e = false)
      (hfound : ∀ name available, e ≠ .unknownCommand name available) :
      Responds r payload w (errorResponse (memberOrNull "id" payload) "INTERNAL_ERROR"
        (("Unhandled error while executing " : Text) ++ method ++ ": " ++ e.message))

/-- The response to a request whose call gives an outcome or ends in a failure. -/
def settle (request : Request) : Except Failure Outcome → Value
  | .ok outcome => responseOf request.id outcome
  | .error (.unknownCommand name available) =>
    errorResponse request.id "UNKNOWN_COMMAND" (Failure.unknownCommand name available).message
  | .error e => errorResponse request.id "INTERNAL_ERROR"
    (("Unhandled error while executing " : Text) ++ request.method ++ ": " ++ e.message)

/-- A call is responded to unless the user has interrupted it, with a report if its failure is nobody's
business but the server's. -/
lemma exec_handle_request {r : Registry} {payload : Value} {request : Request}
    (hrequest : requestOf payload = .ok request) {x : Except Failure Outcome} {w w' : World}
    (hdispatch : (r.dispatch request.method request.args).exec w = (x, w'))
    (hcalm : x ≠ .error .interrupted) :
    ∃ w'', (handle r payload).exec w = (.ok (settle request x), w'') ∧
      (w'' = w' ∨ ∃ record, w'' = w'.report record) := by
  unfold handle
  rw [hrequest]
  simp only
  rw [Action.exec_tryCatch, Action.exec_bind, hdispatch]
  cases x with
  | ok outcome => exact ⟨w', rfl, Or.inl rfl⟩
  | error e =>
    cases e with
    | interrupted => exact absurd rfl hcalm
    | unknownCommand name available => exact ⟨w', rfl, Or.inl rfl⟩
    | _ => exact ⟨_, rfl, Or.inr ⟨_, rfl⟩⟩

/-- A call that the user has interrupted is not responded to. -/
lemma exec_handle_interrupted {r : Registry} {payload : Value} {request : Request}
    (hrequest : requestOf payload = .ok request) {w w' : World}
    (hdispatch : (r.dispatch request.method request.args).exec w = (.error .interrupted, w')) :
    (handle r payload).exec w = (.error .interrupted, w') := by
  unfold handle
  rw [hrequest]
  simp only
  rw [Action.exec_tryCatch, Action.exec_bind, hdispatch]
  rfl

/-- A failure of a command is responded to in one of three cases. -/
lemma Responds.of_error {r : Registry} {payload : Value} {w : World} {method : Text}
    {args : List Text} {e : Failure} (h : Executes r payload w method (.error e)) :
    Responds r payload w (settle ⟨memberOrNull "id" payload, method, args⟩
      (if Command.isAnswer e then .ok (.ofFailure e) else .error e)) := by
  cases hanswer : Command.isAnswer e with
  | true =>
    have hkind : (if e.kind.isEmpty then ("CommandError" : Text) else e.kind) = e.kind :=
      if_neg (by simpa using e.kind_ne_nil)
    have hanswered := Responds.answered h hanswer
    rw [← hkind] at hanswered
    exact hanswered
  | false =>
    rw [if_neg Bool.false_ne_true, settle.eq_def]
    split
    · rename_i hok
      cases hok
    · rename_i name available he
      cases he
      exact .notFound h
    · rename_i e' hfound he
      cases he
      exact .internal h hanswer fun name available he => hfound name available (by rw [he])

/-- One of the cases is what happens to a payload, unless the user interrupts the call that it asks
for. -/
lemma exec_handle_either (r : Registry) (payload : Value) (w : World) :
    (∃ method args w', (r.dispatch method args).exec w = (.error .interrupted, w') ∧
      (handle r payload).exec w = (.error .interrupted, w')) ∨
    ∃ response w', (handle r payload).exec w = (.ok response, w') ∧
      Responds r payload w response := by
  cases hrequest : requestOf payload with
  | error response =>
    obtain ⟨message, rfl⟩ := requestOf_eq_error hrequest
    have hasks : ∀ method args, ¬ Asks payload method args := by
      intro method args h
      have hok : requestOf payload = .ok ⟨memberOrNull "id" payload, method, args⟩ :=
        requestOf_eq_ok_iff.mpr ⟨rfl, h⟩
      rw [hrequest] at hok
      cases hok
    refine Or.inr ⟨errorResponse (memberOrNull "id" payload) "INVALID_REQUEST" message, w, ?_,
      .invalid hasks⟩
    rw [handle, hrequest]
    rfl
  | ok request =>
    obtain ⟨hid, hasks⟩ := requestOf_eq_ok_iff.mp hrequest
    obtain ⟨w', hdispatch⟩ := r.exec_dispatch request.method request.args w
    by_cases hinterrupted :
        ((r.dispatch request.method request.args).exec w).1 = .error .interrupted
    · have hstopped := Action.exec_eq hinterrupted
      exact Or.inl ⟨_, _, _, hstopped, exec_handle_interrupted hrequest hstopped⟩
    rw [hdispatch] at hinterrupted
    obtain ⟨w'', hexec, -⟩ := exec_handle_request hrequest hdispatch hinterrupted
    refine Or.inr ⟨_, w'', hexec, ?_⟩
    obtain ⟨id, method, args⟩ := request
    obtain rfl : id = memberOrNull "id" payload := hid
    cases hget : r.commands.get? method with
    | none => exact .unknown hasks hget
    | some c =>
      simp only
      cases haccepts : c.accepts args.length with
      | false =>
        have hrefused : ((c.evaluate args).exec (Registry.dispatchedAt method args w)).1 =
            .error (.argumentCount c.name c.expected args.length) := by
          rw [Command.evaluate, haccepts]
          rfl
        rw [hrefused]
        exact .arity hasks hget haccepts
      | true =>
        have hevaluate : c.evaluate args = c.execute args := by
          rw [Command.evaluate, haccepts, if_pos rfl]
        rw [hevaluate]
        cases hx : ((c.execute args).exec (Registry.dispatchedAt method args w)).1 with
        | ok v => exact .returned (.intro hasks hget haccepts hx)
        | error e => exact .of_error (.intro hasks hget haccepts hx)

/-- One of the cases is what happens to a payload if the commands are calm. -/
lemma exec_handle_cases {r : Registry} (hr : r.IsCalm) (payload : Value) (w : World) :
    ∃ response w', (handle r payload).exec w = (.ok response, w') ∧ Responds r payload w response := by
  rcases exec_handle_either r payload w with ⟨method, args, w', hdispatch, -⟩ | h
  · have hcalm := Registry.isCalm_dispatch hr method args w
    rw [hdispatch] at hcalm
    exact absurd rfl hcalm
  · exact h

/-! ## The members of a response -/

section Members

variable {r : Registry} {payload response : Value} {w : World}

/-- A payload asks for one call. -/
lemma Asks.unique {method method' : Text} {args args' : List Text} (h : Asks payload method args)
    (h' : Asks payload method' args') : method = method' ∧ args = args' := by
  have hrequest : requestOf payload = .ok ⟨memberOrNull "id" payload, method, args⟩ :=
    requestOf_eq_ok_iff.mpr ⟨rfl, h⟩
  have hrequest' : requestOf payload = .ok ⟨memberOrNull "id" payload, method', args'⟩ :=
    requestOf_eq_ok_iff.mpr ⟨rfl, h'⟩
  rw [hrequest] at hrequest'
  cases hrequest'
  exact ⟨rfl, rfl⟩

/-- Executing what a payload asks for gives one result. -/
lemma Executes.unique {method method' : Text} {x x' : Except Failure Value}
    (h : Executes r payload w method x) (h' : Executes r payload w method' x') : x = x' := by
  obtain ⟨asks, registered, -, gives⟩ := h
  obtain ⟨asks', registered', -, gives'⟩ := h'
  obtain ⟨rfl, rfl⟩ := asks.unique asks'
  cases registered.symm.trans registered'
  exact gives.symm.trans gives'

/-- The response has the id of the payload. -/
lemma Responds.id (h : Responds r payload w response) :
    response.member? "id" = some (memberOrNull "id" payload) := by
  cases h <;> rfl

/-- A value that a command has returned is responded. -/
lemma Responds.eq_okResponse (h : Responds r payload w response) {method : Text} {v : Value}
    (hx : Executes r payload w method (.ok v)) :
    response = okResponse (memberOrNull "id" payload) v := by
  have ⟨asks, registered, accepts, gives⟩ := hx
  cases h with
  | invalid hnone => exact absurd asks (hnone _ _)
  | unknown asks' hget =>
    obtain ⟨rfl, rfl⟩ := asks.unique asks'
    cases registered.symm.trans hget
  | arity asks' hget hcount =>
    obtain ⟨rfl, rfl⟩ := asks.unique asks'
    cases registered.symm.trans hget
    cases accepts.symm.trans hcount
  | returned hx' =>
    cases hx.unique hx'
    rfl
  | answered hx' hanswer => cases hx.unique hx'
  | notFound hx' => cases hx.unique hx'
  | internal hx' hanswer hfound => cases hx.unique hx'

/-- Nothing but a value that a command has returned is responded as one. -/
lemma Responds.exists_of_ok (h : Responds r payload w response)
    (hok : response.member? "ok" = some (.bool true)) :
    ∃ method v, Executes r payload w method (.ok v) := by
  cases h with
  | returned hx => exact ⟨_, _, hx⟩
  | _ => cases hok

end Members

/-! ## Writing a response -/

/-- The id of the response can be written in it. -/
def HasId (budget : Nat) (response : Value) : Prop :=
  (memberOrNull "id" response).fault? (budget - 1) = none

section

variable {budget : Nat}

/-- With such an id the response that tells a failure can be written. -/
lemma fault?_errorResponse (hroom : 1 < budget) {id : Value} (h : id.fault? (budget - 1) = none)
    (kind message : Text) : (errorResponse id kind message).fault? budget = none := by
  obtain ⟨inner, rfl⟩ := Nat.exists_eq_add_of_le' hroom
  refine Json.faultMembers?_eq_none_iff.mpr ?_
  intro m hm
  simp only [List.mem_cons, List.not_mem_nil, or_false] at hm
  rcases hm with rfl | rfl | rfl
  · exact h
  · rfl
  · rfl

/-- The id that a payload from a line holds can be written in a response. -/
lemma fault?_id {payload : Value} (h : payload.fault? budget = none) :
    (memberOrNull "id" payload).fault? (budget - 1) = none := by
  cases payload with
  | object members =>
    cases budget with
    | zero => cases h
    | succ inner =>
      have hmembers : ∀ m ∈ members, m.2.fault? inner = none :=
        Json.faultMembers?_eq_none_iff.mp h
      unfold memberOrNull Value.member?
      simp only
      cases hget : Table.get? ("id" : Text) members with
      | none => rfl
      | some id => exact hmembers _ (Table.mem_of_get? hget)
  | _ => rfl

/-- The response to a payload from a line has an id that can be written. -/
lemma Responds.hasId {r : Registry} {payload response : Value} {w : World}
    (hresponds : Responds r payload w response) (h : payload.fault? budget = none) :
    HasId budget response := by
  rw [HasId, memberOrNull, hresponds.id]
  exact fault?_id h

end

/-- The record that the response under an id cannot be written. -/
def encodeFailed (id : Value) (fault : Json.WriteFault) : Record :=
  ⟨.error, "server.encode_failed", Context.bind [("component", .string "stdio_server")]
    [("request_id", id), ("error", .string fault.failure.message),
      ("error_type", .string fault.failure.kind)], none⟩

/-- What is written in place of the response. -/
def standIn (id : Value) (fault : Json.WriteFault) : Value :=
  errorResponse id "INTERNAL_ERROR"
    (("Response could not be encoded: " : Text) ++ fault.failure.kind)

/-- The record can be rendered for a console exactly if the id can, since its other values are texts. -/
lemma consoleFault?_encodeFailed (budget : Nat) (logger time : Text) (id : Value)
    (fault : Json.WriteFault) :
    Log.consoleFault? budget (Log.Emission.fields ⟨logger, encodeFailed id fault, false⟩ time) =
      Log.valueFault? budget id := by
  have hvalues : Log.consoleValues
      (Log.Emission.fields ⟨logger, encodeFailed id fault, false⟩ time) =
      [.string time, .string "error", .string "server.encode_failed",
        .string (Log.Emission.loggerName ⟨logger, encodeFailed id fault, false⟩),
        .string "stdio_server", .string fault.failure.message, .string fault.failure.kind, id] := rfl
  have hblocks : Log.blockNames.all (Log.isBlock
      (Log.Emission.fields ⟨logger, encodeFailed id fault, false⟩ time)) = true := rfl
  have hstring : ∀ t, Log.valueFault? budget (.string t) = none := fun t => rfl
  unfold Log.consoleFault?
  rw [hvalues, hblocks]
  simp only [List.findSome?_cons, hstring, List.findSome?_nil]
  cases Log.valueFault? budget id <;> rfl

/-- If the record is refused then for the depth of the id, as far as the id can be written at all. -/
lemma refusal?_encodeFailed {id : Value} {budget : Nat} (h : id.fault? budget = none)
    (fault : Json.WriteFault) (w : World) :
    ∀ f ∈ w.refusal? (encodeFailed id fault), f = .tooDeep := by
  intro f hf
  unfold World.refusal? at hf
  split at hf
  · rename_i j _ _
    by_cases hfile : j.pipeline.file = none
    · have hfields : j.pipeline.fields j.time (j.emission (encodeFailed id fault)) =
          (j.emission (encodeFailed id fault)).fields j.time := by
        simp [Log.Pipeline.fields, hfile]
      rw [Log.Journal.fate, Log.Pipeline.fate_alone _ _ _ hfile, Log.Pipeline.fateAlone,
        if_neg (by simp [Log.Journal.emission]), hfields, Log.Journal.emission,
        consoleFault?_encodeFailed] at hf
      split at hf
      · rename_i g hg
        cases hf
        exact Log.eq_tooDeep_of_valueFault h hg
      · cases hf
    · exact Log.Pipeline.failure_fate_filed _ _ _ hfile f hf
  · cases hf

/-- How a response under an id is written as a line. -/
inductive Writes (budget : Nat) (id response : Value) (w : World) :
    Except Failure Value → World → Prop where
  /-- It is written as it is if it can be. -/
  | whole (h : response.fault? budget = none) : Writes budget id response w (.ok response) w
  /-- If it cannot be then this is recorded and written in its place. -/
  | replaced {fault} (h : response.fault? budget = some fault)
      (hlog : w.refusal? (encodeFailed id fault) = none) :
      Writes budget id response w (.ok (standIn id fault)) (w.report (encodeFailed id fault))
  /-- If that record is refused, for the depth of the id, there is no line. -/
  | unlogged {fault} (h : response.fault? budget = some fault)
      (hlog : w.refusal? (encodeFailed id fault) = some .tooDeep) :
      Writes budget id response w (.error .tooDeep) (w.report (encodeFailed id fault))

/-- A response whose id can be written is written in one of these ways. -/
theorem exec_encode {budget : Nat} (hroom : 1 < budget) {response : Value}
    (h : HasId budget response) (w : World) :
    ∃ x w', (encode budget response).exec w = (x.map (Value.render .line), w') ∧
      Writes budget (memberOrNull "id" response) response w x w' := by
  unfold encode
  cases hfault : response.fault? budget with
  | none => exact ⟨.ok response, w, rfl, .whole hfault⟩
  | some fault =>
    have hstandIn : (standIn (memberOrNull "id" response) fault).fault? budget = none :=
      fault?_errorResponse hroom h _ _
    have hrecord : report .error "server.encode_failed"
        [("request_id", memberOrNull "id" response), ("error", .string fault.failure.message),
          ("error_type", .string fault.failure.kind)] none =
        Action.report (encodeFailed (memberOrNull "id" response) fault) := rfl
    rw [standIn] at hstandIn
    simp only [hrecord, hstandIn, Action.exec_bind, Action.exec_report]
    rcases hlog : w.refusal? (encodeFailed (memberOrNull "id" response) fault) with _ | e
    · exact ⟨.ok (standIn (memberOrNull "id" response) fault), _, rfl, .replaced hfault hlog⟩
    · cases refusal?_encodeFailed h fault w e hlog
      exact ⟨.error .tooDeep, _, rfl, .unlogged hfault hlog⟩

/-! ## Every payload is responded to -/

/-- Whatever the payload and the commands, there is one response, with the id of the payload, in one of
seven cases; it says that all is well exactly if the command that the payload asks for has returned a
value, and then it holds this value.  Of a payload that was read from a line, the response is written
as a line with this id: the response itself or, if it cannot be written, that it cannot.  Only if the
id is nested too deeply to be recorded with this is there no line. -/
theorem handle_responds {r : Registry} (hr : r.IsCalm) (payload : Value) (w : World) :
    ∃ response w', (handle r payload).exec w = (.ok response, w') ∧
      response.member? "id" = some (memberOrNull "id" payload) ∧
      Responds r payload w response ∧
      (response.member? "ok" = some (.bool true) ↔
        ∃ method v, Executes r payload w method (.ok v)) ∧
      (∀ method v, Executes r payload w method (.ok v) →
        response = okResponse (memberOrNull "id" payload) v) ∧
      ∀ (stack : Stack) line, Json.readLine stack.lines line = .ok payload → ∃ x w'',
        (encode stack.lines response).exec w' = (x.map (Value.render .line), w'') ∧
        Writes stack.lines (memberOrNull "id" payload) response w' x w'' ∧
        ∀ written, x = .ok written → written.member? "id" = some (memberOrNull "id" payload) := by
  obtain ⟨response, w', hexec, hresponds⟩ := exec_handle_cases hr payload w
  refine ⟨response, w', hexec, hresponds.id, hresponds, ⟨hresponds.exists_of_ok, ?_⟩,
    fun method v hx => hresponds.eq_okResponse hx, fun stack line hline => ?_⟩
  · rintro ⟨method, v, hx⟩
    rw [hresponds.eq_okResponse hx]
    rfl
  · obtain ⟨x, w'', hencode, hwrites⟩ :=
      exec_encode stack.room (hresponds.hasId (Json.fault?_of_readLine hline)) w'
    have hid : memberOrNull "id" response = memberOrNull "id" payload := by
      rw [memberOrNull, hresponds.id]
      rfl
    rw [hid] at hwrites
    refine ⟨x, w'', hencode, hwrites, fun written hwritten => ?_⟩
    cases hwrites with
    | whole _ =>
      cases hwritten
      exact hresponds.id
    | replaced _ _ =>
      cases hwritten
      rfl
    | unlogged _ _ => cases hwritten

/-- A registry with one command. -/
def sampleRegistry : Registry := ⟨[("Hello", Command.hello)]⟩

/-- The example world: no files, and no source that has anything. -/
def sampleWorld : World := World.still (.directory []) fun _ => .response 404 "Not Found" []

/-- A payload with an id that asks for the command of the sample. -/
def samplePayload : Value := .object [("id", .int 7), ("method", .string "Hello")]

/-- What the command of the sample returns comes back with the id. -/
theorem handle_responds_sample : ∃ w', (handle sampleRegistry samplePayload).exec sampleWorld =
    (.ok (okResponse (.int 7) (.string [])), w') := by
  have hcalm : sampleRegistry.IsCalm := by
    intro entry hentry args w
    rw [List.mem_singleton.mp hentry]
    simp [Command.hello]
  have hasks : Asks samplePayload "Hello" [] :=
    ⟨⟨_, rfl⟩, rfl, by decide, Or.inl ⟨rfl, rfl⟩⟩
  obtain ⟨response, w', hexec, -, -, -, hreturned, -⟩ :=
    handle_responds hcalm samplePayload sampleWorld
  have hexecutes : Executes sampleRegistry samplePayload sampleWorld "Hello" (.ok (.string [])) :=
    .intro hasks rfl rfl rfl
  rw [hreturned _ _ hexecutes] at hexec
  exact ⟨w', hexec⟩

end Server

end EditorDocs
