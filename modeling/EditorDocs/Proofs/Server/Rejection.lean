import EditorDocs.Proofs.Server.Framing

/-!
# Lines that nothing comes of

A line calls a command if it is JSON, asks for a call, names a command that is registered and gives
as many arguments as that one takes.  Every other line is rejected, for one of the reasons of
`Server.Rejects`, and the checks that find them stand in front of everything that a command does: the
answer to a rejected line is the same whatever the commands of the registry do
(`Registry.behaving`), and nothing comes of it but records of the log (`Server.exec_respond_rejected`).
So nothing comes of a run of such lines either.
-/

namespace EditorDocs

open Json (Value)

/-! ## Worlds in which something was reported -/

namespace World

/-- From `w` on nothing has happened but that records were made. -/
def OnlyRecords (w w' : World) : Prop := ∃ records : List Record, w' = records.foldl World.report w

namespace OnlyRecords

variable {w w' w'' : World}

/-- No record need have been made. -/
lemma refl (w : World) : w.OnlyRecords w := ⟨[], rfl⟩

/-- A record is one. -/
lemma report (w : World) (r : Record) : w.OnlyRecords (w.report r) := ⟨[r], rfl⟩

/-- A report makes a record, whether or not the log has a complaint. -/
lemma exec_report (w : World) (r : Record) : w.OnlyRecords ((Action.report r).exec w).2 := by
  rw [Action.exec_report_snd]
  exact .report w r

/-- Records can follow records. -/
lemma trans (h : w.OnlyRecords w') (h' : w'.OnlyRecords w'') : w.OnlyRecords w'' := by
  obtain ⟨records, rfl⟩ := h
  obtain ⟨records', rfl⟩ := h'
  exact ⟨records ++ records', by rw [List.foldl_append]⟩

/-- What makes records can follow what makes records. -/
lemma bind {α β : Type} {a : Action α} {f : α → Action β} (h : w.OnlyRecords (a.exec w).2)
    (hnext : ∀ x, ∀ v : World, v.OnlyRecords ((f x).exec v).2) :
    w.OnlyRecords ((a >>= f).exec w).2 := by
  rw [Action.exec_bind]
  rcases hexec : a.exec w with ⟨e | x, v⟩
  all_goals rw [hexec] at h
  · exact h
  · exact h.trans (hnext x v)

/-- What holds of a report, and of what follows something of the kind, holds of all records. -/
lemma induction {p : World → World → Prop} (h : w.OnlyRecords w') (hrefl : ∀ v, p v v)
    (hreport : ∀ v v' r, p (v.report r) v' → p v v') : p w w' := by
  obtain ⟨records, rfl⟩ := h
  induction records generalizing w with
  | nil => exact hrefl w
  | cons r rest ih => exact hreport w _ r ih

/-- The files are those of before, but for the log. -/
lemma reported (h : w.OnlyRecords w') : w.Reported w' :=
  h.induction .refl fun v _ r hv => (reported_report v r).trans hv

/-- Nothing was asked for. -/
lemma requests (h : w.OnlyRecords w') : w'.requests = w.requests :=
  h.induction (p := fun v v' => v'.requests = v.requests) (fun _ => rfl) fun v _ r hv =>
    hv.trans (requests_report v r)

/-- Without a log, the files are those of before. -/
lemma files (h : w.OnlyRecords w') : w.journal = none → w'.files = w.files := by
  refine h.induction (p := fun v v' => v.journal = none → v'.files = v.files) (fun _ _ => rfl) ?_
  intro v v' r hv hnone
  have hreport : v.report r = { v with records := v.records ++ [r] } := by
    unfold World.report
    simp only [hnone]
  rw [hreport] at hv
  exact hv hnone

end OnlyRecords

/-- Nothing is different but what was reported: no request was made, and no entry of the files is
another one, but for the file of a log that is open. -/
structure Untouched (w w' : World) : Prop where
  /-- Records were made. -/
  records : w.OnlyRecords w'
  /-- Nothing was asked for. -/
  requests : w'.requests = w.requests
  /-- The working directory is the same. -/
  home : w'.files.home = w.files.home
  /-- Elsewhere than at the log, the same entries are there. -/
  entries : ∀ loc, w.logFile? ≠ some loc → w'.files.view loc = w.files.view loc
  /-- Without a log, the files are the same. -/
  files : w.journal = none → w'.files = w.files

/-- Records leave everything else untouched. -/
lemma OnlyRecords.untouched {w w' : World} (h : w.OnlyRecords w') : w.Untouched w' :=
  ⟨h, h.requests, h.reported.home, fun _ hloc => h.reported.view_of_ne hloc, h.files⟩

end World

/-! ## Commands that do something else -/

/-- So many arguments lie within the bounds of the command. -/
def Command.Admits (c : Command) (count : Nat) : Prop :=
  c.least ≤ count ∧ ∀ most, c.most = some most → (count : Int) ≤ most

/-- A command takes as many arguments as its bounds say. -/
lemma Command.accepts_iff {c : Command} {count : Nat} : c.accepts count = true ↔ c.Admits count := by
  unfold Command.accepts Command.Admits
  cases c.most with
  | none => simp
  | some most => simp

/-- The command under the same name and with the same bounds, which does something else. -/
def Command.doing (c : Command) (deed : List Text → Action Value) : Command :=
  { c with execute := deed }

namespace Registry

/-- The registry whose commands do something else, and nothing else about them is different. -/
def behaving (r : Registry) (deed : Command → List Text → Action Value) : Registry :=
  ⟨r.commands.map fun e => (e.1, e.2.doing (deed e.2))⟩

variable {r : Registry}

/-- The same names are there, and under each the command that does something else. -/
lemma get?_behaving (deed : Command → List Text → Action Value) (name : Text) :
    (r.behaving deed).commands.get? name =
      (r.commands.get? name).map fun c => c.doing (deed c) := by
  unfold behaving
  induction r.commands with
  | nil => rfl
  | cons e rest ih =>
    simp only [List.map_cons, Table.get?]
    split
    · rfl
    · exact ih

/-- The names are the same. -/
lemma keys_behaving (deed : Command → List Text → Action Value) :
    (r.behaving deed).commands.keys = r.commands.keys := by
  simp [behaving, Table.keys]

/-- What is done with the registry in a world runs no command of it: it comes to the same whatever the
commands do, and does nothing but make records. -/
structure LeavesIdle {α : Type} (r : Registry) (use : Registry → Action α) (w : World) : Prop where
  /-- It comes to the same with other commands under the same names. -/
  same : ∀ deed, (use (r.behaving deed)).exec w = (use r).exec w
  /-- There are records at most. -/
  records : w.OnlyRecords ((use r).exec w).2

namespace LeavesIdle

variable {α β : Type} {use : Registry → Action α} {w : World}

/-- What makes records at most runs no command. -/
lemma of_onlyRecords {a : Action α} (h : w.OnlyRecords (a.exec w).2) :
    r.LeavesIdle (fun _ => a) w := ⟨fun _ => rfl, h⟩

/-- Two uses of a registry one after the other run no command if each of them runs none. -/
lemma bind {next : Registry → α → Action β} (h : r.LeavesIdle use w)
    (hnext : ∀ x w', (use r).exec w = (.ok x, w') → r.LeavesIdle (fun r => next r x) w') :
    r.LeavesIdle (fun r => use r >>= next r) w := by
  have hboth : ∀ deed, (use (r.behaving deed) >>= next (r.behaving deed)).exec w =
      (use r >>= next r).exec w ∧ w.OnlyRecords ((use r >>= next r).exec w).2 := by
    intro deed
    rw [Action.exec_bind, Action.exec_bind, h.same deed]
    rcases huse : (use r).exec w with ⟨f | x, w'⟩
    · have hrecords := h.records
      rw [huse] at hrecords
      exact ⟨rfl, hrecords⟩
    · have hrecords := h.records
      rw [huse] at hrecords
      exact ⟨(hnext x w' huse).same deed, hrecords.trans (hnext x w' huse).records⟩
  exact ⟨fun deed => (hboth deed).1, (hboth fun c => c.execute).2⟩

/-- What is done after failures runs no command if what fails runs none. -/
lemma tryCatch {rescue : Failure → Action α} (h : r.LeavesIdle use w)
    (hrescue : ∀ f w', (use r).exec w = (.error f, w') → w'.OnlyRecords ((rescue f).exec w').2) :
    r.LeavesIdle (fun r => tryCatch (use r) rescue) w := by
  constructor
  · intro deed
    rw [Action.exec_tryCatch, Action.exec_tryCatch, h.same deed]
  · have hrecords := h.records
    rw [Action.exec_tryCatch]
    rcases huse : (use r).exec w with ⟨f | x, w'⟩
    · rw [huse] at hrecords
      exact hrecords.trans (hrescue f w' huse)
    · rw [huse] at hrecords
      exact hrecords

end LeavesIdle

end Registry

namespace Server

/-! ## Reasons to reject a line -/

/-- The line calls a command with arguments: it is JSON and asks for a call, and the arguments lie
within the bounds of the command of that name. -/
def Calls (r : Registry) (budget : Nat) (line : Text) (c : Command) (args : List Text) : Prop :=
  ∃ payload method, Json.readLine budget line.strip = .ok payload ∧ Asks payload method args ∧
    r.commands.get? method = some c ∧ c.Admits args.length

/-- Why a line calls no command. -/
inductive Rejects (r : Registry) (budget : Nat) (line : Text) : Prop where
  /-- There is nothing in the line. -/
  | blank (empty : isBlank line = true)
  /-- The line is not JSON, or nothing that could be read as such. -/
  | unreadable {fault : Json.ReadFault} (unread : Json.readLine budget line.strip = .error fault)
  /-- The line is no request: no object with the name of a command and a list of texts. -/
  | shapeless {payload : Value} (holds : Json.readLine budget line.strip = .ok payload)
      (idle : ∀ method args, ¬ Asks payload method args)
  /-- There is no command of the name. -/
  | unregistered {payload : Value} {method : Text} {args : List Text}
      (holds : Json.readLine budget line.strip = .ok payload) (asks : Asks payload method args)
      (absent : r.commands.get? method = none)
  /-- The command is there, and there are too few or too many arguments for it. -/
  | count {payload : Value} {method : Text} {args : List Text} {c : Command}
      (holds : Json.readLine budget line.strip = .ok payload) (asks : Asks payload method args)
      (registered : r.commands.get? method = some c) (outside : ¬ c.Admits args.length)

variable {r : Registry} {budget : Nat} {line : Text}

/-- A line is rejected if and only if it calls no command. -/
lemma rejects_iff : Rejects r budget line ↔ ∀ c args, ¬ Calls r budget line c args := by
  constructor
  · rintro h c args ⟨payload, method, hread, hasks, hget, hadmits⟩
    cases h with
    | blank empty =>
      have hnothing : Json.readLine budget line.strip = .error .malformed := by
        rw [List.isEmpty_iff.mp empty, readLine_nil]
      cases hnothing.symm.trans hread
    | unreadable unread => cases unread.symm.trans hread
    | shapeless holds idle =>
      cases holds.symm.trans hread
      exact idle method args hasks
    | unregistered holds asks absent =>
      cases holds.symm.trans hread
      obtain ⟨rfl, -⟩ := asks.unique hasks
      cases absent.symm.trans hget
    | count holds asks registered outside =>
      cases holds.symm.trans hread
      obtain ⟨rfl, rfl⟩ := asks.unique hasks
      cases registered.symm.trans hget
      exact outside hadmits
  · intro h
    cases hread : Json.readLine budget line.strip with
    | error fault => exact .unreadable hread
    | ok payload =>
      by_cases hasks : ∃ method args, Asks payload method args
      · obtain ⟨method, args, hasks⟩ := hasks
        cases hget : r.commands.get? method with
        | none => exact .unregistered hread hasks hget
        | some c =>
          exact .count hread hasks hget fun hadmits =>
            h c args ⟨payload, method, hread, hasks, hget, hadmits⟩
      · exact .shapeless hread fun method args h => hasks ⟨method, args, h⟩

/-! ## Handling a rejected line -/

/-- Writing a response makes records at most. -/
lemma onlyRecords_encode (budget : Nat) (response : Value) (w : World) :
    w.OnlyRecords ((encode budget response).exec w).2 := by
  unfold encode
  split
  · exact .refl w
  · refine .bind (.exec_report w _) fun _ v => ?_
    simp only
    split <;> exact .refl v

/-- Responding to a failure makes a record at most. -/
lemma onlyRecords_failureResponse (request : Request) (f : Failure) (w : World) :
    w.OnlyRecords ((failureResponse request f).exec w).2 := by
  unfold failureResponse
  split
  · exact .refl w
  · exact .refl w
  · exact .bind (.exec_report w _) fun _ v => .refl v

/-- A call by a name that no command has runs none. -/
lemma leavesIdle_dispatch_unknown {method : Text} (hget : r.commands.get? method = none)
    (args : List Text) (w : World) : r.LeavesIdle (fun r => r.dispatch method args) w := by
  have hexec : ∀ deed, ((r.behaving deed).dispatch method args).exec w =
      (.error (.unknownCommand method r.commands.keys), w) := by
    intro deed
    unfold Registry.dispatch Registry.get
    rw [r.get?_behaving, hget, r.keys_behaving]
    rfl
  have hplain : (r.dispatch method args).exec w =
      (.error (.unknownCommand method r.commands.keys), w) := by
    unfold Registry.dispatch Registry.get
    rw [hget]
    rfl
  exact ⟨fun deed => (hexec deed).trans hplain.symm, by rw [hplain]; exact .refl w⟩

/-- A call with arguments that are refused comes to a record, whatever the command does. -/
lemma exec_call_refused {c : Command} {args : List Text} (h : ¬ c.Admits args.length) (w : World) :
    (c.call args).exec w = (.ok (.ofFailure (.argumentCount c.name c.expected args.length)),
      w.report ⟨.warning, "command.bad_arguments",
        Context.bind [("component", .string "command"), ("command", .string c.name)]
          [("got", .int args.length)], none⟩) := by
  unfold Command.call
  rw [Action.exec_bind, Action.exec_tryCatch, Action.exec_bind,
    Command.exec_evaluate_refused (mt Command.accepts_iff.mp h)]
  rfl

/-- A call by name with arguments that are refused runs no command. -/
lemma leavesIdle_dispatch_refused {method : Text} {args : List Text} {c : Command}
    (hget : r.commands.get? method = some c) (h : ¬ c.Admits args.length) (w : World) :
    r.LeavesIdle (fun r => r.dispatch method args) w := by
  have hexec : ∀ deed, ((r.behaving deed).dispatch method args).exec w =
      ((c.doing (deed c)).call args).exec (Registry.dispatchedAt method args w) := by
    intro deed
    unfold Registry.dispatch Registry.get
    rw [r.get?_behaving, hget]
    rfl
  have hplain : (r.dispatch method args).exec w =
      (c.call args).exec (Registry.dispatchedAt method args w) := by
    unfold Registry.dispatch Registry.get
    rw [hget]
    rfl
  constructor
  · intro deed
    rw [hexec, hplain, exec_call_refused h, exec_call_refused (c := c.doing (deed c)) h]
    rfl
  · rw [hplain, exec_call_refused h]
    exact .trans (.report w _) (.report _ _)

/-- Handling what a rejected line holds runs no command. -/
lemma leavesIdle_handle {payload : Value} (h : Rejects r budget line)
    (hread : Json.readLine budget line.strip = .ok payload) (w : World) :
    r.LeavesIdle (fun r => handle r payload) w := by
  unfold handle
  cases hrequest : requestOf payload with
  | error response => exact .of_onlyRecords (.refl w)
  | ok request =>
    obtain ⟨-, hasks⟩ := requestOf_eq_ok_iff.mp hrequest
    have hdispatch : r.LeavesIdle (fun r => r.dispatch request.method request.args) w := by
      cases hget : r.commands.get? request.method with
      | none => exact leavesIdle_dispatch_unknown hget _ w
      | some c =>
        refine leavesIdle_dispatch_refused hget (fun hadmits => ?_) w
        exact rejects_iff.mp h c request.args ⟨payload, _, hread, hasks, hget, hadmits⟩
    refine Registry.LeavesIdle.tryCatch (hdispatch.bind fun x w' _ => ?_) fun f w' _ => ?_
    · exact .of_onlyRecords (.refl w')
    · exact onlyRecords_failureResponse request f w'

/-- Answering a rejected line runs no command. -/
lemma leavesIdle_respond (h : Rejects r budget line) (w : World) :
    r.LeavesIdle (fun r => respond r budget line) w := by
  have hline : r.LeavesIdle (fun r => handleLine r budget line.strip) w := by
    unfold handleLine
    cases hread : Json.readLine budget line.strip with
    | ok payload => exact leavesIdle_handle h hread w
    | error fault =>
      cases fault with
      | malformed =>
        have hreport : w.OnlyRecords ((report .warning "server.invalid_json"
            [("length", .int line.strip.length)] none).exec w).2 := .exec_report w _
        exact .of_onlyRecords (hreport.bind (f := fun _ => pure _) fun _ v => .refl v)
      | longInteger digits => exact .of_onlyRecords (.refl w)
      | tooDeep => exact .of_onlyRecords (.refl w)
  unfold respond
  split
  · exact .of_onlyRecords (.refl w)
  · refine hline.bind fun response w' _ => ?_
    exact .bind (.of_onlyRecords (onlyRecords_encode budget response w')) fun answer w'' _ =>
      .of_onlyRecords (.refl w'')

/-! ## Runs of rejected lines -/

/-- Serving rejected lines runs no command and makes records at most. -/
lemma run_serveLines_rejected {lines : List Text} (h : ∀ line ∈ lines, Rejects r budget line) (w : World) :
    (∀ deed, (serveLines (r.behaving deed) budget lines).run w = (serveLines r budget lines).run w) ∧
      w.OnlyRecords ((serveLines r budget lines).run w).2 := by
  induction lines generalizing w with
  | nil => exact ⟨fun _ => rfl, .refl w⟩
  | cons line rest ih =>
    have hline := leavesIdle_respond (h line List.mem_cons_self) w
    have hrest := ih fun line hmem => h line (List.mem_cons_of_mem _ hmem)
    constructor
    · intro deed
      rw [run_serveLines_cons, run_serveLines_cons, hline.same deed]
      rcases (respond r budget line).exec w with ⟨f | answer, w'⟩
      · rfl
      · cases answer with
        | none => exact (hrest w').1 deed
        | some answer => simp only [(hrest w').1 deed]
    · have hrecords := hline.records
      rw [run_serveLines_cons]
      rcases hrespond : (respond r budget line).exec w with ⟨f | answer, w'⟩
      · rw [hrespond] at hrecords
        exact hrecords
      · rw [hrespond] at hrecords
        cases answer with
        | none => exact hrecords.trans (hrest w').2
        | some answer => exact hrecords.trans (hrest w').2

/-- A service of rejected lines runs no command and makes records at most. -/
lemma run_serve_rejected {input : Text} {w : World}
    (h : ∀ line ∈ input.lines, Rejects r w.host.stack.lines line) :
    (∀ deed, (serve (r.behaving deed) input).run w = (serve r input).run w) ∧
      w.OnlyRecords ((serve r input).run w).2 := by
  have hcount : ∀ deed, (r.behaving deed).count = r.count := fun deed => List.length_map _
  have hlines := run_serveLines_rejected h (startedAt r w)
  constructor
  · intro deed
    have hstarted : startedAt (r.behaving deed) w = startedAt r w := by
      unfold startedAt
      rw [hcount]
    rw [run_serve, run_serve, hstarted, hlines.1 deed]
  · have hstart : w.OnlyRecords (startedAt r w) := .exec_report w _
    rw [run_serve]
    rcases hserve : (serveLines r w.host.stack.lines input.lines).run (startedAt r w)
      with ⟨⟨answers, _ | f⟩, w'⟩
    · rw [hserve] at hlines
      exact (hstart.trans hlines.2).trans (.report w' _)
    · rw [hserve] at hlines
      exact hstart.trans hlines.2

/-- Nothing comes of a rejected line.  A line is rejected unless it calls a command that takes the
arguments.  The answer to a rejected line, and the world after it, are the same whatever the commands
of the registry do, and nothing but records has been made.  The same holds of a service all of whose
lines are rejected. -/
theorem rejected_without_effect (r : Registry) (budget : Nat) :
    (∀ line, Rejects r budget line ↔ ∀ c args, ¬ Calls r budget line c args) ∧
      (∀ line, Rejects r budget line → ∀ w : World, ∃ x w',
        (respond r budget line).exec w = (x, w') ∧
        (∀ deed, (respond (r.behaving deed) budget line).exec w = (x, w')) ∧ w.Untouched w') ∧
      ∀ (input : Text) (w : World), (∀ line ∈ input.lines, Rejects r w.host.stack.lines line) →
        ∃ out w', (serve r input).run w = (out, w') ∧
        (∀ deed, (serve (r.behaving deed) input).run w = (out, w')) ∧ w.Untouched w' := by
  refine ⟨fun _ => rejects_iff, fun line h w => ?_, fun input w h => ?_⟩
  · have hidle := leavesIdle_respond h w
    exact ⟨_, _, rfl, hidle.same, hidle.records.untouched⟩
  · obtain ⟨hsame, hrecords⟩ := run_serve_rejected h
    exact ⟨_, _, rfl, hsame, hrecords.untouched⟩

/-- A command that takes two arguments or three, and breaks off whatever they are. -/
def sampleCut : Command where
  name := "Cut"
  least := 2
  most := some 3
  label := "Custom"
  execute _ := throw .interrupted

/-- A registry with this command. -/
def sampleBounded : Registry := ⟨[("Cut", sampleCut)]⟩

/-- A call of it with one argument. -/
def sampleShort : Text := "\x7b\"id\": 1, \"method\": \"Cut\", \"args\": [\"a\"]\x7d"

/-- A call of a command that takes two arguments, with one, is answered in the same way if the command
does something else, and nothing is asked for. -/
theorem rejected_without_effect_sample :
    Rejects sampleBounded 2 sampleShort ∧
      ∃ x w', (respond sampleBounded 2 sampleShort).exec sampleWorld = (x, w') ∧
        (respond (sampleBounded.behaving fun _ _ => pure .null) 2 sampleShort).exec sampleWorld =
          (x, w') ∧ w'.files = sampleWorld.files ∧ w'.requests = [] := by
  have hasked : ((Json.readLine 2 sampleShort.strip).toOption.bind fun payload =>
      (requestOf payload).toOption.map fun request => (request.method, request.args)) =
        some (("Cut" : Text), [("a" : Text)]) := by decide +kernel
  have hrejects : Rejects sampleBounded 2 sampleShort := by
    cases hread : Json.readLine 2 sampleShort.strip with
    | error fault => exact .unreadable hread
    | ok payload =>
      rw [hread, Except.toOption, Option.bind_some, Option.map_eq_some_iff] at hasked
      obtain ⟨request, hrequest, hcall⟩ := hasked
      obtain ⟨-, hasks⟩ := requestOf_eq_ok_iff.mp (Result.of_toOption hrequest)
      obtain ⟨hmethod, hargs⟩ := Prod.mk.inj hcall
      rw [hmethod, hargs] at hasks
      exact .count (c := sampleCut) hread hasks rfl fun h => absurd h.1 (by decide)
  obtain ⟨x, w', hexec, hsame, huntouched⟩ :=
    (rejected_without_effect sampleBounded 2).2.1 sampleShort hrejects sampleWorld
  exact ⟨hrejects, x, w', hexec, hsame _, huntouched.files rfl, huntouched.requests⟩

end Server

end EditorDocs
