import EditorDocs.Command.Builtin
import EditorDocs.Proofs.FileSystem.View
import EditorDocs.Proofs.World.Action
import Mathlib.Data.List.Basic

/-!
# What calls give

A command does what it likes, so little can be said of all commands.  A call of a calm one, which does
not end in an interruption by the user, does not end in one either (`Registry.isCalm_dispatch`).  The
outcome of a call is what executing the command gives, if there is a command that takes the arguments:
its value, or its failure if that is the caller's business (`Command.exec_call`,
`Registry.exec_dispatch`).
-/

namespace EditorDocs

/-! ## Interruptions -/

namespace Action

variable {α β : Type}

/-- The action does not end in an interruption, in whatever world. -/
def IsCalm (a : Action α) : Prop := ∀ w, (a.exec w).1 ≠ .error .interrupted

/-- A result is no interruption. -/
lemma isCalm_pure (x : α) : IsCalm (pure x : Action α) := fun w => by simp

/-- A report is no interruption, and what comes back from one is none either. -/
lemma isCalm_report (r : Record) : IsCalm (Action.report r) := by
  intro w
  rw [exec_report]
  split
  · rename_i hrefused
    rintro ⟨⟩
    cases World.isRefusal_refusal? hrefused
  · simp

/-- Another failure is no interruption. -/
lemma isCalm_throw {e : Failure} (h : e ≠ .interrupted) : IsCalm (throw e : Action α) :=
  fun w => by simpa using h

/-- Calm actions one after the other are calm. -/
lemma IsCalm.bind {a : Action α} {f : α → Action β} (ha : a.IsCalm) (hf : ∀ x, (f x).IsCalm) :
    (a >>= f).IsCalm := by
  intro w
  have hw := ha w
  rw [exec_bind]
  rcases hexec : a.exec w with ⟨e | x, w'⟩
  · rw [hexec] at hw
    simpa using hw
  · exact hf x w'

/-- A calm action is calm with what is done after its failures, if that is. -/
lemma IsCalm.tryCatch {a : Action α} {f : Failure → Action α} (ha : a.IsCalm)
    (hf : ∀ e, e ≠ .interrupted → (f e).IsCalm) : (tryCatch a f).IsCalm := by
  intro w
  have hw := ha w
  rw [exec_tryCatch]
  rcases hexec : a.exec w with ⟨e | x, w'⟩
  · rw [hexec] at hw
    exact hf e (fun he => hw (by rw [he])) w'
  · simp

end Action

/-- No command of the registry ends in an interruption, which is the user's and not the command's. -/
def Registry.IsCalm (r : Registry) : Prop :=
  ∀ entry ∈ r.commands, ∀ args, (entry.2.execute args).IsCalm

/-- A call is calm if the command is. -/
lemma Command.isCalm_call {c : Command} {args : List Text} (hc : (c.execute args).IsCalm) :
    (c.call args).IsCalm := by
  have hevaluate : (c.evaluate args).IsCalm := by
    unfold evaluate
    split
    · exact hc
    · exact Action.isCalm_throw (by simp)
  unfold call
  refine Action.IsCalm.bind (Action.IsCalm.tryCatch ?_ ?_) ?_
  · exact hevaluate.bind fun v => Action.isCalm_pure _
  · intro e he
    split
    · refine Action.IsCalm.bind ?_ fun _ => Action.isCalm_pure _
      unfold reportFailure
      split <;> exact Action.isCalm_report _
    · exact Action.isCalm_throw he
  · intro outcome
    cases outcome with
    | completed v =>
      refine Action.IsCalm.bind (Action.isCalm_report _) fun _ => ?_
      exact Action.isCalm_pure (Outcome.completed v)
    | failed kind message => exact Action.isCalm_pure (Outcome.failed kind message)

/-- A calm registry is called calmly. -/
lemma Registry.isCalm_dispatch {r : Registry} (hr : r.IsCalm) (name : Text) (args : List Text) :
    (r.dispatch name args).IsCalm := by
  intro w
  unfold dispatch get
  rw [Action.exec_bind, Action.exec_ofExcept]
  cases hget : r.commands.get? name with
  | none => simp
  | some c =>
    have hcall := Command.isCalm_call (hr _ (Table.mem_of_get? hget) args)
    exact Action.IsCalm.bind (Action.isCalm_report _) (fun _ => hcall) w

/-! ## Kinds of failures -/

/-- Every failure has a kind. -/
lemma Failure.kind_ne_nil (e : Failure) : e.kind ≠ [] := by
  cases e with
  | foreign family kind named message => exact named
  | system e =>
    have herrno : ∀ errno : Errno, errno.kind ≠ [] := by
      intro errno
      cases errno <;> decide
    exact herrno e.errno
  | _ => simp only [kind]; decide

/-! ## Arguments -/

namespace Command

variable {c : Command} {args : List Text}

/-- A command that takes two arguments takes lists of two. -/
lemma accepts_two_iff (hleast : c.least = 2) (hmost : c.most = some 2) :
    c.accepts args.length = true ↔ ∃ a b, args = [a, b] := by
  have hlength : c.accepts args.length = true ↔ args.length = 2 := by
    rw [accepts, hleast, hmost, Bool.and_eq_true, decide_eq_true_eq, decide_eq_true_eq]
    omega
  rw [hlength, List.length_eq_two]

/-- Arguments that the command does not take are refused, and nothing happens. -/
lemma exec_evaluate_refused (h : ¬ c.accepts args.length = true) (w : World) :
    (c.evaluate args).exec w = (.error (.argumentCount c.name c.expected args.length), w) := by
  unfold evaluate
  rw [if_neg h]
  rfl

/-- On arguments that it takes, a command does what it does. -/
lemma evaluate_of_accepts (h : c.accepts args.length = true) : c.evaluate args = c.execute args := by
  unfold evaluate
  rw [if_pos h]

end Command

/-! ## Calls -/

/-- The outcome of a call is what evaluating the command gives, unless that is nothing for the
caller; and evaluating the command is followed by nothing but a report. -/
lemma Command.exec_call (c : Command) (args : List Text) (w : World) :
    ∃ w', (c.call args).exec w = (match ((c.evaluate args).exec w).1 with
      | .ok v => .ok (.completed v)
      | .error e => if isAnswer e then .ok (.ofFailure e) else .error e, w') ∧
      World.Reported ((c.evaluate args).exec w).2 w' := by
  unfold call
  rw [Action.exec_bind, Action.exec_tryCatch, Action.exec_bind]
  rcases (c.evaluate args).exec w with ⟨e | v, w₁⟩
  · cases hanswer : isAnswer e with
    | false => exact ⟨w₁, by simp [hanswer], .refl w₁⟩
    | true =>
      have hreport : ∃ w₂, (reportFailure c.name e).exec w₁ = (.ok (), w₂) ∧
          World.Reported w₁ w₂ := by
        unfold reportFailure
        split <;> exact ⟨_, rfl, World.reported_report w₁ _⟩
      obtain ⟨w₂, hw₂, hreported⟩ := hreport
      refine ⟨w₂, ?_, hreported⟩
      simp only [hanswer, if_true]
      rw [Action.exec_bind_ok hw₂]
      rfl
  · exact ⟨_, rfl, World.reported_report w₁ _⟩

/-- A failure that is nothing for the caller goes through, without a report. -/
lemma Command.exec_call_raised {c : Command} {args : List Text} {w w' : World} {e : Failure}
    (h : (c.evaluate args).exec w = (.error e, w')) (he : isAnswer e = false) :
    (c.call args).exec w = (.error e, w') := by
  unfold call
  refine Action.exec_bind_error ?_
  rw [Action.exec_tryCatch_error (Action.exec_bind_error h)]
  simp [he]

namespace Registry

/-- The world in which a command is called. -/
def dispatchedAt (method : Text) (args : List Text) (w : World) : World :=
  ((report "command.dispatch"
    [("command", .string method), ("args", .int args.length)]).exec w).2

/-- What a call by name gives a caller who asks for it. -/
lemma exec_dispatch (r : Registry) (method : Text) (args : List Text) (w : World) :
    ∃ w', (r.dispatch method args).exec w = (match r.commands.get? method with
      | none => .error (.unknownCommand method r.commands.keys)
      | some c => match ((c.evaluate args).exec (dispatchedAt method args w)).1 with
        | .ok v => .ok (.completed v)
        | .error e => if Command.isAnswer e then .ok (.ofFailure e) else .error e, w') := by
  unfold dispatch get
  rw [Action.exec_bind, Action.exec_ofExcept]
  cases r.commands.get? method with
  | none => exact ⟨w, rfl⟩
  | some c =>
    obtain ⟨w', hcall, -⟩ := c.exec_call args (dispatchedAt method args w)
    exact ⟨w', hcall⟩

end Registry

end EditorDocs
