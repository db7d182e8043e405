import EditorDocs.Proofs.FileSystem.View
import EditorDocs.Proofs.Log.Fate
import EditorDocs.World

/-!
# Actions in a world

`Action.exec` is what an action gives in a world together with the world after it.  The lemmas of the
first section execute the ways in which actions are put together.

What is reported goes to the log that is open, so the only file that grows by itself is the log's
(`grow`).  `World.Reported` says that nothing else has happened to the files between two worlds; it
holds after a report, and it can be chained.
-/

namespace EditorDocs

/-! ## Records whose values hold no others -/

@[simp] lemma Json.Value.isFlat_string (t : Text) : (string t).isFlat = true := rfl

@[simp] lemma Json.Value.isFlat_int (n : Int) : (int n).isFlat = true := rfl

namespace Context

@[simp] lemma isFlat_nil : isFlat [] = true := rfl

@[simp] lemma isFlat_cons (m : Text × Json.Value) (c : Context) :
    isFlat (m :: c) = (m.2.isFlat && isFlat c) := rfl

/-- A value that holds no others can be put among such values. -/
lemma isFlat_put {c : Context} (hc : c.isFlat = true) {name : Text} {v : Json.Value}
    (hv : v.isFlat = true) : isFlat (c.put name v) = true := by
  induction c with
  | nil => simp [Table.put, hv]
  | cons m rest ih =>
    simp only [isFlat_cons, Bool.and_eq_true] at hc
    rw [Table.put]
    split
    · simp [hv, hc.2]
    · simp [hc.1, ih hc.2]

/-- Such values can be laid over such values. -/
@[simp] lemma isFlat_bind {bound more : Context} (hbound : bound.isFlat = true)
    (hmore : more.isFlat = true) : (bound.bind more).isFlat = true := by
  unfold bind
  induction more generalizing bound with
  | nil => exact hbound
  | cons m rest ih =>
    simp only [isFlat_cons, Bool.and_eq_true] at hmore
    exact ih (isFlat_put hbound hmore.1) hmore.2

end Context

namespace World

/-- A record with such values is not refused. -/
lemma refusal?_of_isFlat {r : Record} (h : r.context.isFlat = true) (w : World) :
    w.refusal? r = none := by
  unfold refusal?
  rw [h]

/-- What comes back from a record is what comes back from records that cannot be rendered. -/
lemma isRefusal_refusal? {w : World} {r : Record} {f : Failure} (h : w.refusal? r = some f) :
    Log.IsRefusal f := by
  unfold refusal? at h
  split at h
  · exact Log.Pipeline.isRefusal_fate _ _ _ _ f h
  · cases h

/-- What comes back from a record does not depend on those that were made before. -/
@[simp] lemma refusal?_report (w : World) (r r' : Record) :
    (w.report r).refusal? r' = w.refusal? r' := by
  have hjournal : (w.report r).journal = w.journal.map fun j => j.after (j.emission r) := by
    unfold report
    cases w.journal <;> simp
  unfold refusal?
  rw [hjournal]
  cases r'.context.isFlat <;> cases w.journal <;> rfl

/-- What comes back from a record does not depend on whether the file of the log is still there. -/
@[simp] lemma refusal?_forget (w : World) (loc : FileSystem.Location) (r : Record) :
    (w.forget loc).refusal? r = w.refusal? r := by
  unfold refusal? forget
  cases hj : w.journal with
  | none => rfl
  | some j =>
    have hsame : ∀ e, (j.forget loc).fate e = j.fate e := by
      intro e
      unfold Log.Journal.forget
      split <;> rfl
    have hemission : ∀ r, (j.forget loc).emission r = j.emission r := by
      intro r
      unfold Log.Journal.forget
      split <;> rfl
    cases r.context.isFlat <;> simp [hsame, hemission]

end World

/-! ## Executing actions -/

namespace Action

variable {α β : Type}

/-- What an action gives in a world, and the world after it. -/
def exec (a : Action α) (w : World) : Except Failure α × World := (ExceptT.run a).run w

@[simp] lemma exec_pure (x : α) (w : World) : (pure x : Action α).exec w = (.ok x, w) := rfl

@[simp] lemma exec_throw (e : Failure) (w : World) :
    (throw e : Action α).exec w = (.error e, w) := rfl

@[simp] lemma exec_get (w : World) : (get : Action World).exec w = (.ok w, w) := rfl

@[simp] lemma exec_modify (f : World → World) (w : World) :
    (modify f : Action Unit).exec w = (.ok (), f w) := rfl

@[simp] lemma exec_reader (w : World) : Action.reader.exec w = (.ok w.host.reader, w) := rfl

@[simp] lemma exec_request (url : Text) (w : World) :
    (Action.request url).exec w = (.ok (w.remote url), { w with requests := w.requests ++ [url] }) :=
  rfl

@[simp] lemma exec_ofExcept (x : Except Failure α) (w : World) :
    (Action.ofExcept x).exec w = (x, w) := by
  cases x <;> rfl

/-- The second action runs in the world after the first one, unless that fails. -/
lemma exec_bind (a : Action α) (f : α → Action β) (w : World) :
    (a >>= f).exec w = match a.exec w with
      | (.ok x, w') => (f x).exec w'
      | (.error e, w') => (.error e, w') := by
  simp only [exec, ExceptT.run_bind, StateT.run_bind]
  rcases (ExceptT.run a).run w with ⟨_ | _, _⟩ <;> rfl

/-- What is reported is in the world whether or not the log has a complaint. -/
lemma exec_report (r : Record) (w : World) :
    (Action.report r).exec w = match w.refusal? r with
      | some e => (.error e, w.report r)
      | none => (.ok (), w.report r) := by
  unfold Action.report
  rcases hrefusal : w.refusal? r with _ | e <;> simp [exec_bind, hrefusal]

/-- A record is made in any case. -/
@[simp] lemma exec_report_snd (r : Record) (w : World) :
    ((Action.report r).exec w).2 = w.report r := by
  rw [exec_report]
  split <;> rfl

/-- A record whose values hold no others is reported. -/
@[simp] lemma exec_report_of_isFlat {r : Record} (h : r.context.isFlat = true) (w : World) :
    (Action.report r).exec w = (.ok (), w.report r) := by
  rw [exec_report, World.refusal?_of_isFlat h]

/-- What is done after a failure runs in the world in which the action failed. -/
lemma exec_tryCatch (a : Action α) (f : Failure → Action α) (w : World) :
    (tryCatch a f).exec w = match a.exec w with
      | (.ok x, w') => (.ok x, w')
      | (.error e, w') => (f e).exec w' := by
  have hrun : (tryCatch a f).exec w = match (ExceptT.run a).run w with
      | (.ok x, w') => (.ok x, w')
      | (.error e, w') => (ExceptT.run (f e)).run w' := by
    simp only [exec, tryCatch, tryCatchThe, MonadExceptOf.tryCatch, ExceptT.tryCatch, ExceptT.run,
      ExceptT.mk, StateT.run, bind, StateT.bind]
    rcases a w with ⟨_ | _, _⟩ <;> rfl
  rw [hrun]
  rfl

/-- What an action gives and the world after it are all of its execution. -/
lemma exec_eq {a : Action α} {w : World} {x : Except Failure α} (h : (a.exec w).1 = x) :
    a.exec w = (x, (a.exec w).2) := by
  rw [← h]

/-- The second action runs after a first one that succeeds. -/
lemma exec_bind_ok {a : Action α} {f : α → Action β} {w w' : World} {x : α}
    (h : a.exec w = (.ok x, w')) : (a >>= f).exec w = (f x).exec w' := by
  rw [exec_bind, h]

/-- Nothing runs after a first action that fails. -/
lemma exec_bind_error {a : Action α} {f : α → Action β} {w w' : World} {e : Failure}
    (h : a.exec w = (.error e, w')) : (a >>= f).exec w = (.error e, w') := by
  rw [exec_bind, h]

/-- If two actions succeed one after the other, then each of them does. -/
lemma of_bind {a : Action α} {f : α → Action β} {w w' : World} {y : β}
    (h : (a >>= f).exec w = (.ok y, w')) :
    ∃ x v, a.exec w = (.ok x, v) ∧ (f x).exec v = (.ok y, w') := by
  rcases hexec : a.exec w with ⟨e | x, v⟩
  · rw [exec_bind_error hexec] at h
    cases h
  · rw [exec_bind_ok hexec] at h
    exact ⟨x, v, rfl, h⟩

/-- Nothing is caught if an action succeeds. -/
lemma exec_tryCatch_ok {a : Action α} {f : Failure → Action α} {w w' : World} {x : α}
    (h : a.exec w = (.ok x, w')) : (tryCatch a f).exec w = (.ok x, w') := by
  rw [exec_tryCatch, h]

/-- What is done after a failure runs where an action failed. -/
lemma exec_tryCatch_error {a : Action α} {f : Failure → Action α} {w w' : World} {e : Failure}
    (h : a.exec w = (.error e, w')) : (tryCatch a f).exec w = (f e).exec w' := by
  rw [exec_tryCatch, h]

end Action

/-! ## A file that grows -/

namespace FileSystem

/-- The entry with more content, if it is a file. -/
def Face.grown (more : Bytes) : Face → Face
  | .file content => .file (content ++ more)
  | .link target => .link target
  | .directory => .directory

/-- What stands at each location after a file has grown, if there is one at `log`. -/
def grow (log : Option Location) (more : Bytes) (f : Location → Option Face) :
    Location → Option Face :=
  fun loc => if log = some loc then (f loc).map (Face.grown more) else f loc

variable {f : Location → Option Face}

/-- Without a log, nothing grows. -/
@[simp] lemma grow_none (more : Bytes) (f : Location → Option Face) : grow none more f = f := by
  funext loc
  simp [grow]

/-- By nothing, a file does not grow. -/
@[simp] lemma grow_nil (log : Option Location) (f : Location → Option Face) :
    grow log [] f = f := by
  have hgrown : Face.grown [] = id := by
    funext face
    cases face <;> simp [Face.grown]
  funext loc
  simp [grow, hgrown]

/-- A file that has grown twice has grown by both together. -/
lemma grow_grow (log : Option Location) (a b : Bytes) (f : Location → Option Face) :
    grow log b (grow log a f) = grow log (a ++ b) f := by
  have hgrown : Face.grown b ∘ Face.grown a = Face.grown (a ++ b) := by
    funext face
    cases face <;> simp [Face.grown]
  funext loc
  by_cases h : log = some loc <;> simp [grow, h, hgrown]

/-- Another location than the log's keeps what stands there. -/
lemma grow_of_ne {log : Option Location} {loc : Location} (h : log ≠ some loc) (more : Bytes)
    (f : Location → Option Face) : grow log more f loc = f loc := by
  simp [grow, h]

/-- A file that grows holds more behind what it held, and other locations keep what stands there. -/
lemma grow_of_file {loc : Location} {content : Bytes} (h : f loc = some (.file content)) (more : Bytes) :
    grow (some loc) more f = Function.update f loc (some (.file (content ++ more))) := by
  funext loc'
  by_cases hloc : loc' = loc
  · subst hloc
    simp [grow, h, Face.grown]
  · rw [grow_of_ne fun he => hloc (Option.some.inj he).symm, Function.update_of_ne hloc]

/-- What stands nowhere does not grow. -/
lemma grow_eq_none_iff {log : Option Location} {more : Bytes} {loc : Location} :
    grow log more f loc = none ↔ f loc = none := by
  by_cases h : log = some loc <;> simp [grow, h]

/-- What grows stays the directory or the link that it is, or stays none. -/
lemma bind_fixture?_grow (log : Option Location) (more : Bytes) (f : Location → Option Face)
    (loc : Location) : (grow log more f loc).bind Face.fixture? = (f loc).bind Face.fixture? := by
  have hgrown : Face.fixture? ∘ Face.grown more = Face.fixture? := by
    funext face
    cases face <;> rfl
  rw [grow]
  split
  · rw [Option.bind_map, hgrown]
  · rfl

namespace State

/-- Adding to a file is letting it grow. -/
lemma view_append_eq_grow (s : State) (loc : Location) (more : Bytes) :
    (s.append loc more).view = grow (some loc) more s.view := by
  have hother : ∀ loc', loc' ≠ loc → (s.append loc more).view loc' = grow (some loc) more s.view loc' := by
    intro loc' hloc
    rw [view_append_of_ne hloc, grow_of_ne fun he => hloc (Option.some.inj he).symm]
  funext loc'
  by_cases hloc : loc' = loc
  · subst hloc
    unfold append
    cases hfind : Node.find? loc' s.root with
    | none => simp [grow, view, Node.view, hfind]
    | some n =>
      cases n with
      | file content =>
        have hview : s.view loc' = some (.file content) := view_eq_of_find? hfind
        rw [view_put_of_some (Node.isLeaf_file _) (by simp [hview]) (by simp [hview])]
        simp [grow, hview, Face.grown, Node.face]
      | link target => simp [grow, view, Node.view, hfind, Face.grown, Node.face]
      | directory es => simp [grow, view, Node.view, hfind, Face.grown, Node.face]
  · exact hother loc' hloc

/-- A file that grows does not show in the frame. -/
lemma frame_of_grow {s s' : State} {log : Option Location} {more : Bytes}
    (h : s'.view = grow log more s.view) : s'.frame = s.frame := by
  funext loc
  rw [frame, h, bind_fixture?_grow, frame]

end State

end FileSystem

/-! ## Reports -/

namespace World

/-- Where the file of the log is that is open, if there is one. -/
def logFile? (w : World) : Option FileSystem.Location := w.journal.bind Log.Journal.file

/-- Nothing has happened to the files since `w` but reports, which the log got. -/
structure Reported (w w' : World) : Prop where
  /-- The working directory is the same. -/
  home : w'.files.home = w.files.home
  /-- The log has grown. -/
  view : ∃ more, w'.files.view = FileSystem.grow w.logFile? more w.files.view
  /-- The log is the same. -/
  log : w'.logFile? = w.logFile?
  /-- The remote source is the same. -/
  remote : w'.remote = w.remote
  /-- The machine is the same. -/
  host : w'.host = w.host

namespace Reported

/-- Without a report, too, nothing has happened. -/
lemma refl (w : World) : Reported w w := ⟨rfl, ⟨[], by simp⟩, rfl, rfl, rfl⟩

/-- Reports can follow reports. -/
lemma trans {w₁ w₂ w₃ : World} (h : Reported w₁ w₂) (h' : Reported w₂ w₃) : Reported w₁ w₃ := by
  obtain ⟨more, hmore⟩ := h.view
  obtain ⟨more', hmore'⟩ := h'.view
  refine ⟨h'.home.trans h.home, ⟨more ++ more', ?_⟩, h'.log.trans h.log, h'.remote.trans h.remote,
    h'.host.trans h.host⟩
  rw [hmore', hmore, h.log, FileSystem.grow_grow]

/-- Reports do not show in the frame. -/
lemma frame {w w' : World} (h : Reported w w') : w'.files.frame = w.files.frame := by
  obtain ⟨more, hmore⟩ := h.view
  exact FileSystem.State.frame_of_grow hmore

/-- Reports leave alone what stands elsewhere than the log. -/
lemma view_of_ne {w w' : World} (h : Reported w w') {loc : FileSystem.Location}
    (hloc : w.logFile? ≠ some loc) : w'.files.view loc = w.files.view loc := by
  obtain ⟨more, hmore⟩ := h.view
  rw [hmore, FileSystem.grow_of_ne hloc]

end Reported

/-- A report is one. -/
lemma reported_report (w : World) (r : Record) : Reported w (w.report r) := by
  unfold report
  cases hj : w.journal with
  | none => exact ⟨rfl, ⟨[], by simp⟩, by simp [logFile?, hj], rfl, rfl⟩
  | some j =>
    simp only
    cases hf : j.file with
    | none =>
      refine ⟨?_, ⟨[], ?_⟩, ?_, rfl, rfl⟩
      · simp [Log.Journal.filesAfter, hf]
      · simp [Log.Journal.filesAfter, hf]
      · simp [logFile?, hj, Log.Journal.after]
    | some loc =>
      refine ⟨?_, ⟨Utf8.encodeAll (j.fate (j.emission r)).filed, ?_⟩, ?_, rfl, rfl⟩
      · simp [Log.Journal.filesAfter, hf]
      · simp only [Log.Journal.filesAfter, hf, logFile?, hj, Option.bind_some]
        exact FileSystem.State.view_append_eq_grow _ _ _
      · simp [logFile?, hj, Log.Journal.after]

/-- A report does not change the machine. -/
@[simp] lemma host_report (w : World) (r : Record) : (w.report r).host = w.host := by
  unfold report
  cases w.journal <;> rfl

/-- A report is no request. -/
@[simp] lemma requests_report (w : World) (r : Record) : (w.report r).requests = w.requests := by
  unfold report
  cases w.journal <;> rfl

/-- Where no log is open, files stay as they are when something is reported. -/
lemma files_report {w : World} {r : Record} (h : (w.report r).journal.isNone) :
    (w.report r).files = w.files := by
  unfold report at h ⊢
  cases hjournal : w.journal with
  | none => rfl
  | some j =>
    rw [hjournal] at h
    cases h

/-- The world with these files and nothing else, in which the root is the working directory. -/
def still (root : FileSystem.Node) (remote : Text → Reply) : World where
  host := ⟨fun _ _ => false, fun _ => none, .usual, ⟨false⟩, .usual⟩
  files := ⟨root, []⟩
  remote := remote
  requests := []
  records := []

end World

end EditorDocs
