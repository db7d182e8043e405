import EditorDocs.Proofs.FileSystem.Outline
import EditorDocs.Proofs.World.Directories

/-!
# Worlds that differ in their logs

Two worlds are twins if they differ in what was reported and in nothing else: the file of the log
may hold something else, and so may what the console has shown (`World.Twin`).  A report makes such
a difference (`World.Twin.of_report`).

An action is blind if it does not see the difference: in twins it gives the same and leaves twins
behind (`Action.IsBlind`).  Blind actions can be put together, and all file actions are blind but
those that read a file.  Those, too, keep the log: its file is there as long as it is open
(`Action.KeepsLog`).
-/

namespace EditorDocs

open FileSystem (State Location)

/-! ## Twins -/

namespace World

/-- The file of the log is there, if a log with a file is open. -/
def HasLog (w : World) : Prop :=
  ∀ loc, w.logFile? = some loc → ∃ content, w.files.view loc = some (.file content)

/-- The worlds differ in what was reported alone. -/
structure Twin (w v : World) : Prop where
  /-- The machine is the same. -/
  host : v.host = w.host
  /-- The files are the same but for the log's. -/
  files : State.Twin w.logFile? w.files v.files
  /-- The remote source is the same. -/
  remote : v.remote = w.remote
  /-- The requests were the same. -/
  requests : v.requests = w.requests
  /-- The log is the same. -/
  log : v.logFile? = w.logFile?
  /-- The same records are refused. -/
  refuses : ∀ r, v.refusal? r = w.refusal? r

namespace Twin

variable {w v u : World}

/-- A world is its own twin if the file of its log is there. -/
lemma refl (h : w.HasLog) : Twin w w := ⟨rfl, .refl h, rfl, rfl, rfl, fun _ => rfl⟩

/-- Being twins is mutual. -/
lemma symm (h : Twin w v) : Twin v w :=
  ⟨h.host.symm, h.log.symm ▸ h.files.symm, h.remote.symm, h.requests.symm, h.log.symm,
    fun r => (h.refuses r).symm⟩

/-- A world with a twin has the file of its log. -/
lemma hasLog (h : Twin w v) : w.HasLog := h.files.logged

/-- The twin of a twin is one. -/
lemma trans (h : Twin w v) (h' : Twin v u) : Twin w u :=
  ⟨h'.host.trans h.host, h.files.trans (h.log ▸ h'.files), h'.remote.trans h.remote,
    h'.requests.trans h.requests, h'.log.trans h.log,
    fun r => (h'.refuses r).trans (h.refuses r)⟩

/-- A report makes a twin of a world. -/
lemma of_report (h : w.HasLog) (r : Record) : Twin w (w.report r) := by
  have hlog := (reported_report w r).log
  have hrequests := requests_report w r
  have hfiles : State.Twin w.logFile? w.files (w.report r).files := by
    unfold report
    cases hj : w.journal with
    | none => exact .refl h
    | some j =>
      have hfile : w.logFile? = j.file := by rw [logFile?, hj, Option.bind_some]
      simp only [Log.Journal.filesAfter]
      cases hf : j.file with
      | none => exact .refl h
      | some loc =>
        rw [hfile, hf]
        exact .append (h loc (by rw [hfile, hf])) _
  exact ⟨host_report w r, hfiles, (reported_report w r).remote, hrequests, hlog,
    refusal?_report w r⟩

/-- Whatever is reported in them, twins stay twins. -/
lemma report (h : Twin w v) (r r' : Record) : Twin (w.report r) (v.report r') :=
  ((of_report h.hasLog r).symm.trans h).trans (of_report h.symm.hasLog r')

/-- Twins with other files that are twins. -/
lemma withFiles (h : Twin w v) {s t : State} (hst : State.Twin w.logFile? s t) :
    Twin (w.withFiles s) (v.withFiles t) :=
  ⟨h.host, hst, h.remote, h.requests, h.log, h.refuses⟩

/-- Twins in which a URL was asked for. -/
lemma request (h : Twin w v) (url : Text) :
    Twin { w with requests := w.requests ++ [url] } { v with requests := v.requests ++ [url] } :=
  ⟨h.host, h.files, h.remote, by rw [h.requests], h.log, h.refuses⟩

/-- Twins of which an entry has gone. -/
lemma forget (h : Twin w v) {s t : State} {loc : Location}
    (hst : State.Twin (State.Twin.without w.logFile? loc) s t) :
    Twin ((w.withFiles s).forget loc) ((v.withFiles t).forget loc) := by
  have hlog : ∀ (u : World) (s : State),
      ((u.withFiles s).forget loc).logFile? = State.Twin.without u.logFile? loc := by
    intro u s
    rw [logFile?_forget, logFile?_withFiles, State.Twin.without]
  refine ⟨h.host, ?_, h.remote, h.requests, ?_, fun r => ?_⟩
  · rw [hlog]
    exact hst
  · rw [hlog, hlog, h.log]
  · rw [World.refusal?_forget, World.refusal?_forget]
    exact h.refuses r

end Twin

end World

/-! ## Blind actions -/

namespace Action

variable {α β : Type}

/-- The action gives the same in both worlds and leaves twins behind. -/
def Agrees (a : Action α) (w v : World) : Prop :=
  ∃ x w' v', a.exec w = (x, w') ∧ a.exec v = (x, v') ∧ w'.Twin v'

/-- The action does not see what was reported. -/
def IsBlind (a : Action α) : Prop := ∀ w v, World.Twin w v → a.Agrees w v

variable {a : Action α} {f : α → Action β} {w v : World}

/-- An action agrees whose second part does wherever the first one succeeds. -/
lemma Agrees.bind (h : a.Agrees w v)
    (hf : ∀ x w' v', a.exec w = (.ok x, w') → w'.Twin v' → (f x).Agrees w' v') :
    (a >>= f).Agrees w v := by
  obtain ⟨x, w', v', hw, hv, htwin⟩ := h
  cases x with
  | error e =>
    exact ⟨.error e, w', v', exec_bind_error hw, exec_bind_error hv, htwin⟩
  | ok x =>
    obtain ⟨y, w'', v'', hw', hv', htwin'⟩ := hf x w' v' hw htwin
    exact ⟨y, w'', v'', (exec_bind_ok hw).trans hw', (exec_bind_ok hv).trans hv', htwin'⟩

/-- An action agrees if what is done after a failure does. -/
lemma Agrees.tryCatch {g : Failure → Action α} (h : a.Agrees w v) (hg : ∀ e, (g e).IsBlind) :
    (tryCatch a g).Agrees w v := by
  obtain ⟨x, w', v', hw, hv, htwin⟩ := h
  cases x with
  | ok x => exact ⟨.ok x, w', v', exec_tryCatch_ok hw, exec_tryCatch_ok hv, htwin⟩
  | error e =>
    obtain ⟨y, w'', v'', hw', hv', htwin'⟩ := hg e w' v' htwin
    exact ⟨y, w'', v'', (exec_tryCatch_error hw).trans hw', (exec_tryCatch_error hv).trans hv',
      htwin'⟩

/-- Blind actions in a row are blind. -/
lemma IsBlind.bind (h : a.IsBlind) (hf : ∀ x, (f x).IsBlind) : (a >>= f).IsBlind :=
  fun w v hwv => (h w v hwv).bind fun x w' v' _ htwin => hf x w' v' htwin

/-- A blind action is blind with a blind one after its failures. -/
lemma IsBlind.tryCatch {g : Failure → Action α} (h : a.IsBlind) (hg : ∀ e, (g e).IsBlind) :
    (tryCatch a g).IsBlind :=
  fun w v hwv => (h w v hwv).tryCatch hg

/-- To succeed is blind. -/
lemma isBlind_pure (x : α) : IsBlind (pure x : Action α) :=
  fun w v hwv => ⟨.ok x, w, v, rfl, rfl, hwv⟩

/-- To fail is blind. -/
lemma isBlind_throw (e : Failure) : IsBlind (throw e : Action α) :=
  fun w v hwv => ⟨.error e, w, v, rfl, rfl, hwv⟩

/-- What a pure computation gives is blind. -/
lemma isBlind_ofExcept (x : Except Failure α) : IsBlind (ofExcept x) :=
  fun w v hwv => ⟨x, w, v, exec_ofExcept x w, exec_ofExcept x v, hwv⟩

/-- To report is blind. -/
lemma isBlind_report (r : Record) : IsBlind (Action.report r) := by
  intro w v hwv
  unfold Agrees
  rw [exec_report, exec_report, hwv.refuses r]
  split <;> exact ⟨_, _, _, rfl, rfl, hwv.report r r⟩

/-- To ask for a URL is blind. -/
lemma isBlind_request (url : Text) : IsBlind (Action.request url) := by
  intro w v hwv
  refine ⟨.ok (w.remote url), _, _, rfl, ?_, hwv.request url⟩
  rw [exec_request, hwv.remote]

/-- To do what is blind for each item is blind. -/
lemma isBlind_forM {f : α → Action Unit} (hf : ∀ x, (f x).IsBlind) (items : List α) :
    (items.forM f).IsBlind := by
  induction items with
  | nil => exact isBlind_pure ()
  | cons x rest ih => exact (hf x).bind fun _ => ih

/-- An action that only looks is blind if it finds the same in twins. -/
lemma isBlind_of_look {a : Action α} {g : World → Except Failure α} (ha : ∀ w, a.exec w = (g w, w))
    (hg : ∀ w v, World.Twin w v → g v = g w) : a.IsBlind := by
  intro w v hwv
  exact ⟨g w, w, v, ha w, by rw [ha v, hg w v hwv], hwv⟩

/-- How numbers are measured is found blindly. -/
lemma isBlind_reader : IsBlind reader :=
  isBlind_of_look exec_reader fun w v hwv => by rw [hwv.host]

/-! ## Keeping the log -/

/-- The action does not take the log away without forgetting it. -/
def KeepsLog (a : Action α) : Prop := ∀ w, World.HasLog w → (a.exec w).2.HasLog

/-- A blind action keeps the log. -/
lemma IsBlind.keepsLog (h : a.IsBlind) : a.KeepsLog := by
  intro w hw
  obtain ⟨x, w', v', hx, -, htwin⟩ := h w w (.refl hw)
  rw [hx]
  exact htwin.hasLog

/-- Actions in a row that keep the log keep it together. -/
lemma KeepsLog.bind (h : a.KeepsLog) (hf : ∀ x, (f x).KeepsLog) : (a >>= f).KeepsLog := by
  intro w hw
  have hfirst := h w hw
  rw [exec_bind]
  rcases hexec : a.exec w with ⟨e | x, w'⟩
  all_goals rw [hexec] at hfirst
  · exact hfirst
  · exact hf x w' hfirst

/-- An action keeps the log if it does so itself, and so does what is done after its failures. -/
lemma KeepsLog.tryCatch {g : Failure → Action α} (h : a.KeepsLog) (hg : ∀ e, (g e).KeepsLog) :
    (tryCatch a g).KeepsLog := by
  intro w hw
  have hfirst := h w hw
  rw [exec_tryCatch]
  rcases hexec : a.exec w with ⟨e | x, w'⟩
  all_goals rw [hexec] at hfirst
  · exact hg e w' hfirst
  · exact hfirst

end Action

namespace Files

open EditorDocs.Action FileSystem

/-! ## Looking -/

/-- Whether there is something at a path is found blindly. -/
lemma isBlind_isThere (path : Text) : (isThere path).IsBlind := by
  refine isBlind_of_look (exec_isThere path) fun w v hwv => ?_
  have hlookup := hwv.files.alike.lookup path
  have hfinds : (v.files.lookup path).isOk = (w.files.lookup path).isOk := by
    cases hw : w.files.lookup path <;> cases hv : v.files.lookup path <;>
      simp [hw, hv, Except.map] at hlookup <;> rfl
  rw [finds, finds, hfinds]

/-- Whether there is a directory at a path is found blindly. -/
lemma isBlind_isDirectory (path : Text) : (isDirectory path).IsBlind := by
  refine isBlind_of_look (exec_isDirectory path) fun w v hwv => ?_
  have hlookup := hwv.files.alike.lookup path
  have hsame : v.files.isDirectory path = w.files.isDirectory path := by
    unfold State.isDirectory
    cases hw : w.files.lookup path <;> cases hv : v.files.lookup path <;>
      simp [hw, hv, Except.map] at hlookup <;> simp [hlookup]
  rw [hsame]

/-- Whether something exists is found blindly. -/
lemma isBlind_exists? (path : Text) : (exists? path).IsBlind := by
  refine isBlind_of_look (exec_exists? path) fun w v hwv => ?_
  have hlookup := hwv.files.alike.lookup path
  cases hw : w.files.lookup path <;> cases hv : v.files.lookup path <;>
    simp [hw, hv, Except.map] at hlookup <;> simp [hlookup]

/-- Whether something is a directory is found blindly. -/
lemma isBlind_isDirectory? (path : Text) : (isDirectory? path).IsBlind := by
  refine isBlind_of_look (exec_isDirectory? path) fun w v hwv => ?_
  rw [hwv.files.alike.lookup path]

/-- A file other than the log's is read blindly. -/
lemma agrees_read {path : Text} {w v : World} (h : w.Twin v)
    (hlog : ∀ loc n, w.files.locate .lookup path = .ok (.object loc n) → w.logFile? ≠ some loc) :
    (read path).Agrees w v := by
  refine ⟨_, w, v, exec_look _ _ w, ?_, h⟩
  rw [read, exec_look, h.files.read hlog]

/-- To read a file keeps the log. -/
lemma keepsLog_read (path : Text) : (read path).KeepsLog := by
  intro w hw
  rw [read, exec_look]
  exact hw

/-! ## Changing -/

variable {α : Type}

/-- A change is blind that does the same to twins. -/
lemma isBlind_change {op : State → Text → Except Errno (α × State)} {path : Text}
    (h : ∀ {log : Option Location} {s t : State}, s.Twin log t →
      State.Twin.Same (fun _ => log) (op s path) (op t path)) : (change op path).IsBlind := by
  intro w v hwv
  unfold Action.Agrees
  rw [exec_change, exec_change]
  cases refusal? path with
  | some f => exact ⟨.error f, w, v, rfl, rfl, hwv⟩
  | none =>
    have hsame := h hwv.files
    generalize op w.files path = x at hsame
    generalize op v.files path = y at hsame
    cases hsame with
    | error e => exact ⟨_, w, v, rfl, rfl, hwv⟩
    | ok htwin => exact ⟨_, _, _, rfl, rfl, hwv.withFiles htwin⟩

/-- To make a directory is blind. -/
lemma isBlind_makeDirectory (path : Text) : (makeDirectory path).IsBlind :=
  isBlind_change fun h => h.makeDirectory path

/-- To make a directory unless there is one is blind. -/
lemma isBlind_ensureDirectory {test : Text → Action Bool} {path : Text}
    (htest : (test path).IsBlind) : (ensureDirectory test path).IsBlind := by
  refine (isBlind_makeDirectory path).tryCatch fun e => ?_
  split
  · refine htest.bind fun found => ?_
    split
    · exact isBlind_pure ()
    · exact isBlind_throw e
  · exact isBlind_throw e

/-- To make a path is blind. -/
lemma isBlind_makePath (p : Path) : (makePath p).IsBlind := by
  have hensure : ∀ q : Path, (ensureDirectory isDirectory? q.text).IsBlind :=
    fun q => isBlind_ensureDirectory (isBlind_isDirectory? q.text)
  have hafter : ∀ (rounds : Nat) (q : Path), (makePathAfter rounds q).IsBlind := by
    intro rounds
    induction rounds with
    | zero => exact hensure
    | succ rounds ih =>
      intro q
      refine (hensure q).tryCatch fun e => ?_
      split
      · split
        · exact isBlind_throw _
        · exact (ih q.parent).bind fun _ => hensure q
      · exact isBlind_throw _
  exact hafter _ p

/-- To make a directory and those on the way to it is blind. -/
lemma isBlind_makeDirectories (missing : Nat) (path : Text) :
    (makeDirectories missing path).IsBlind := by
  induction missing generalizing path with
  | zero => exact isBlind_throw _
  | succ missing ih =>
    have hensure := isBlind_ensureDirectory (isBlind_isDirectory path)
    unfold makeDirectories
    generalize splitPath path = parts
    refine (isBlind_isThere parts.1).bind fun found => ?_
    simp only
    split
    · refine IsBlind.bind ((ih _).tryCatch fun e => ?_) fun _ => ?_
      · split
        · exact isBlind_pure ()
        · exact isBlind_throw _
      · split
        · exact isBlind_pure ()
        · exact hensure
    · exact hensure

/-- To create a fresh file is blind. -/
lemma isBlind_createFresh (directory : Path) (start stop : Text) :
    (createFresh directory start stop).IsBlind := by
  intro w v hwv
  have hname : freshEnd? v.files stop = freshEnd? w.files stop := by
    have hany : ∀ p, v.files.root.anyName p = w.files.root.anyName p := by
      intro p
      rw [← Node.anyName_outline, ← Node.anyName_outline p w.files.root, hwv.files.outline]
    unfold freshEnd?
    simp only [hany]
  have hhome : v.workingDirectory = w.workingDirectory := by
    rw [World.workingDirectory, World.workingDirectory, hwv.files.home]
  have hcreate : ∀ path : Text, IsBlind (do
      let loc ← change State.createFile path
      pure (path, loc)) :=
    fun path => (isBlind_change fun h => h.createFile path).bind fun loc => isBlind_pure _
  unfold createFresh Action.Agrees
  simp only [Action.exec_bind, Action.exec_get, hname, hhome]
  cases freshEnd? w.files stop with
  | none => exact ⟨_, w, v, rfl, rfl, hwv⟩
  | some e =>
    have hagrees := hcreate
      (FileSystem.under (w.workingDirectory.append directory).collapse.text start ++ e) w v hwv
    simpa only [Action.Agrees, Action.exec_bind] using hagrees

/-- To open a file that is to be overwritten is blind. -/
lemma isBlind_openForWriting (path : Text) : (openForWriting true path).IsBlind :=
  isBlind_change fun h => h.openForWriting path

/-- To give an open file a content is blind. -/
lemma isBlind_store (loc : Location) (content : Bytes) : (store loc content).IsBlind :=
  fun _ _ hwv => ⟨.ok (), _, _, rfl, rfl, hwv.withFiles (hwv.files.store loc content)⟩

/-- To give an open file a text is blind. -/
lemma isBlind_storeText (loc : Location) (t : Text) : (storeText loc t).IsBlind := by
  unfold storeText
  split
  · exact isBlind_store loc _
  · exact isBlind_throw _

/-- To delete a file is blind. -/
lemma isBlind_unlink (path : Text) : (unlink path).IsBlind := by
  intro w v hwv
  unfold unlink Action.Agrees
  rw [Action.exec_bind, Action.exec_bind, exec_change, exec_change]
  cases refusal? path with
  | some f => exact ⟨.error f, w, v, rfl, rfl, hwv⟩
  | none =>
    have hsame := hwv.files.unlink path
    generalize w.files.unlink path = x at hsame
    generalize v.files.unlink path = y at hsame
    cases hsame with
    | error e => exact ⟨_, w, v, rfl, rfl, hwv⟩
    | ok htwin => exact ⟨_, _, _, rfl, rfl, hwv.forget htwin⟩

/-- To delete a file if there is one is blind. -/
lemma isBlind_discard (path : Text) : (discard path).IsBlind := by
  refine (isBlind_unlink path).tryCatch fun e => ?_
  split
  · exact isBlind_pure ()
  · exact isBlind_throw _

/-- A file other than the log's is moved blindly. -/
lemma agrees_replace {source : Text} {src : Location} {content : Bytes} {w v : World}
    (h : w.Twin v) (hsource : w.files.locate .entry source = .ok (.object src (.file content)))
    (hlog : w.logFile? ≠ some src) (target : Text) : (replace source target).Agrees w v := by
  unfold Action.Agrees
  rw [exec_replace, exec_replace]
  cases (refusal? source).orElse fun _ => refusal? target with
  | some f => exact ⟨.error f, w, v, rfl, rfl, h⟩
  | none =>
    have hsame := h.files.replace hsource hlog target
    generalize w.files.replace source target = x at hsame
    generalize v.files.replace source target = y at hsame
    cases hsame with
    | error e => exact ⟨_, w, v, rfl, rfl, h⟩
    | @ok gone s t htwin =>
      cases gone with
      | none => exact ⟨_, _, _, rfl, rfl, h.withFiles htwin⟩
      | some loc => exact ⟨_, _, _, rfl, rfl, h.forget htwin⟩

end Files

end EditorDocs
