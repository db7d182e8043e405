import EditorDocs.Proofs.Index.Confined
import EditorDocs.Proofs.World.Directories

/-!
# Tasks that are done side by side

Records are written, deleted and read by tasks that share the files and know nothing of each other.
What a task does it does in acts (`Cache.Proceeds`): to write a record it makes the directory of the
records, creates a temporary file under a name that nobody has, adds the content piece by piece, and
moves the file to its place; or something goes wrong at any time, and the temporary file is deleted.
A record is deleted in one act, and read in one.

A run (`Cache.Run`) interleaves the acts of any tasks.  It takes all that writing a record does into
account: what `Cache.write` does by itself is a run of one task (`Cache.exists_run_of_write`).
-/

namespace EditorDocs.Cache

open FileSystem

/-! ## Tasks and what they do -/

/-- What is to be done about the record of a language. -/
inductive Task where
  /-- The index is to be written as the record. -/
  | write (language : Text) (index : Index)
  /-- The record is to be deleted. -/
  | clear (language : Text)
  /-- The record is to be read. -/
  | read (language : Text)

/-- The language that a task is about. -/
def Task.language : Task → Text
  | .write language _ | .clear language | .read language => language

/-- How far a task has come. -/
inductive Stage where
  /-- Nothing has been done. -/
  | ready
  /-- The directory of the records has been made. -/
  | made
  /-- The temporary file is open, and this is to be added to it. -/
  | filling (temporary : Text) (file : Location) (rest : Bytes)
  /-- Something went wrong, and the temporary file is to be deleted. -/
  | failing (temporary : Text) (file : Location)
  /-- The task is over. -/
  | finished

/-- What a task does at a time. -/
inductive Act where
  /-- The directory of the records is made. -/
  | make
  /-- A temporary file is created. -/
  | create
  /-- Something is added to the temporary file. -/
  | append
  /-- The temporary file is moved to the place of the record. -/
  | replace
  /-- The record is deleted. -/
  | unlink
  /-- The temporary file is deleted. -/
  | discard
  /-- Something goes wrong, and no file changes. -/
  | fail
  /-- The record is read, with this outcome. -/
  | read (outcome : Except Failure Index)

/-- In a world, a task that has come to a stage does something, and then has come to another stage in
another world. -/
inductive Proceeds (c : Cache) : Task → Stage → World → Act → Stage → World → Prop where
  /-- The directory of the records is made, with the directories on the way. -/
  | make {language index w w'} (made : (Files.makePath c.directory).exec w = (.ok (), w')) :
      Proceeds c (.write language index) .ready w .make .made w'
  /-- Not all of the directories can be made. -/
  | makeFails {language index failure w w'}
      (made : (Files.makePath c.directory).exec w = (.error failure, w')) :
      Proceeds c (.write language index) .ready w .make .finished w'
  /-- A temporary file is created under a name that nobody has, whatever tells it apart. -/
  | create {language index token temporary file w w'} (slash : ('/' : CodePoint) ∉ token)
      (path : temporary =
        Files.freshPath w.files c.directory (temporaryStart language) ++ (token ++ ".tmp"))
      (created : (Files.change State.createFile temporary).exec w = (.ok file, w')) :
      Proceeds c (.write language index) .made w .create
        (.filling temporary file (Utf8.encodeAll index.render)) w'
  /-- No temporary file can be created. -/
  | createFails {language index w} : Proceeds c (.write language index) .made w .fail .finished w
  /-- A piece of the content is added. -/
  | append {language index temporary file piece rest w} (scalar : index.IsScalar) :
      Proceeds c (.write language index) (.filling temporary file (piece ++ rest)) w .append
        (.filling temporary file rest) (w.withFiles (w.files.append file piece))
  /-- The file, which is complete, is moved to the place of the record. -/
  | replace {language index temporary file w w'} (scalar : index.IsScalar)
      (replaced : (Files.replace temporary (c.recordPath language).text).exec w = (.ok (), w')) :
      Proceeds c (.write language index) (.filling temporary file []) w .replace .finished w'
  /-- Something goes wrong while the temporary file is there. -/
  | fail {language index temporary file rest w} :
      Proceeds c (.write language index) (.filling temporary file rest) w .fail
        (.failing temporary file) w
  /-- The temporary file is deleted after all. -/
  | discard {language index temporary file w w'} {outcome : Except Failure Unit}
      (discarded : (Files.discard temporary).exec w = (outcome, w')) :
      Proceeds c (.write language index) (.failing temporary file) w .discard .finished w'
  /-- The record is deleted. -/
  | unlink {language w w'}
      (unlinked : (Files.unlink (c.recordPath language).text).exec w = (.ok (), w')) :
      Proceeds c (.clear language) .ready w .unlink .finished w'
  /-- There is no record, or it cannot be deleted. -/
  | unlinkFails {language failure w}
      (unlinked : (Files.unlink (c.recordPath language).text).exec w = (.error failure, w)) :
      Proceeds c (.clear language) .ready w .fail .finished w
  /-- The record is read. -/
  | read {language w} :
      Proceeds c (.read language) .ready w (.read ((c.read language).exec w).1) .finished w

/-- No task changes the machine. -/
lemma Proceeds.host {c : Cache} {task : Task} {stage stage' : Stage} {act : Act} {w w' : World}
    (h : c.Proceeds task stage w act stage' w') : w'.host = w.host := by
  cases h with
  | make made | makeFails made =>
    have hhost := Files.host_makePath c.directory w
    rwa [made] at hhost
  | create _ _ created =>
    obtain ⟨-, s, -, rfl⟩ := Files.of_change created
    rfl
  | @replace language _ temporary _ _ _ _ replaced =>
    have hhost := Files.host_replace temporary (c.recordPath language).text w
    rwa [replaced] at hhost
  | @discard _ _ temporary _ _ _ _ discarded =>
    have hhost := Files.host_discard temporary w
    rwa [discarded] at hhost
  | @unlink language _ _ unlinked =>
    have hhost := Files.host_unlink (c.recordPath language).text w
    rwa [unlinked] at hhost
  | createFails | append _ | fail | unlinkFails _ | read => rfl

/-- Tasks on their way, and the world that they share. -/
structure System (ι : Type*) where
  /-- How far each task has come. -/
  stages : ι → Stage
  /-- The world. -/
  world : World

/-- No task has begun. -/
def System.start {ι : Type*} (w : World) : System ι := ⟨fun _ => .ready, w⟩

/-- The system after one task has come to a stage, in another world. -/
def System.after {ι : Type*} [DecidableEq ι] (σ : System ι) (i : ι) (stage : Stage) (w : World) :
    System ι := ⟨Function.update σ.stages i stage, w⟩

section System

variable {ι : Type*} [DecidableEq ι] (σ : System ι) (i : ι) (stage : Stage) (w : World)

omit [DecidableEq ι] in
lemma System.stages_start : (System.start w).stages i = .ready := rfl

omit [DecidableEq ι] in
lemma System.world_start : (System.start w : System ι).world = w := rfl

@[simp] lemma System.world_after : (σ.after i stage w).world = w := rfl

@[simp] lemma System.stages_after_self : (σ.after i stage w).stages i = stage := by
  simp [System.after]

variable {i} in
lemma System.stages_after_of_ne {j : ι} (h : j ≠ i) :
    (σ.after i stage w).stages j = σ.stages j := by
  simp [System.after, h]

end System

/-- From a world in which no task has begun, the acts of the trace have led to a system. -/
inductive Run {ι : Type*} [DecidableEq ι] (c : Cache) (tasks : ι → Task) (w : World) :
    List (ι × Act) → System ι → Prop where
  /-- Nothing has been done. -/
  | start : Run c tasks w [] (.start w)
  /-- One task, whichever, has done something more. -/
  | step {trace σ i stage act stage' w'} (run : Run c tasks w trace σ) (hstage : σ.stages i = stage)
      (proceeds : c.Proceeds (tasks i) stage σ.world act stage' w') :
      Run c tasks w (trace ++ [(i, act)]) (σ.after i stage' w')

section Run

variable {ι : Type*} [DecidableEq ι] {c : Cache} {tasks : ι → Task} {w : World}

/-- A run does not change the machine. -/
lemma Run.host {trace : List (ι × Act)} {σ : System ι} (h : Run c tasks w trace σ) :
    σ.world.host = w.host := by
  induction h with
  | start => rfl
  | step run _ proceeds ih => exact proceeds.host.trans ih

/-- A run begins with a run. -/
lemma Run.of_append {before after : List (ι × Act)} {σ : System ι}
    (h : Run c tasks w (before ++ after) σ) : ∃ σ', Run c tasks w before σ' := by
  induction after using List.reverseRecOn generalizing σ with
  | nil => exact ⟨σ, by simpa using h⟩
  | append_singleton after a ih =>
    rw [← List.append_assoc] at h
    generalize htrace : before ++ after ++ [a] = trace at h
    cases h with
    | start => simp at htrace
    | step run _ proceeds =>
      obtain ⟨hbefore, -⟩ := List.append_inj' htrace rfl
      exact ih (hbefore ▸ run)

/-- What is read in a run is what is read in a world to which the run has led. -/
lemma Run.of_read {before after : List (ι × Act)} {i : ι} {outcome : Except Failure Index}
    {σ : System ι} (h : Run c tasks w (before ++ (i, .read outcome) :: after) σ) :
    ∃ σ', Run c tasks w before σ' ∧
      outcome = ((c.read (tasks i).language).exec σ'.world).1 := by
  rw [List.append_cons] at h
  obtain ⟨σ', h'⟩ := h.of_append
  generalize htrace : before ++ [(i, Act.read outcome)] = trace at h'
  cases h' with
  | start => simp at htrace
  | @step trace σ' j stage act stage' w' run _ proceeds =>
    obtain ⟨rfl, hlast⟩ := List.append_inj' htrace rfl
    obtain ⟨rfl, rfl⟩ := Prod.mk.inj (List.singleton_inj.mp hlast)
    refine ⟨σ', run, ?_⟩
    generalize htask : tasks i = task at proceeds
    cases proceeds
    rfl

end Run

/-! ## Writing a record by itself -/

/-- A temporary file for a record that is created fresh is one that a task can create. -/
lemma Proceeds.of_createFresh {c : Cache} {language temporary : Text} {index : Index}
    {file : Location} {w w' : World}
    (h : (Files.createFresh c.directory (temporaryStart language) ".tmp").exec w =
      (.ok (temporary, file), w')) :
    Proceeds c (.write language index) .made w .create
      (.filling temporary file (Utf8.encodeAll index.render)) w' := by
  obtain ⟨n, s', -, htemporary, hpass, hcreate, rfl⟩ := Files.createFile_of_createFresh h
  have hslash : ('/' : CodePoint) ∉ Files.candidate n := fun hmem =>
    absurd (Files.mem_candidate hmem).1 (by decide)
  refine .create hslash htemporary ?_
  rw [Files.exec_change, Files.refusal?_eq_none_iff.mpr hpass, hcreate]

/-- A temporary file that was created fresh is empty. -/
lemma view_of_createFresh {c : Cache} {language temporary : Text} {file : Location} {w w' : World}
    (h : (Files.createFresh c.directory (temporaryStart language) ".tmp").exec w =
      (.ok (temporary, file), w')) : w'.files.view file = some (.file []) := by
  obtain ⟨n, s', -, -, -, hcreate, rfl⟩ := Files.createFile_of_createFresh h
  obtain ⟨-, -, -, hview, -⟩ := State.view_createFile hcreate
  rw [World.files_withFiles, hview, Function.update_self]

/-- What an empty file is given is the same whether it is stored or added. -/
lemma append_eq_store {s : State} {file : Location} (content : Bytes)
    (h : s.view file = some (.file [])) : s.append file content = s.store file content := by
  have hfind := State.find?_of_view_file h
  simp only [State.append, State.store, hfind, List.nil_append]

section Alone

variable {c : Cache} {language : Text} {index : Index} {w : World} {trace : List (Unit × Act)}
  {σ : System Unit}

/-- If something goes wrong while the temporary file is there, then it is deleted. -/
lemma Run.exists_discard {temporary : Text} {file : Location} {rest : Bytes}
    (h : Run c (fun _ => .write language index) w trace σ)
    (hstage : σ.stages () = .filling temporary file rest) (failure : Failure) :
    ∃ σ' f, Run c (fun _ => .write language index) w
        (trace ++ [((), .fail)] ++ [((), .discard)]) σ' ∧ σ'.stages () = .finished ∧
      (do Files.discard temporary; throw failure : Action Unit).exec σ.world =
        (.error f, σ'.world) := by
  obtain ⟨x, v, hdiscard⟩ : ∃ x v, (Files.discard temporary).exec σ.world = (x, v) := ⟨_, _, rfl⟩
  have hrun := (h.step hstage .fail).step (System.stages_after_self ..) (.discard hdiscard)
  cases x with
  | ok u => exact ⟨_, failure, hrun, System.stages_after_self .., Action.exec_bind_ok hdiscard⟩
  | error f => exact ⟨_, f, hrun, System.stages_after_self .., Action.exec_bind_error hdiscard⟩

/-- A temporary file that is open is filled and moved to the place of the record, or deleted. -/
lemma Run.exists_install {temporary : Text} {file : Location}
    (h : Run c (fun _ => .write language index) w trace σ) (hnot : ((), Act.replace) ∉ trace)
    (hstage : σ.stages () = .filling temporary file (Utf8.encodeAll index.render))
    (hempty : σ.world.files.view file = some (.file [])) :
    ∃ trace' σ', Run c (fun _ => .write language index) w trace' σ' ∧ σ'.stages () = .finished ∧
      ∃ x, (installOrDiscard temporary file (c.recordPath language) index).exec σ.world =
          (x, σ'.world) ∧ (x = .ok () ↔ ((), Act.replace) ∈ trace') := by
  by_cases hindex : index.IsScalar
  · rw [← List.append_nil (Utf8.encodeAll index.render)] at hstage
    have hfull := h.step hstage (.append hindex)
    have hinstall : (install temporary file (c.recordPath language) index).exec σ.world = _ :=
      exec_install hindex σ.world
    rw [← append_eq_store _ hempty] at hinstall
    obtain ⟨x, v, hreplace⟩ : ∃ x v, (Files.replace temporary (c.recordPath language).text).exec
        (σ.world.withFiles (σ.world.files.append file (Utf8.encodeAll index.render))) = (x, v) :=
      ⟨_, _, rfl⟩
    rw [hreplace] at hinstall
    cases x with
    | ok u =>
      refine ⟨_, _, hfull.step (System.stages_after_self ..) (.replace hindex hreplace),
        System.stages_after_self .., .ok (), ?_, by simp⟩
      exact Action.exec_tryCatch_ok hinstall
    | error f =>
      -- a file that cannot be moved stays where it is
      obtain rfl := Files.eq_of_replace_error hreplace
      obtain ⟨σ', g, hrun, hfinished, hdiscard⟩ := hfull.exists_discard (System.stages_after_self ..) f
      refine ⟨_, σ', hrun, hfinished, .error g, ?_, by simpa using hnot⟩
      exact (Action.exec_tryCatch_error hinstall).trans hdiscard
  · obtain ⟨run, hinstall⟩ := exec_install_unwritable temporary file (c.recordPath language) hindex
    obtain ⟨σ', g, hrun, hfinished, hdiscard⟩ := h.exists_discard hstage (.unwritableText run)
    refine ⟨_, σ', hrun, hfinished, .error g, ?_, by simpa using hnot⟩
    exact (Action.exec_tryCatch_error (hinstall _)).trans hdiscard

end Alone

/-- Writing a record by itself is a run of one task, which is then reported if it succeeded.  It
succeeds if and only if the file was moved to the place of the record. -/
theorem exists_run_of_write (c : Cache) (language : Text) (index : Index) (w : World) :
    ∃ trace σ, Run c (fun _ : Unit => .write language index) w trace σ ∧
      σ.stages () = .finished ∧
      ((∃ f, (c.write language index).exec w = (.error f, σ.world) ∧ ((), Act.replace) ∉ trace) ∨
        ∃ r, (c.write language index).exec w =
            (.ok (c.recordPath language), σ.world.report r) ∧ ((), Act.replace) ∈ trace) := by
  have hstart : Run c (fun _ : Unit => .write language index) w [] (.start w) := .start
  rw [write_eq]
  obtain ⟨x, v, hmade⟩ : ∃ x v, (Files.makePath c.directory).exec w = (x, v) := ⟨_, _, rfl⟩
  cases x with
  | error f =>
    exact ⟨_, _, hstart.step (System.stages_start () w) (.makeFails hmade), System.stages_after_self ..,
      Or.inl ⟨f, Action.exec_bind_error hmade, by simp⟩⟩
  | ok u =>
    have hrun := hstart.step (System.stages_start () w) (.make hmade)
    rw [Action.exec_bind_ok hmade]
    rcases Files.exec_createFresh isEnding_temporary c.directory (temporaryStart language) v with
      ⟨f, hcreate, -⟩ | ⟨e, file, s', -, hcreate, -⟩
    · exact ⟨_, _, hrun.step (System.stages_after_self ..) .createFails, System.stages_after_self ..,
        Or.inl ⟨f, Action.exec_bind_error hcreate, by simp⟩⟩
    · have hopen := hrun.step (System.stages_after_self ..) (.of_createFresh hcreate)
      obtain ⟨trace, σ, hall, hfinished, x, hinstall, hiff⟩ :=
        hopen.exists_install (by simp) (System.stages_after_self ..) (view_of_createFresh hcreate)
      refine ⟨trace, σ, hall, hfinished, ?_⟩
      rw [Action.exec_bind_ok hcreate]
      cases x with
      | error f =>
        exact Or.inl ⟨f, Action.exec_bind_error hinstall, fun hmem => by simpa using hiff.mpr hmem⟩
      | ok u => exact Or.inr ⟨_, Action.exec_bind_ok hinstall, hiff.mp rfl⟩

end EditorDocs.Cache
