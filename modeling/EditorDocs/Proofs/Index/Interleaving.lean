import EditorDocs.Proofs.Index.Tasks

/-!
# Records that are written, deleted and read side by side

However the acts of tasks are interleaved, the files are what the acts that move a file to the place of
a record and those that delete a record make of them, each taken as a whole and in their order
(`Cache.effects`).  The invariant (`Cache.Explained`) is about all temporary files at once: each stands
where its path leads, holds what its task has added so far, has a name that no record has, and is that of
one task alone.  One act keeps it (`Cache.Explained.step`), and so does every run
(`Cache.Run.explained`).
-/

namespace EditorDocs.Cache

open FileSystem

/-! ## What acts make of the records -/

/-- The act changes a record. -/
def Act.Changes : Act → Prop
  | .replace | .unlink => True
  | _ => False

/-- What an act of a task makes of the entries in the directory of the records. -/
def Act.effect (task : Task) (act : Act) (entries : Name → Option Face) : Name → Option Face :=
  match act, task with
  | .replace, .write language index =>
    Function.update entries (entryName language) (some (.file (Utf8.encodeAll index.render)))
  | .unlink, .clear language => Function.update entries (entryName language) none
  | _, _ => entries

/-- An act that changes no record of a name has no effect on its entry. -/
lemma Act.effect_of_ne {task : Task} {act : Act} {name : Name} (entries : Name → Option Face)
    (h : act.Changes → entryName task.language ≠ name) : act.effect task entries name = entries name := by
  cases act <;> cases task <;> first
    | rfl
    | exact Function.update_of_ne (Ne.symm (h trivial)) _ _

/-- The effect on the entry of a record depends on the entries of records alone. -/
lemma Act.effect_congr {task : Task} {act : Act} {entries entries' : Name → Option Face}
    (h : ∀ language, entries (entryName language) = entries' (entryName language))
    (language : Text) :
    act.effect task entries (entryName language) = act.effect task entries' (entryName language) := by
  have hupdate : ∀ (n : Name) face, Function.update entries n face (entryName language) =
      Function.update entries' n face (entryName language) := by
    intro n face
    rw [Function.update_apply, Function.update_apply, h language]
  cases act <;> cases task <;> first
    | exact h language
    | exact hupdate _ _

/-- What stands in an entry after an act stood there before, or is what the act has put there. -/
lemma Act.effect_eq_some {task : Task} {act : Act} {entries : Name → Option Face} {name : Name}
    {face : Face} (h : act.effect task entries name = some face) :
    entries name = some face ∨ act = .replace ∧ ∃ language index, task = .write language index ∧
      entryName language = name ∧ face = .file (Utf8.encodeAll index.render) := by
  by_cases hchanged : act.Changes ∧ entryName task.language = name
  · obtain ⟨hchanges, rfl⟩ := hchanged
    cases act with
    | replace =>
      cases task with
      | write language index =>
        rw [Act.effect, Task.language, Function.update_self, Option.some.injEq] at h
        exact Or.inr ⟨rfl, language, index, rfl, rfl, h.symm⟩
      | clear _ => exact Or.inl h
      | read _ => exact Or.inl h
    | unlink =>
      cases task with
      | clear language =>
        rw [Act.effect, Task.language, Function.update_self] at h
        cases h
      | write _ _ => exact Or.inl h
      | read _ => exact Or.inl h
    | _ => exact hchanges.elim
  · rw [Act.effect_of_ne _ fun hchanges hname => hchanged ⟨hchanges, hname⟩] at h
    exact Or.inl h

section Effects

variable {ι : Type*} {tasks : ι → Task}

/-- What the acts of a trace make of the entries in the directory of the records, one after the other. -/
def effects (tasks : ι → Task) (entries : Name → Option Face) (trace : List (ι × Act)) :
    Name → Option Face :=
  trace.foldl (fun entries a => a.2.effect (tasks a.1) entries) entries

lemma effects_concat (entries : Name → Option Face) (trace : List (ι × Act)) (a : ι × Act) :
    effects tasks entries (trace ++ [a]) = a.2.effect (tasks a.1) (effects tasks entries trace) := by
  simp [effects]

lemma effects_append (entries : Name → Option Face) (before after : List (ι × Act)) :
    effects tasks entries (before ++ after) = effects tasks (effects tasks entries before) after := by
  simp [effects]

/-- Acts that change no record of a name have no effect on its entry. -/
lemma effects_of_ne {entries : Name → Option Face} {trace : List (ι × Act)} {name : Name}
    (h : ∀ a ∈ trace, a.2.Changes → entryName (tasks a.1).language ≠ name) :
    effects tasks entries trace name = entries name := by
  induction trace using List.reverseRecOn with
  | nil => rfl
  | append_singleton trace a ih =>
    rw [effects_concat, Act.effect_of_ne _ (h a (by simp))]
    exact ih fun b hb => h b (List.mem_append_left _ hb)

/-- What stands in an entry stood there at first, or is what some task has put there. -/
lemma effects_eq_some {entries : Name → Option Face} {trace : List (ι × Act)} {name : Name}
    {face : Face} (h : effects tasks entries trace name = some face) :
    entries name = some face ∨ ∃ i language index, (i, Act.replace) ∈ trace ∧
      tasks i = .write language index ∧ entryName language = name ∧
        face = .file (Utf8.encodeAll index.render) := by
  induction trace using List.reverseRecOn with
  | nil => exact Or.inl h
  | append_singleton trace a ih =>
    rw [effects_concat] at h
    rcases Act.effect_eq_some h with hbefore | ⟨hact, language, index, htask, hname, hface⟩
    · rcases ih hbefore with hfirst | ⟨i, language, index, hmem, hrest⟩
      · exact Or.inl hfirst
      · exact Or.inr ⟨i, language, index, List.mem_append_left _ hmem, hrest⟩
    · refine Or.inr ⟨a.1, language, index, List.mem_append_right _ ?_, htask, hname, hface⟩
      rw [← hact]
      exact List.mem_singleton_self a

end Effects

/-! ## Temporary files -/

/-- The file at the location is a temporary one of the path, and holds the content. -/
structure IsTemporary (s : State) (temporary : Text) (file : Location) (content : Bytes) : Prop where
  /-- The path can be passed. -/
  passable : Files.IsPassable temporary
  /-- The name is that of a temporary file. -/
  named : ∃ x : Text, file.getLast? = some (x ++ ".tmp")
  /-- The path leads to the file. -/
  leads : s.locate .entry temporary = .ok (.object file (.file content))

namespace IsTemporary

variable {s t : State} {temporary : Text} {file : Location} {content content' : Bytes}

/-- A temporary file holds its content. -/
lemma view (h : IsTemporary s temporary file content) : s.view file = some (.file content) :=
  State.view_eq_of_find? (State.find?_of_object h.leads)

/-- A temporary file stays one, whatever it holds, if directories and links stay. -/
lemma of_frame_eq (h : IsTemporary s temporary file content) (hframe : t.frame = s.frame)
    (hhome : t.home = s.home) (hview : t.view file = some (.file content')) :
    IsTemporary t temporary file content' :=
  ⟨h.passable, h.named,
    State.locate_of_frame_eq hframe hhome h.leads (by simp) (State.find?_of_view_file hview)⟩

/-- A temporary file is no record. -/
lemma ne_entry (h : IsTemporary s temporary file content) (d : Location) (language : Text) :
    file ≠ d ++ [entryName language] := by
  rintro rfl
  obtain ⟨x, hx⟩ := h.named
  rw [List.getLast?_concat, Option.some.injEq, entryName_eq] at hx
  exact name_ne_temporary _ _ hx

end IsTemporary

/-- The temporary file of a task at a stage, if it has one. -/
def Stage.file? : Stage → Option Location
  | .filling _ file _ | .failing _ file => some file
  | _ => none

/-- If a task at this stage has a temporary file then it is there, and holds what has been added. -/
def Stage.Holds (task : Task) (s : State) : Stage → Prop
  | .filling temporary file rest => ∃ content, IsTemporary s temporary file content ∧
      ∀ language index, task = .write language index →
        content ++ rest = Utf8.encodeAll index.render
  | .failing temporary file => ∃ content, IsTemporary s temporary file content
  | _ => True

/-- Where there is no temporary file, there is nothing to be held. -/
lemma Stage.holds_of_file?_eq_none {task : Task} {s : State} {stage : Stage}
    (h : stage.file? = none) : stage.Holds task s := by
  cases stage with
  | filling temporary file rest => cases h
  | failing temporary file => cases h
  | _ => trivial

/-- The temporary file of a stage is there. -/
lemma Stage.Holds.isTemporary {task : Task} {s : State} {stage : Stage} {file : Location}
    (h : stage.Holds task s) (hfile : stage.file? = some file) :
    ∃ temporary content, IsTemporary s temporary file content := by
  cases stage with
  | filling temporary file' rest =>
    cases hfile
    obtain ⟨content, htemporary, -⟩ := h
    exact ⟨temporary, content, htemporary⟩
  | failing temporary file' =>
    cases hfile
    obtain ⟨content, htemporary⟩ := h
    exact ⟨temporary, content, htemporary⟩
  | _ => cases hfile

/-- A temporary file is there still if directories and links stay and it is not changed. -/
lemma Stage.Holds.of_frame_eq {task : Task} {s t : State} {stage : Stage} (h : stage.Holds task s)
    (hframe : t.frame = s.frame) (hhome : t.home = s.home)
    (hview : ∀ file, stage.file? = some file → t.view file = s.view file) :
    stage.Holds task t := by
  cases stage with
  | filling temporary file rest =>
    obtain ⟨content, htemporary, hcontent⟩ := h
    exact ⟨content, htemporary.of_frame_eq hframe hhome ((hview file rfl).trans htemporary.view),
      hcontent⟩
  | failing temporary file =>
    obtain ⟨content, htemporary⟩ := h
    exact ⟨content, htemporary.of_frame_eq hframe hhome ((hview file rfl).trans htemporary.view)⟩
  | _ => trivial

/-! ## The invariant -/

/-- In the directory of the records, wherever it lies once directories have been made on the way to it,
no record of such a language is a symbolic link. -/
def Unlinked (c : Cache) (about : Text → Prop) (w : World) : Prop :=
  ∀ s d language target, Files.MakesWay c.directory w.files s → s.LiesAt c.directory.text d →
    about language → s.view (d ++ [entryName language]) ≠ some (.link target)

/-- Where there is no link, no record is one. -/
lemma unlinked_of_view {c : Cache} {w : World} (about : Text → Prop)
    (h : ∀ loc target, w.files.view loc ≠ some (.link target)) : c.Unlinked about w := by
  intro s d language target hway _ _ hlink
  rcases hway.view (d ++ [entryName language]) with hsame | ⟨-, hdirectory⟩
  · exact h _ target (hsame ▸ hlink)
  · rw [hdirectory] at hlink
    cases hlink

/-- The acts of a trace explain the files of a system: they are those at the start, with directories on
the way to that of the records, with the effects that the acts have on records, and with the temporary
files of tasks.  `s` is what the files were before anything but directories came. -/
structure Explained {ι : Type*} (c : Cache) (tasks : ι → Task) (w : World)
    (trace : List (ι × Act)) (σ : System ι) (s : State) : Prop where
  /-- Directories have been made on the way. -/
  way : Files.MakesWay c.directory w.files s
  /-- The working directory is the same. -/
  home : σ.world.files.home = s.home
  /-- Apart from these, directories and links are the same. -/
  frame : σ.world.files.frame = s.frame
  /-- As long as the directory of the records is not there, nothing else has come. -/
  unmade : (∀ d, ¬ s.LiesAt c.directory.text d) → σ.world.files = s
  /-- A task that is on its way has found the directory there. -/
  begun : ∀ i, σ.stages i = .ready ∨ σ.stages i = .finished ∨ ∃ d, s.LiesAt c.directory.text d
  /-- So has one that has changed a record, which then is neither a directory nor a link. -/
  acted : ∀ a ∈ trace, a.2.Changes → ∃ d, s.LiesAt c.directory.text d ∧
    s.frame (d ++ [entryName (tasks a.1).language]) = none
  /-- The records are what the acts have made of them. -/
  records : ∀ d language, s.LiesAt c.directory.text d →
    σ.world.files.view (d ++ [entryName language]) =
      effects tasks (fun name => s.view (d ++ [name])) trace (entryName language)
  /-- The temporary files are there. -/
  holds : ∀ i, (σ.stages i).Holds (tasks i) σ.world.files
  /-- Each is that of one task. -/
  apart : ∀ i j file, (σ.stages i).file? = some file → (σ.stages j).file? = some file → i = j

namespace Explained

variable {ι : Type*} {c : Cache} {tasks : ι → Task} {w : World} {trace : List (ι × Act)}
  {σ : System ι} {s : State}

/-- A directory lies in the system where it lay before anything but directories came. -/
lemma liesAt_iff (h : Explained c tasks w trace σ s) {path : Text} {d : Location} :
    σ.world.files.LiesAt path d ↔ s.LiesAt path d :=
  ⟨fun hd => hd.of_frame_eq h.frame.symm h.home.symm, fun hd => hd.of_frame_eq h.frame h.home⟩

/-- A task that is neither at its start nor over has found the directory of the records. -/
lemma exists_liesAt (h : Explained c tasks w trace σ s) {i : ι} {stage : Stage}
    (hstage : σ.stages i = stage) (hready : stage ≠ .ready) (hfinished : stage ≠ .finished) :
    ∃ d, s.LiesAt c.directory.text d := by
  rcases h.begun i with hi | hi | hlies
  · exact absurd (hstage.symm.trans hi) hready
  · exact absurd (hstage.symm.trans hi) hfinished
  · exact hlies

/-- A task that fills a temporary file has found the directory of the records, and its file holds what
has been added to it. -/
lemma of_filling (h : Explained c tasks w trace σ s) {i : ι} {temporary : Text} {file : Location}
    {rest : Bytes} (hstage : σ.stages i = .filling temporary file rest) :
    (σ.stages i).file? = some file ∧ (∃ d, s.LiesAt c.directory.text d) ∧
      ∃ content, IsTemporary σ.world.files temporary file content ∧
        ∀ language index, tasks i = .write language index →
          content ++ rest = Utf8.encodeAll index.render := by
  have hholds := h.holds i
  rw [hstage] at hholds
  exact ⟨by rw [hstage]; rfl, h.exists_liesAt hstage nofun nofun, hholds⟩

/-- A task for which something went wrong has found the directory of the records, and its temporary
file is there. -/
lemma of_failing (h : Explained c tasks w trace σ s) {i : ι} {temporary : Text} {file : Location}
    (hstage : σ.stages i = .failing temporary file) :
    (σ.stages i).file? = some file ∧ (∃ d, s.LiesAt c.directory.text d) ∧
      ∃ content, IsTemporary σ.world.files temporary file content := by
  have hholds := h.holds i
  rw [hstage] at hholds
  exact ⟨by rw [hstage]; rfl, h.exists_liesAt hstage nofun nofun, hholds⟩

/-- The temporary files of two tasks are different. -/
lemma file_ne (h : Explained c tasks w trace σ s) {i j : ι} (hj : j ≠ i) {file file' : Location}
    (hfile : (σ.stages i).file? = some file) (hfile' : (σ.stages j).file? = some file') :
    file' ≠ file := by
  rintro rfl
  exact hj (h.apart j i file' hfile' hfile)

/-- The path of a record leads to its entry in the directory of the records. -/
lemma exists_entry (h : Explained c tasks w trace σ s) (hc : c.directory.IsProper) {language : Text}
    (hslash : ('/' : CodePoint) ∉ language) (hpass : Files.IsPassable (c.recordPath language).text)
    {place : Place} (hplace : σ.world.files.locate .entry (c.recordPath language).text = .ok place) :
    ∃ d, s.LiesAt c.directory.text d ∧ place.location = d ++ [entryName language] := by
  obtain ⟨d, hd, hlocation⟩ := exists_directory_of_record hc hslash hpass hplace
  exact ⟨d, h.liesAt_iff.mp hd, hlocation⟩

/-- No record is a link. -/
lemma view_ne_link (h : Explained c tasks w trace σ s) {about : Text → Prop} (hw : c.Unlinked about w)
    {language : Text} (hlanguage : about language) {d : Location}
    (hd : s.LiesAt c.directory.text d) (target : Text) :
    σ.world.files.view (d ++ [entryName language]) ≠ some (.link target) := by
  intro hview
  refine hw s d language target h.way hd hlanguage ?_
  have hframe : s.frame (d ++ [entryName language]) = some (.link target) := by
    rw [← h.frame, State.frame, hview]
    rfl
  exact State.view_of_frame hframe

/-- A record that is no directory does not show in the frame. -/
lemma frame_entry (h : Explained c tasks w trace σ s) {about : Text → Prop} (hw : c.Unlinked about w)
    {language : Text} (hlanguage : about language) {d : Location}
    (hd : s.LiesAt c.directory.text d)
    (hdirectory : σ.world.files.view (d ++ [entryName language]) ≠ some .directory) :
    σ.world.files.frame (d ++ [entryName language]) = none := by
  cases hfixture : σ.world.files.frame (d ++ [entryName language]) with
  | none => rfl
  | some fixture =>
    have hview := State.view_of_frame hfixture
    cases fixture with
    | link target => exact absurd hview (h.view_ne_link hw hlanguage hd target)
    | directory => exact absurd hview hdirectory

/-- As long as the directory of the records is not there, the files are explained anew when more
directories are made on the way to it. -/
lemma remade (h : Explained c tasks w trace σ s) (hnone : ∀ d, ¬ s.LiesAt c.directory.text d)
    {s' : State} (hway : Files.MakesWay c.directory s s') :
    Explained c tasks w trace ⟨σ.stages, σ.world.withFiles s'⟩ s' := by
  have hidle : ∀ i, σ.stages i = .ready ∨ σ.stages i = .finished := by
    intro i
    rcases h.begun i with hi | hi | ⟨d, hd⟩
    · exact Or.inl hi
    · exact Or.inr hi
    · exact absurd hd (hnone d)
  have hfile : ∀ i, (σ.stages i).file? = none := by
    intro i
    rcases hidle i with hi | hi <;> rw [hi] <;> rfl
  have hacted : ∀ a ∈ trace, ¬ a.2.Changes := by
    intro a ha hchanges
    obtain ⟨d, hd, -⟩ := h.acted a ha hchanges
    exact hnone d hd
  exact {
    way := h.way.trans hway
    home := rfl
    frame := rfl
    unmade := fun _ => rfl
    begun := fun i => (hidle i).imp_right Or.inl
    acted := fun a ha hchanges => absurd hchanges (hacted a ha)
    records := fun d language _ => by
      rw [effects_of_ne fun a ha hchanges => absurd hchanges (hacted a ha)]
      rfl
    holds := fun i => Stage.holds_of_file?_eq_none (hfile i)
    apart := fun i j file hi _ => by
      rw [hfile i] at hi
      cases hi }

/-- At the start there is nothing to be explained. -/
lemma start (c : Cache) (tasks : ι → Task) (w : World) :
    Explained c tasks w [] (.start w) w.files where
  way := .refl _
  home := rfl
  frame := rfl
  unmade _ := rfl
  begun _ := Or.inl rfl
  acted := by simp
  records _ _ _ := rfl
  holds _ := trivial
  apart _ _ _ h := by cases h

variable [DecidableEq ι]

/-- If the directory of the records is there, an act is explained that leaves directories and links as
they are, has its effect on the records, and leaves the temporary files of other tasks alone. -/
lemma step (h : Explained c tasks w trace σ s) {d : Location} (hd : s.LiesAt c.directory.text d)
    {i : ι} {act : Act} {stage : Stage} {w' : World}
    (hhome : w'.files.home = σ.world.files.home) (hframe : w'.files.frame = σ.world.files.frame)
    (hothers : ∀ j ≠ i, ∀ file, (σ.stages j).file? = some file →
      w'.files.view file = σ.world.files.view file)
    (hacted : act.Changes →
      σ.world.files.frame (d ++ [entryName (tasks i).language]) = none)
    (hrecords : ∀ language, w'.files.view (d ++ [entryName language]) =
      act.effect (tasks i) (fun name => σ.world.files.view (d ++ [name])) (entryName language))
    (hholds : stage.Holds (tasks i) w'.files)
    (hfile : ∀ file, stage.file? = some file →
      (σ.stages i).file? = some file ∨ σ.world.files.view file = none) :
    Explained c tasks w (trace ++ [(i, act)]) (σ.after i stage w') s where
  way := h.way
  home := hhome.trans h.home
  frame := hframe.trans h.frame
  unmade hnone := absurd hd (hnone d)
  begun _ := Or.inr (Or.inr ⟨d, hd⟩)
  acted a ha hchanges := by
    rcases List.mem_append.mp ha with hbefore | hlast
    · exact h.acted a hbefore hchanges
    · obtain rfl := List.mem_singleton.mp hlast
      exact ⟨d, hd, h.frame ▸ hacted hchanges⟩
  records d' language hd' := by
    obtain rfl := hd.unique hd'
    rw [System.world_after, hrecords language, effects_concat]
    exact Act.effect_congr (fun language => h.records d language hd) language
  holds j := by
    by_cases hj : j = i
    · rw [hj, System.stages_after_self]
      exact hholds
    · rw [System.stages_after_of_ne _ _ _ hj]
      exact (h.holds j).of_frame_eq hframe hhome (hothers j hj)
  apart j k file hjfile hkfile := by
    -- a file that the task has now is that of no other task
    have hown : ∀ j ≠ i, stage.file? = some file → (σ.stages j).file? ≠ some file := by
      intro j hj hnow hother
      rcases hfile file hnow with hbefore | hnone
      · exact hj (h.apart j i file hother hbefore)
      · obtain ⟨temporary, content, htemporary⟩ := (h.holds j).isTemporary hother
        rw [htemporary.view] at hnone
        cases hnone
    by_cases hj : j = i <;> by_cases hk : k = i
    · rw [hj, hk]
    · rw [hj, System.stages_after_self] at hjfile
      rw [System.stages_after_of_ne _ _ _ hk] at hkfile
      exact absurd hkfile (hown k hk hjfile)
    · rw [hk, System.stages_after_self] at hkfile
      rw [System.stages_after_of_ne _ _ _ hj] at hjfile
      exact absurd hjfile (hown j hj hkfile)
    · rw [System.stages_after_of_ne _ _ _ hj] at hjfile
      rw [System.stages_after_of_ne _ _ _ hk] at hkfile
      exact h.apart j k file hjfile hkfile

/-- An act that changes nothing is explained, if the task then has no temporary file, and is over or
has found the directory of the records. -/
lemma stay (h : Explained c tasks w trace σ s) (i : ι) {act : Act} (hact : ¬ act.Changes)
    {stage : Stage} (hfile : stage.file? = none)
    (hbegun : stage = .finished ∨ ∃ d, s.LiesAt c.directory.text d) :
    Explained c tasks w (trace ++ [(i, act)]) (σ.after i stage σ.world) s where
  way := h.way
  home := h.home
  frame := h.frame
  unmade := h.unmade
  begun j := by
    by_cases hj : j = i
    · rw [hj, System.stages_after_self]
      exact Or.inr hbegun
    · rw [System.stages_after_of_ne _ _ _ hj]
      exact h.begun j
  acted a ha hchanges := by
    rcases List.mem_append.mp ha with hbefore | hlast
    · exact h.acted a hbefore hchanges
    · obtain rfl := List.mem_singleton.mp hlast
      exact absurd hchanges hact
  records d language hd := by
    rw [effects_concat, Act.effect_of_ne _ fun hchanges => absurd hchanges hact]
    exact h.records d language hd
  holds j := by
    by_cases hj : j = i
    · rw [hj, System.stages_after_self]
      exact Stage.holds_of_file?_eq_none hfile
    · rw [System.stages_after_of_ne _ _ _ hj]
      exact h.holds j
  apart j k file hjfile hkfile := by
    have hstays : ∀ j, ((σ.after i stage σ.world).stages j).file? = some file →
        (σ.stages j).file? = some file := by
      intro j hj
      by_cases hji : j = i
      · rw [hji, System.stages_after_self, hfile] at hj
        cases hj
      · rwa [System.stages_after_of_ne _ _ _ hji] at hj
    exact h.apart j k file (hstays j hjfile) (hstays k hkfile)

/-! ### One act after another -/

/-- That the directory of the records is made is explained. -/
lemma exists_make (h : Explained c tasks w trace σ s) (hc : c.directory.IsProper) (i : ι)
    {x : Except Failure Unit} {w' : World}
    (hmade : (Files.makePath c.directory).exec σ.world = (x, w')) {stage : Stage}
    (hfile : stage.file? = none) (hstage : stage = .finished ∨ x = .ok ()) :
    ∃ s', Explained c tasks w (trace ++ [(i, .make)]) (σ.after i stage w') s' := by
  cases hrefused : Files.refusal? c.directory.text with
  | some f =>
    rw [Files.exec_makePath_refused hrefused] at hmade
    cases hmade
    exact ⟨s, h.stay i id hfile (hstage.imp_right fun hx => by cases hx)⟩
  | none =>
    have hpass := Files.refusal?_eq_none_iff.mp hrefused
    by_cases hlies : ∃ d, s.LiesAt c.directory.text d
    · -- the directory is there already
      obtain ⟨d, hd⟩ := hlies
      have hdirectory := State.isDirectory_iff.mpr ⟨d, h.liesAt_iff.mpr hd⟩
      rw [Files.exec_makePath_of_isDirectory hc hpass hdirectory] at hmade
      cases hmade
      exact ⟨s, h.stay i id hfile (Or.inr ⟨d, hd⟩)⟩
    · have hnone : ∀ d, ¬ s.LiesAt c.directory.text d := fun d hd => hlies ⟨d, hd⟩
      obtain ⟨x', s', hexec, hway, -⟩ := Files.exec_makePath hpass σ.world
      rw [h.unmade hnone] at hway
      have hlies' : x = .ok () → ∃ d, w'.files.LiesAt c.directory.text d := by
        rintro rfl
        exact Files.exists_liesAt_of_makePath hc hmade
      rw [hexec] at hmade
      cases hmade
      exact ⟨s', (h.remade hnone hway).stay i id hfile (hstage.imp_right hlies')⟩

/-- That a temporary file grows is explained. -/
lemma append (h : Explained c tasks w trace σ s) {i : ι} {temporary : Text} {file : Location}
    {piece rest : Bytes} (hstage : σ.stages i = .filling temporary file (piece ++ rest)) :
    Explained c tasks w (trace ++ [(i, .append)])
      (σ.after i (.filling temporary file rest)
        (σ.world.withFiles (σ.world.files.append file piece))) s := by
  obtain ⟨hown, ⟨d, hd⟩, content, htemporary, hcontent⟩ := h.of_filling hstage
  have hview := State.view_append_of_file piece htemporary.view
  refine h.step hd (State.home_append ..) (State.frame_append ..) ?_ False.elim ?_ ?_ ?_
  · intro j hj file' hfile'
    rw [World.files_withFiles, hview, Function.update_of_ne (h.file_ne hj hown hfile')]
  · intro language
    rw [World.files_withFiles, hview,
      Function.update_of_ne (htemporary.ne_entry d language).symm]
    rfl
  · refine ⟨content ++ piece, htemporary.of_frame_eq (State.frame_append ..)
      (State.home_append ..) ?_, fun language index htask => ?_⟩
    · rw [World.files_withFiles, hview, Function.update_self]
    · rw [List.append_assoc, hcontent language index htask]
  · exact fun file' hfile' => Or.inl (hown.trans hfile')

/-- That something goes wrong is explained. -/
lemma fail (h : Explained c tasks w trace σ s) {i : ι} {temporary : Text} {file : Location}
    {rest : Bytes} (hstage : σ.stages i = .filling temporary file rest) :
    Explained c tasks w (trace ++ [(i, .fail)])
      (σ.after i (.failing temporary file) σ.world) s := by
  obtain ⟨hown, ⟨d, hd⟩, content, htemporary, -⟩ := h.of_filling hstage
  exact h.step hd rfl rfl (fun _ _ _ _ => rfl) False.elim (fun _ => rfl) ⟨content, htemporary⟩
    fun file' hfile' => Or.inl (hown.trans hfile')

/-- That a temporary file is created is explained. -/
lemma create (h : Explained c tasks w trace σ s) {i : ι} (hstage : σ.stages i = .made)
    {language : Text} {index : Index} (htask : tasks i = .write language index) {start : Text}
    {temporary : Text} (hpath : temporary = start ++ ".tmp") {file : Location} {w' : World}
    (hcreated : (Files.change State.createFile temporary).exec σ.world = (.ok file, w')) :
    Explained c tasks w (trace ++ [(i, .create)])
      (σ.after i (.filling temporary file (Utf8.encodeAll index.render)) w') s := by
  obtain ⟨d, hd⟩ := h.exists_liesAt hstage (by simp) (by simp)
  obtain ⟨hpass, s', hcreate, rfl⟩ := Files.of_change hcreated
  have hfresh : Files.Fresh ".tmp" σ.world.files s' temporary file := by
    rw [hpath] at hcreate ⊢
    exact Files.fresh_of_createFile (e := []) isEnding_temporary hcreate
  have htemporary : IsTemporary s' temporary file [] := by
    refine ⟨hpass, ?_, hfresh.leads⟩
    have hleads := hfresh.leads
    rw [hpath] at hleads
    exact State.exists_getLast?_location isEnding_temporary hleads
  refine h.step hd hfresh.home (hfresh.frame hfresh.view) ?_ False.elim ?_ ?_ ?_
  · intro j hj file' hfile'
    obtain ⟨temporary', content, htemporary'⟩ := (h.holds j).isTemporary hfile'
    rw [World.files_withFiles, hfresh.view, Function.update_of_ne]
    rintro rfl
    have habsent := hfresh.absent
    rw [htemporary'.view] at habsent
    cases habsent
  · intro language
    rw [World.files_withFiles, hfresh.view,
      Function.update_of_ne (htemporary.ne_entry d language).symm]
    rfl
  · refine ⟨[], htemporary, fun language' index' htask' => ?_⟩
    rw [htask, Task.write.injEq] at htask'
    rw [List.nil_append, htask'.2]
  · rintro file' ⟨⟩
    exact Or.inr hfresh.absent

/-- That a temporary file is deleted is explained. -/
lemma discard (h : Explained c tasks w trace σ s) {i : ι} {temporary : Text} {file : Location}
    (hstage : σ.stages i = .failing temporary file) {outcome : Except Failure Unit} {w' : World}
    (hdiscarded : (Files.discard temporary).exec σ.world = (outcome, w')) :
    Explained c tasks w (trace ++ [(i, .discard)]) (σ.after i .finished w') s := by
  obtain ⟨hown, ⟨d, hd⟩, content, htemporary⟩ := h.of_failing hstage
  rw [Files.exec_discard_of_locate htemporary.passable htemporary.leads (by simp [Node.face])]
    at hdiscarded
  obtain ⟨-, rfl⟩ := Prod.mk.inj hdiscarded
  have hview : (σ.world.files.remove file).view =
      Function.update σ.world.files.view file none :=
    State.view_remove (State.ne_nil_of_locate htemporary.leads (by simp [Node.face]))
      (by simp [htemporary.view])
  have hframe : (σ.world.files.remove file).frame = σ.world.files.frame :=
    State.frame_eq_of_view_update hview (by rw [State.frame, htemporary.view]; rfl)
  refine h.step hd rfl hframe ?_ False.elim ?_ trivial (by simp [Stage.file?])
  · intro j hj file' hfile'
    rw [World.files_forget, World.files_withFiles, hview,
      Function.update_of_ne (h.file_ne hj hown hfile')]
  · intro language
    rw [World.files_forget, World.files_withFiles, hview,
      Function.update_of_ne (htemporary.ne_entry d language).symm]
    rfl

/-- That a record is deleted is explained. -/
lemma unlink (h : Explained c tasks w trace σ s) (hc : c.directory.IsProper) {about : Text → Prop}
    (hw : c.Unlinked about w) {language : Text} (hlanguage : about language)
    (hslash : ('/' : CodePoint) ∉ language) {i : ι} (htask : tasks i = .clear language) {w' : World}
    (hunlinked : (Files.unlink (c.recordPath language).text).exec σ.world = (.ok (), w')) :
    Explained c tasks w (trace ++ [(i, .unlink)]) (σ.after i .finished w') s := by
  obtain ⟨hpass, gone, hunlink⟩ := Files.of_unlink hunlinked
  obtain ⟨hhome, hview, n, hplace, hface⟩ := State.view_unlink hunlink
  obtain ⟨d, hd, hgone⟩ := h.exists_entry hc hslash hpass hplace
  obtain rfl : gone = d ++ [entryName language] := hgone
  have hnone := h.frame_entry hw hlanguage hd (by
    rw [State.view_eq_of_find? (State.find?_of_object hplace)]
    simpa using hface)
  refine h.step hd hhome (State.frame_eq_of_view_update hview (by rw [hnone]; rfl)) ?_ (fun _ => ?_)
    ?_ trivial (by simp [Stage.file?])
  · intro j hj file hfile
    obtain ⟨temporary, content, htemporary⟩ := (h.holds j).isTemporary hfile
    rw [hview, Function.update_of_ne (htemporary.ne_entry d language)]
  · rw [htask]
    exact hnone
  · intro other
    rw [hview, htask, Act.effect]
    simp only [Function.update_apply, List.append_cancel_left_eq, List.singleton_inj]

/-- That a temporary file is moved to the place of a record is explained. -/
lemma replace (h : Explained c tasks w trace σ s) (hc : c.directory.IsProper) {about : Text → Prop}
    (hw : c.Unlinked about w) {language : Text} {index : Index} (hlanguage : about language)
    (hslash : ('/' : CodePoint) ∉ language) {i : ι} (htask : tasks i = .write language index)
    {temporary : Text} {file : Location} (hstage : σ.stages i = .filling temporary file [])
    {w' : World} (hreplaced :
      (Files.replace temporary (c.recordPath language).text).exec σ.world = (.ok (), w')) :
    Explained c tasks w (trace ++ [(i, .replace)]) (σ.after i .finished w') s := by
  obtain ⟨hown, -, content, htemporary, hcontent⟩ := h.of_filling hstage
  have hall := hcontent language index htask
  rw [List.append_nil] at hall
  subst hall
  obtain ⟨-, hpass, gone, hreplace⟩ := Files.of_replace hreplaced
  rcases State.view_replace htemporary.leads hreplace with
    ⟨n, hsame⟩ | ⟨dest, htakes, hne, -, hhome, hview⟩
  · -- the path of the record does not lead to the temporary file
    obtain ⟨d, -, hfile⟩ := h.exists_entry hc hslash hpass hsame
    exact absurd hfile (htemporary.ne_entry d language)
  · obtain ⟨place, hplace, rfl, -⟩ := htakes.leads
    obtain ⟨d, hd, hdest⟩ := h.exists_entry hc hslash hpass hplace
    rw [hdest] at hview htakes
    have hnone := h.frame_entry hw hlanguage hd htakes.face
    have hframe : w'.files.frame = σ.world.files.frame := by
      funext loc
      by_cases hloc : loc = d ++ [entryName language]
      · rw [hloc, hnone, State.frame, hview, Function.update_self]
        rfl
      · rw [State.frame, hview, Function.update_of_ne hloc]
        by_cases hfile : loc = file
        · rw [hfile, Function.update_self, State.frame, htemporary.view]
          rfl
        · rw [Function.update_of_ne hfile]
          rfl
    refine h.step hd hhome hframe ?_ (fun _ => ?_) ?_ trivial (by simp [Stage.file?])
    · intro j hj file' hfile'
      obtain ⟨temporary', content', htemporary'⟩ := (h.holds j).isTemporary hfile'
      rw [hview, Function.update_of_ne (htemporary'.ne_entry d language),
        Function.update_of_ne (h.file_ne hj hown hfile')]
    · rw [htask]
      exact hnone
    · intro other
      rw [hview, htask, Act.effect]
      simp only [Function.update_apply, List.append_cancel_left_eq, List.singleton_inj]
      rw [if_neg (htemporary.ne_entry d other).symm]

end Explained

/-- The acts of every run explain the files. -/
theorem Run.explained {ι : Type*} [DecidableEq ι] {c : Cache} (hc : c.directory.IsProper)
    {tasks : ι → Task} {about : Text → Prop} (habout : ∀ i, about (tasks i).language)
    (hslash : ∀ language, about language → ('/' : CodePoint) ∉ language) {w : World}
    (hw : c.Unlinked about w) {trace : List (ι × Act)} {σ : System ι}
    (h : Run c tasks w trace σ) : ∃ s, Explained c tasks w trace σ s := by
  induction h with
  | start => exact ⟨w.files, .start c tasks w⟩
  | @step trace σ i stage act stage' w' run hstage proceeds ih =>
    obtain ⟨s, hs⟩ := ih
    have hlanguage := habout i
    generalize htask : tasks i = task at proceeds hlanguage
    cases proceeds with
    | make made => exact hs.exists_make hc i made rfl (Or.inr rfl)
    | makeFails made => exact hs.exists_make hc i made rfl (Or.inl rfl)
    | create _ path created =>
      rw [← List.append_assoc] at path
      exact ⟨s, hs.create hstage htask path created⟩
    | createFails => exact ⟨s, hs.stay i id rfl (Or.inl rfl)⟩
    | append _ => exact ⟨s, hs.append hstage⟩
    | replace _ replaced =>
      exact ⟨s, hs.replace hc hw hlanguage (hslash _ hlanguage) htask hstage replaced⟩
    | fail => exact ⟨s, hs.fail hstage⟩
    | discard discarded => exact ⟨s, hs.discard hstage discarded⟩
    | unlink unlinked =>
      exact ⟨s, hs.unlink hc hw hlanguage (hslash _ hlanguage) htask unlinked⟩
    | unlinkFails _ => exact ⟨s, hs.stay i id rfl (Or.inl rfl)⟩
    | read => exact ⟨s, hs.stay i id rfl (Or.inl rfl)⟩

end EditorDocs.Cache
