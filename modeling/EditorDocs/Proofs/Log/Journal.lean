import EditorDocs.Log.Session
import EditorDocs.Proofs.Json.Strings
import EditorDocs.Proofs.World.Files
import Mathlib.Tactic.Lemma

/-!
# Records one after the other

A log is opened in one of three ways: no file is asked for, the file is opened, or the system keeps it
from being opened, which is told on the console (`Log.Opened`).  None of this depends on what the console
is to show.

What becomes of a record beside a file is up to two failures, the one to write its line and the one to
render it for the console (`Log.Journal.filed_fate`, `Log.Journal.shown_fate`); without a file it is up to
whether the record is refused (`Log.Journal.shown_fate_alone`).

Records go to the log one by one.  What the console shows in the end is what it showed before and what it
has to show of each of them (`Log.Journal.shown_writeAll`); what the file holds is what it held before and
what it gets of each of them (`Log.Journal.view_writeAll`).
-/

namespace EditorDocs.Log

open FileSystem (State Location)

/-! ## Opening -/

/-- The least severity that the console shows, unless it is to be quiet. -/
def consoleOf (s : LogSettings) (quiet : Bool) : Option Severity :=
  if quiet then none else some (consoleThreshold s.verbose)

/-- The log has been opened, and this is the world with it. -/
inductive Opened (s : LogSettings) (quiet : Bool) (logger time : Text) (w : World) :
    Journal → World → Prop
  /-- No file is asked for. -/
  | bare (h : s.file = none) :
    Opened s quiet logger time w
      ⟨logger, ⟨none, consoleOf s quiet⟩, w.host.rendering, none, time, []⟩ w
  /-- The file is open. -/
  | filed {path : Path} {loc : Location} {w' : World} (h : s.file = some path)
    (hopen : (openFile path).exec w = (.ok loc, w')) :
    Opened s quiet logger time w
      ⟨logger, ⟨some s.level, consoleOf s quiet⟩, w.host.rendering, some loc, time, []⟩ w'
  /-- The system does not open the file, and the console tells why. -/
  | unfiled {path : Path} {e : SystemError} {w' : World} (h : s.file = some path)
    (hopen : (openFile path).exec w = (.error (.system e), w')) :
    Opened s quiet logger time w
      ⟨logger, ⟨none, consoleOf s quiet⟩, w.host.rendering, none, time,
        warning path (.system e)⟩ w'

section Opening

variable {s : LogSettings} {quiet : Bool} {logger time : Text} {w w' : World} {j : Journal}

/-- A log is opened in one of the three ways. -/
lemma exec_openJournal_ok_iff :
    (openJournal s quiet logger time).exec w = (.ok j, w') ↔ Opened s quiet logger time w j w' := by
  unfold openJournal
  cases hfile : s.file with
  | none =>
    constructor
    · intro h
      cases h
      exact .bare hfile
    · intro h
      cases h with
      | bare _ => rfl
      | filed h _ => cases hfile.symm.trans h
      | unfiled h _ => cases hfile.symm.trans h
  | some path =>
    simp only [Action.exec_tryCatch, Action.exec_bind, Action.exec_get]
    constructor
    · intro h
      rcases hopen : (openFile path).exec w with ⟨f | loc, v⟩
      · rw [hopen] at h
        cases f with
        | system e =>
          cases h
          exact .unfiled hfile hopen
        | _ => cases h
      · rw [hopen] at h
        cases h
        exact .filed hfile hopen
    · intro h
      cases h with
      | bare h => cases hfile.symm.trans h
      | filed h hopen =>
        cases hfile.symm.trans h
        rw [hopen]
        rfl
      | unfiled h hopen =>
        cases hfile.symm.trans h
        rw [hopen]
        rfl

/-- Only what is no failure of the system keeps a log from being opened. -/
lemma exec_openJournal_error_iff {f : Failure} :
    (openJournal s quiet logger time).exec w = (.error f, w') ↔
      ∃ path, s.file = some path ∧ (openFile path).exec w = (.error f, w') ∧ ∀ e, f ≠ .system e := by
  unfold openJournal
  cases hfile : s.file with
  | none =>
    refine ⟨fun h => (by cases h), ?_⟩
    rintro ⟨path, hpath, -⟩
    cases hpath
  | some path =>
    simp only [Action.exec_tryCatch, Action.exec_bind, Action.exec_get]
    constructor
    · intro h
      rcases hopen : (openFile path).exec w with ⟨f' | loc, v⟩
      · rw [hopen] at h
        cases f' with
        | system e => cases h
        | _ =>
          cases h
          exact ⟨path, rfl, hopen, fun e he => (by cases he)⟩
      · rw [hopen] at h
        cases h
    · rintro ⟨path', hpath, hopen, hother⟩
      cases hpath
      rw [hopen]
      cases f with
      | system e => exact absurd rfl (hother e)
      | _ => rfl

end Opening

/-- A file that is opened for a log is there and holds what it held, or nothing if it was not there. -/
theorem view_openFile {path : Path} {w w' : World} {loc : Location}
    (h : (openFile path).exec w = (.ok loc, w')) :
    ∃ before, (w.files.view loc = some (.file before) ∨ w.files.view loc = none ∧ before = []) ∧
      w'.files.view loc = some (.file before) := by
  unfold openFile at h
  obtain ⟨_, u, hmade, h⟩ := Action.of_bind h
  obtain ⟨v, u', hstate, hopen⟩ := Action.of_bind h
  cases hstate
  obtain ⟨-, s, hopened, rfl⟩ := Files.of_change hopen
  obtain ⟨-, -, old, hold, hview⟩ := State.view_openForWriting hopened
  have hway : ∃ s', u.files = s' ∧ Files.MakesWay path.parent w.files s' := by
    cases hrefused : Files.refusal? path.parent.text with
    | some f =>
      rw [Files.exec_makePath_refused hrefused] at hmade
      cases hmade
    | none =>
      obtain ⟨x, s', hexec, hmakes, -⟩ :=
        Files.exec_makePath (Files.refusal?_eq_none_iff.mp hrefused) w
      rw [hexec] at hmade
      cases hmade
      exact ⟨s', rfl, hmakes⟩
  obtain ⟨s', hfiles, hmakes⟩ := hway
  rw [hfiles] at hold
  refine ⟨old.getD [], ?_, by rw [World.files_withFiles, hview, Function.update_self]; simp⟩
  -- directories were made at most, so what is a file now was one before
  rcases hmakes.view loc with hsame | ⟨hnone, hdirectory⟩
  · rw [← hsame, hold]
    cases old with
    | none => exact Or.inr ⟨rfl, rfl⟩
    | some content => exact Or.inl rfl
  · rw [hdirectory] at hold
    cases old <;> cases hold

/-- The working directory is the same when a file was opened for a log, or could not be. -/
lemma home_openFile (path : Path) (w : World) :
    ((openFile path).exec w).2.files.home = w.files.home := by
  have hway : ((Files.makePath path.parent).exec w).2.files.home = w.files.home := by
    cases hrefused : Files.refusal? path.parent.text with
    | some f => rw [Files.exec_makePath_refused hrefused]
    | none =>
      obtain ⟨x, s, hmade, hway, -⟩ :=
        Files.exec_makePath (Files.refusal?_eq_none_iff.mp hrefused) w
      rw [hmade]
      exact hway.home
  unfold openFile
  rw [Action.exec_bind]
  rcases hmade : (Files.makePath path.parent).exec w with ⟨f | x, u⟩
  all_goals rw [hmade] at hway
  · exact hway
  · simp only
    rw [Action.exec_bind, Action.exec_get]
    simp only
    rw [Files.openForWriting, Files.exec_change]
    split
    · exact hway
    · split
      · rename_i hopened
        obtain ⟨hhome, -⟩ := State.view_openForWriting hopened
        exact hhome.trans hway
      · exact hway

/-- How a log is opened does not depend on what its console is to show. -/
lemma Opened.withConsole {s : LogSettings} {quiet : Bool} {logger time : Text} {w w' : World}
    {j : Journal} (h : Opened s quiet logger time w j w') (s' : LogSettings) (quiet' : Bool)
    (hfile : s'.file = s.file) (hlevel : s'.level = s.level) :
    Opened s' quiet' logger time w
      { j with pipeline := ⟨j.pipeline.file, consoleOf s' quiet'⟩ } w' := by
  cases h with
  | bare h => exact .bare (hfile.trans h)
  | filed h hopen =>
    show Opened s' quiet' logger time w
      ⟨logger, ⟨some s.level, consoleOf s' quiet'⟩, w.host.rendering, some _, time, []⟩ w'
    rw [← hlevel]
    exact .filed (hfile.trans h) hopen
  | unfiled h hopen => exact .unfiled (hfile.trans h) hopen

/-! ## What becomes of a record -/

/-- Texts of things that have one if they are in order are the texts of those that are. -/
lemma flatMap_ite {α β : Type} (p : α → Bool) (f : α → List β) (xs : List α) :
    (xs.flatMap fun x => if p x then f x else []) = (xs.filter p).flatMap f := by
  induction xs with
  | nil => rfl
  | cons x xs ih =>
    rw [List.flatMap_cons, ih]
    by_cases hx : p x = true
    · rw [if_pos hx, List.filter_cons_of_pos hx, List.flatMap_cons]
    · rw [if_neg hx, List.filter_cons_of_neg hx, List.nil_append]

namespace Journal

/-- The failure to write the line of a record that the file is to get. -/
def filedFault? (j : Journal) (e : Emission) : Option Failure :=
  if j.pipeline.isFiled e then lineFault? j.rendering.filed (j.pipeline.fields j.time e) else none

/-- The failure to render a record that the console is to show beside a file. -/
def shownFault? (j : Journal) (e : Emission) : Option Failure :=
  if j.pipeline.isShown e then consoleFault? j.rendering.shown (j.pipeline.fields j.time e) else none

/-- What the console shows of a record whose line cannot be written, unless the failure comes back. -/
def complaint (j : Journal) (e : Emission) : Text :=
  match j.filedFault? e with
  | none | some .tooDeep => []
  | some f => j.rendering.complaint e f

/-- What the file makes of a record is up to the failure to write its line. -/
lemma fateFiled_eq (j : Journal) (e : Emission) :
    j.pipeline.fateFiled j.rendering j.time e =
      ⟨if j.pipeline.isFiled e && (j.filedFault? e).isNone then
          (Json.Value.object (j.pipeline.fields j.time e)).render .line ++ "\n" else [],
        j.complaint e, if j.filedFault? e = some .tooDeep then some .tooDeep else none⟩ := by
  unfold Pipeline.fateFiled complaint filedFault?
  by_cases hfiled : j.pipeline.isFiled e = true
  · simp only [hfiled, Bool.true_and]
    rcases lineFault? j.rendering.filed (j.pipeline.fields j.time e) with _ | f
    · rfl
    · cases f <;> rfl
  · simp only [hfiled, Bool.false_and]
    rfl

/-- A complaint is shown unless there is no failure, or it comes back. -/
lemma complaint_eq_nil_iff {j : Journal} {e : Emission} :
    j.complaint e = [] ↔ ∀ f ∈ j.filedFault? e, f = .tooDeep := by
  unfold complaint
  rcases j.filedFault? e with _ | f
  · simp
  · cases f <;> simp [j.rendering.complains]

/-- The text of a record on a console without a file. -/
def bareText (j : Journal) (e : Emission) : Text :=
  (if e.foreign then e.record.event else fieldsText (j.pipeline.fields j.time e)) ++ "\n"

/-- Without a file the console shows a record that reaches its threshold and is not refused. -/
lemma shown_fate_alone {j : Journal} (h : j.pipeline.file = none) (e : Emission) :
    (j.fate e).shown =
      if j.pipeline.isShown e && (j.fate e).failure.isNone then j.bareText e else [] := by
  rw [fate, Pipeline.fate_alone _ _ _ h]
  unfold Pipeline.fateAlone Pipeline.textIf bareText
  by_cases hforeign : e.foreign = true
  · simp [hforeign]
  · simp only [hforeign]
    rcases consoleFault? j.rendering.ready (j.pipeline.fields j.time e) with _ | f <;> simp

section Filed

variable {j : Journal} {e : Emission} (h : j.pipeline.file ≠ none)

include h

/-- The file gets the line of a record that reaches its level, unless it cannot be written. -/
lemma filed_fate : (j.fate e).filed =
    if j.pipeline.isFiled e && (j.filedFault? e).isNone then
      (Json.Value.object (j.pipeline.fields j.time e)).render .line ++ "\n" else [] := by
  have hfirst : (j.fate e).filed = (j.pipeline.fateFiled j.rendering j.time e).filed := by
    rw [fate, Pipeline.fate_filed _ _ _ h]
    split <;> rfl
  rw [hfirst, fateFiled_eq]

/-- Beside a file the console shows a complaint about the line of a record, and then what it makes of
the record itself, as far as no failure comes back from the file. -/
lemma shown_fate : (j.fate e).shown = j.complaint e ++
    if j.filedFault? e = some .tooDeep then []
    else (j.pipeline.fateShown j.rendering j.time e).shown := by
  rw [fate, Pipeline.fate_filed _ _ _ h, fateFiled_eq]
  by_cases hdeep : j.filedFault? e = some .tooDeep
  · simp [hdeep]
  · simp [hdeep]

/-- A record with which nothing goes wrong beside a file is taken, and is shown if it reaches the threshold
of the console. -/
lemma fate_of_faultless (hline : j.filedFault? e = none) (hshown : j.shownFault? e = none) :
    (j.fate e).failure = none ∧ (j.fate e).shown =
      if j.pipeline.isShown e then fieldsText (j.pipeline.fields j.time e) ++ "\n" else [] := by
  have hcomplaint : j.complaint e = [] := complaint_eq_nil_iff.mpr (by simp [hline])
  have hsecond : j.pipeline.fateShown j.rendering j.time e =
      { shown := if j.pipeline.isShown e then
          fieldsText (j.pipeline.fields j.time e) ++ "\n" else [] } := by
    unfold Pipeline.fateShown
    unfold shownFault? at hshown
    by_cases hreaches : j.pipeline.isShown e = true
    · rw [if_pos hreaches] at hshown
      rw [if_pos hreaches, if_pos hreaches, hshown]
    · rw [if_neg hreaches, if_neg hreaches]
  rw [fate, Pipeline.fate_filed _ _ _ h, fateFiled_eq, hline, hcomplaint, hsecond]
  exact ⟨rfl, rfl⟩

end Filed

/-! ## Writing -/

/-- A record does not change what becomes of the records behind it. -/
@[simp] lemma fate_after (j : Journal) (e e' : Emission) : (j.after e).fate e' = j.fate e' := rfl

/-- A record comes to the end of the file.  Other files stay as they are. -/
lemma view_filesAfter (j : Journal) (e : Emission) (files : State) :
    (j.filesAfter e files).view =
      FileSystem.grow j.file (Utf8.encodeAll (j.fate e).filed) files.view := by
  unfold filesAfter
  cases hfile : j.file with
  | none => simp
  | some loc => exact State.view_append_eq_grow files loc _

/-- Records come to the end of what the console shows: each with what it has to show of it. -/
theorem shown_writeAll (j : Journal) (files : State) (es : List Emission) :
    (j.writeAll files es).1.shown = j.shown ++ es.flatMap fun e => (j.fate e).shown := by
  induction es generalizing j files with
  | nil => simp [writeAll]
  | cons e es ih =>
    have hfirst : (j.after e).shown = j.shown ++ (j.fate e).shown := rfl
    rw [writeAll, ih, hfirst, List.flatMap_cons, List.append_assoc]
    simp only [fate_after]

/-- Records come to the end of the file: each with what the file gets of it.  Other files stay as they
are. -/
theorem view_writeAll (j : Journal) (files : State) (es : List Emission) :
    (j.writeAll files es).2.view = FileSystem.grow j.file
      (Utf8.encodeAll (es.flatMap fun e => (j.fate e).filed)) files.view := by
  induction es generalizing j files with
  | nil => simp [writeAll, Utf8.encodeAll_nil]
  | cons e es ih =>
    have hfile : (j.after e).file = j.file := rfl
    rw [writeAll, ih, view_filesAfter, hfile, List.flatMap_cons, Utf8.encodeAll_append,
      FileSystem.grow_grow]
    simp only [fate_after]

end Journal

end EditorDocs.Log
