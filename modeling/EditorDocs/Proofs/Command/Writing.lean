import EditorDocs.Proofs.Command.Call
import EditorDocs.Proofs.FileSystem.Operations
import EditorDocs.Proofs.Index.Resolve
import EditorDocs.Server

/-!
# What a failed write leaves

A file is written in two steps: it is opened, which empties it, and then it is given the text.  The
first step changes nothing if it fails (`Files.exec_change`).  The second one fails if the text
holds surrogates, and then the first one has been done.  So a call that writes a file has four ways
to go (`Command.Overwrites`), and in one of them it destroys what the file held.

This way is open to hosts, since a line can hold an escaped surrogate
(`Command.writeFile_empties_file`).
-/

namespace EditorDocs

open FileSystem

namespace Command

/-- What writing a text to the file at a path comes to. -/
inductive Overwrites (path content : Text) (w : World) : Except Failure Unit → World → Prop where
  /-- No file can have the path. -/
  | refused {f : Failure} (refused : Files.refusal? path = some f) :
      Overwrites path content w (.error f) w
  /-- The file cannot be opened. -/
  | unopened {e : Errno} (passable : Files.IsPassable path)
      (unopened : w.files.openForWriting true path = .error e) :
      Overwrites path content w (.error (.system ⟨e, path, none⟩)) w
  /-- The file has been opened, and then the text could not be written. -/
  | torn {file : Location} {s : State} {run : Utf8.Unencodable}
      (passable : Files.IsPassable path)
      (opened : w.files.openForWriting true path = .ok (file, s))
      (unwritable : ¬ content.IsScalar) :
      Overwrites path content w (.error (.unencodable run)) (w.withFiles s)
  /-- The file holds the text. -/
  | written {file : Location} {s : State} (passable : Files.IsPassable path)
      (opened : w.files.openForWriting true path = .ok (file, s)) (writable : content.IsScalar) :
      Overwrites path content w (.ok ()) (w.withFiles (s.store file (Utf8.encodeAll content)))

/-- Writing a text goes in one of the four ways. -/
theorem exec_writeFile (path content : Text) (w : World) :
    ∃ x w', (writeFile path content).exec w = (x, w') ∧ Overwrites path content w x w' := by
  unfold writeFile Files.openForWriting
  rw [Action.exec_bind, Files.exec_change]
  cases hrefused : Files.refusal? path with
  | some f => exact ⟨_, w, rfl, .refused hrefused⟩
  | none =>
    have hpass := Files.refusal?_eq_none_iff.mp hrefused
    cases hopened : w.files.openForWriting true path with
    | error e => exact ⟨_, w, rfl, .unopened hpass hopened⟩
    | ok r =>
      obtain ⟨file, s⟩ := r
      simp only
      unfold Files.storeText
      by_cases hscalar : content.IsScalar
      · rw [Utf8.encode_eq_ok hscalar]
        exact ⟨_, _, rfl, .written hpass hopened hscalar⟩
      · obtain ⟨run, hrun⟩ := Utf8.exists_encode_eq_error hscalar
        rw [hrun]
        exact ⟨_, _, rfl, .torn hpass hopened hscalar⟩

/-- Evaluating the command on a path and a text writes the text. -/
lemma exec_evaluate_writeFile (path content : Text) (w : World) :
    ∃ x w', (writeFileCommand.evaluate [path, content]).exec w =
      (x.map fun _ => .string [], w') ∧ Overwrites path content w x w' := by
  obtain ⟨x, w', hwrite, hoverwrites⟩ := exec_writeFile path content w
  refine ⟨x, w', ?_, hoverwrites⟩
  have hexecute : writeFileCommand.evaluate [path, content] = (do
      writeFile path content
      pure (.string []) : Action Json.Value) := rfl
  rw [hexecute, Action.exec_bind, hwrite]
  cases x <;> rfl

/-- The call opens a file for writing and cannot write the text. -/
structure Tears (path content : Text) (w : World) (file : Location) : Prop where
  /-- The path can be passed. -/
  passable : Files.IsPassable path
  /-- The file can be opened. -/
  opened : ∃ s, w.files.openForWriting true path = .ok (file, s)
  /-- The text holds surrogates. -/
  unwritable : ¬ content.IsScalar

/-- A call that fails to write a file, or raises, leaves all files as they were, unless it has
opened a file and the text holds surrogates.  In this case it raises, the file is empty, and all
else is as it was. -/
theorem writeFile_keeps_files (args : List Text) (w : World) :
    ∃ x w', (writeFileCommand.call args).exec w = (x, w') ∧
      ((∀ v, x ≠ .ok (.completed v)) →
        (∀ path content file, args = [path, content] → ¬ Tears path content w file) →
          World.Reported w w') ∧
      ∀ path content file, args = [path, content] → Tears path content w file →
        (∃ run, x = .error (.unencodable run)) ∧ w'.files.home = w.files.home ∧
          w'.files.view = Function.update w.files.view file (some (.file [])) := by
  by_cases haccepts : writeFileCommand.accepts args.length = true
  · obtain ⟨path, content, rfl⟩ := (accepts_two_iff rfl rfl).mp haccepts
    obtain ⟨x, v, hevaluate, hoverwrites⟩ := exec_evaluate_writeFile path content w
    obtain ⟨w', hcall, hreported⟩ := exec_call writeFileCommand [path, content] w
    rw [hevaluate] at hcall hreported
    refine ⟨_, w', hcall, ?_, ?_⟩
    · intro hfailed huntorn
      cases hoverwrites with
      | refused _ => exact hreported
      | unopened _ _ => exact hreported
      | torn passable opened unwritable =>
        exact absurd ⟨passable, ⟨_, opened⟩, unwritable⟩ (huntorn path content _ rfl)
      | written _ _ _ => exact absurd rfl (hfailed (.string []))
    · rintro path' content' file ⟨⟩ htears
      obtain ⟨t, ht⟩ := htears.opened
      cases hoverwrites with
      | refused refused =>
        rw [Files.refusal?_eq_none_iff.mpr htears.passable] at refused
        cases refused
      | unopened _ unopened =>
        rw [ht] at unopened
        cases unopened
      | written _ _ writable => exact absurd writable htears.unwritable
      | @torn file' s run passable opened unwritable =>
        rw [ht] at opened
        cases opened
        rw [exec_call_raised hevaluate rfl] at hcall
        cases hcall
        obtain ⟨hhome, -, old, -, hview⟩ := State.view_openForWriting ht
        exact ⟨⟨run, rfl⟩, hhome, hview⟩
  · have hevaluate := exec_evaluate_refused haccepts w
    obtain ⟨w', hcall, hreported⟩ := exec_call writeFileCommand args w
    rw [hevaluate] at hcall hreported
    refine ⟨_, w', hcall, fun _ _ => hreported, ?_⟩
    rintro path content file rfl -
    exact absurd ((accepts_two_iff rfl rfl).mpr ⟨path, content, rfl⟩) haccepts

/-- Files with one file in them. -/
def sampleFile : Node := .directory [("s", .file (Utf8.encodeAll "old"))]

/-- The world with one file in it. -/
def sampleWorld : World := World.still sampleFile fun _ => .interruption

/-- A call with one argument too few fails, and one whose text holds a surrogate empties the file.
-/
theorem writeFile_keeps_files_sample :
    World.Reported sampleWorld ((writeFileCommand.call ["s"]).exec sampleWorld).2 ∧
      ((writeFileCommand.call ["s", [⟨0xD800, by decide⟩]]).exec sampleWorld).2.files.view ["s"] =
        some (.file []) := by
  constructor
  · obtain ⟨x, w', hcall, hkept, -⟩ := writeFile_keeps_files ["s"] sampleWorld
    have hfailed : ∃ message kind, ((writeFileCommand.call ["s"]).exec sampleWorld).1 =
        .ok (.failed message kind) := ⟨_, _, rfl⟩
    obtain ⟨message, kind, hfailed⟩ := hfailed
    rw [hcall] at hfailed ⊢
    refine hkept ?_ fun path content file hargs => by cases hargs
    rintro v rfl
    cases hfailed
  · obtain ⟨x, w', hcall, -, htorn⟩ :=
      writeFile_keeps_files ["s", [⟨0xD800, by decide⟩]] sampleWorld
    obtain ⟨-, -, hview⟩ := htorn "s" [⟨0xD800, by decide⟩] ["s"] rfl
      ⟨by unfold Files.IsPassable; decide, ⟨_, rfl⟩, by decide⟩
    rw [hcall, hview, Function.update_self]

/-- A host can send a line whose text holds a surrogate.  The answer is that the command failed, and
the file has lost its content. -/
theorem writeFile_empties_file :
    sampleWorld.files.view ["s"] = some (.file (Utf8.encodeAll "old")) ∧
      ((Server.respond (Registry.builtin (Resolver.sample "c" "py") Settings.defaultTree) 980
        "\x7b\"id\": 1, \"method\": \"WriteFile\", \"args\": [\"s\", \"a\\ud800\"]\x7d").exec
          sampleWorld).2.files.view ["s"] = some (.file []) := by
  decide +kernel

end Command

end EditorDocs
