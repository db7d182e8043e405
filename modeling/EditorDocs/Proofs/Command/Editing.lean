import EditorDocs.Proofs.Command.Writing
import EditorDocs.Proofs.Text.Valid

/-!
# Editing a file

A file whose bytes are UTF-8 is opened as the text that they spell, and no other file is
(`Command.openFile_eq_ok_iff`).  Line ends, byte order marks and null characters are characters like
others, so that the text has all the bytes in it.

A path that leads to a file when it is looked up leads there when the file is written, and the other
way round (`State.locate_write_of_file`, `State.locate_lookup_of_write`).  A text that is written is
therefore the one that the path is opened with, and a text that is written back changes nothing
(`Command.editing_keeps_bytes`).
-/

namespace EditorDocs

open FileSystem

/-- The file at a path can be read and holds the bytes. -/
def World.Holds (w : World) (path : Text) (bytes : Bytes) : Prop :=
  (Files.read path).exec w = (.ok bytes, w)

/-- A file that can be read is at a path that can be passed. -/
lemma World.holds_iff {w : World} {path : Text} {bytes : Bytes} :
    w.Holds path bytes ↔ Files.IsPassable path ∧ w.files.read path = .ok bytes := by
  rw [← Files.read_eq_ok_iff, Holds, Files.read, Files.exec_look, Prod.mk.injEq, and_iff_left rfl]

/-- Reading a file leaves the world as it is. -/
lemma World.holds_of_read {w w' : World} {path : Text} {bytes : Bytes}
    (h : (Files.read path).exec w = (.ok bytes, w')) : w' = w ∧ w.Holds path bytes := by
  have hw : w' = w := by
    rw [Files.read, Files.exec_look] at h
    exact (congrArg Prod.snd h).symm
  subst hw
  exact ⟨rfl, h⟩

namespace Command

/-! ## Opening -/

/-- A file that can be read is opened as the text that its bytes spell. -/
lemma exec_openFile_of_holds {path : Text} {w : World} {bytes : Bytes} (h : w.Holds path bytes) :
    (openFile path).exec w = (match Utf8.decode bytes with
      | .ok t => .ok t
      | .error m => .error (.undecodable m), w) := by
  unfold openFile
  rw [Action.exec_bind_ok h]
  cases Utf8.decode bytes <;> rfl

/-- A file is opened as a text if it holds the bytes of this text. -/
theorem openFile_eq_ok_iff {path : Text} {w w' : World} {t : Text} :
    (openFile path).exec w = (.ok t, w') ↔
      w' = w ∧ t.IsScalar ∧ w.Holds path (Utf8.encodeAll t) := by
  constructor
  · intro h
    obtain ⟨bytes, v, hread, -⟩ := Action.of_bind h
    obtain ⟨rfl, hholds⟩ := World.holds_of_read hread
    rw [exec_openFile_of_holds hholds] at h
    cases hdecode : Utf8.decode bytes with
    | error m =>
      rw [hdecode] at h
      cases h
    | ok text =>
      rw [hdecode] at h
      cases h
      rw [Utf8.encodeAll_of_decode hdecode]
      exact ⟨rfl, Utf8.isScalar_of_decode hdecode, hholds⟩
  · rintro ⟨rfl, hscalar, hholds⟩
    rw [exec_openFile_of_holds hholds, Utf8.decode_encodeAll hscalar]

/-- A file that holds no UTF-8 cannot be opened. -/
theorem openFile_undecodable {path : Text} {w : World} {bytes : Bytes} (h : w.Holds path bytes)
    (hinvalid : ¬ Utf8.IsValid bytes) :
    ∃ m, (openFile path).exec w = (.error (.undecodable m), w) := by
  rw [exec_openFile_of_holds h]
  cases hdecode : Utf8.decode bytes with
  | ok t => exact absurd (Utf8.isValid_iff_decode.mpr ⟨t, hdecode⟩) hinvalid
  | error m => exact ⟨m, rfl⟩

/-! ## Writing -/

/-- The files have changed at one place, to which the path leads, and the bytes are there. -/
structure Stores (path : Text) (bytes : Bytes) (s s' : State) (file : Location) : Prop where
  /-- The working directory is as before. -/
  home : s'.home = s.home
  /-- One file holds the bytes, and all else is as before. -/
  view : s'.view = Function.update s.view file (some (.file bytes))
  /-- The path leads to this file. -/
  leads : s'.locate .lookup path = .ok (.object file (.file bytes))

/-- A text that has been written is what the file holds, and nothing else has changed. -/
theorem holds_of_writeFile {path t : Text} {w w' : World}
    (h : (writeFile path t).exec w = (.ok (), w')) :
    t.IsScalar ∧ w'.Holds path (Utf8.encodeAll t) ∧
      ∃ file s, w' = w.withFiles s ∧ Stores path (Utf8.encodeAll t) w.files s file := by
  obtain ⟨x, v, hwrite, hoverwrites⟩ := exec_writeFile path t w
  rw [hwrite] at h
  cases h
  cases hoverwrites with
  | @written file s hpass hopened hscalar =>
    obtain ⟨hhome, hview, hleads⟩ := State.store_of_openForWriting hopened (Utf8.encodeAll t)
    have hread := State.read_eq_ok_iff.mpr ⟨file, hleads⟩
    exact ⟨hscalar, World.holds_iff.mpr ⟨hpass, hread⟩, file, _, rfl, hhome, hview, hleads⟩

/-- The text that a file holds can be written back, and then all files are as before. -/
theorem writeFile_of_holds {path t : Text} {w : World} (hscalar : t.IsScalar)
    (h : w.Holds path (Utf8.encodeAll t)) :
    ∃ s, (writeFile path t).exec w = (.ok (), w.withFiles s) ∧ s.home = w.files.home ∧
      s.view = w.files.view := by
  obtain ⟨hpass, hread⟩ := World.holds_iff.mp h
  obtain ⟨file, s, hopened, hfile⟩ := State.exists_openForWriting hread
  obtain ⟨hhome, hview, -⟩ := State.store_of_openForWriting hopened (Utf8.encodeAll t)
  refine ⟨s.store file (Utf8.encodeAll t), ?_, hhome, ?_⟩
  · unfold writeFile Files.openForWriting Files.storeText
    rw [Action.exec_bind, Files.exec_change, Files.refusal?_eq_none_iff.mpr hpass]
    simp only [hopened, Utf8.encode_eq_ok hscalar]
    rfl
  · rw [hview, ← hfile, Function.update_eq_self]

/-! ## Editing -/

/-- What a host finds when it opens the file at a path, edits the text and writes it. -/
structure KeepsBytes (path : Text) (w : World) : Prop where
  /-- A file that can be read is opened as a text if its bytes are those of the text … -/
  opens : ∀ bytes, w.Holds path bytes →
    ∀ t, (openFile path).exec w = (.ok t, w) ↔ t.IsScalar ∧ Utf8.encodeAll t = bytes
  /-- … and fails to be opened if they are not UTF-8. -/
  refuses : ∀ bytes, w.Holds path bytes → ¬ Utf8.IsValid bytes →
    ∃ m, (openFile path).exec w = (.error (.undecodable m), w)
  /-- A text that was opened can be written back.  The file holds the bytes that it held, and all
  files are as before. -/
  writesBack : ∀ t w', (openFile path).exec w = (.ok t, w') → w' = w ∧
    ∃ bytes s, w.Holds path bytes ∧ (writeFile path t).exec w = (.ok (), w.withFiles s) ∧
      (w.withFiles s).Holds path bytes ∧ s.home = w.files.home ∧ s.view = w.files.view
  /-- A text that was written is opened again.  Its bytes are what the file holds, and all other
  files are as before. -/
  readsBack : ∀ t w', (writeFile path t).exec w = (.ok (), w') →
    (openFile path).exec w' = (.ok t, w') ∧ w'.Holds path (Utf8.encodeAll t) ∧
      ∃ file s, w' = w.withFiles s ∧ Stores path (Utf8.encodeAll t) w.files s file

/-- Files survive an edit byte for byte. -/
theorem editing_keeps_bytes (path : Text) (w : World) : KeepsBytes path w where
  opens bytes hholds t := by
    rw [openFile_eq_ok_iff, and_iff_right rfl]
    refine and_congr_right fun _ => ⟨fun hagain => ?_, ?_⟩
    · exact Except.ok.inj (congrArg Prod.fst (hagain.symm.trans hholds))
    · rintro rfl
      exact hholds
  refuses bytes hholds := openFile_undecodable hholds
  writesBack t w' hopen := by
    obtain ⟨rfl, hscalar, hholds⟩ := openFile_eq_ok_iff.mp hopen
    obtain ⟨s, hwrite, hhome, hview⟩ := writeFile_of_holds hscalar hholds
    exact ⟨rfl, _, s, hholds, hwrite, (holds_of_writeFile hwrite).2.1, hhome, hview⟩
  readsBack t w' hwrite := by
    obtain ⟨hscalar, hholds, hchange⟩ := holds_of_writeFile hwrite
    exact ⟨openFile_eq_ok_iff.mpr ⟨rfl, hscalar, hholds⟩, hholds, hchange⟩

/-- A file is opened, and a text with all kinds of line ends is written to it and opened again. -/
theorem editing_keeps_bytes_sample :
    (openFile "s").exec sampleWorld = (.ok "old", sampleWorld) ∧
      ∃ w', (writeFile "s" "\r\n\r\n\n").exec sampleWorld = (.ok (), w') ∧
        (openFile "s").exec w' = (.ok "\r\n\r\n\n", w') := by
  have hkeeps := editing_keeps_bytes "s" sampleWorld
  refine ⟨(hkeeps.opens (Utf8.encodeAll "old") rfl "old").mpr ⟨by decide, rfl⟩, _, rfl, ?_⟩
  exact (hkeeps.readsBack "\r\n\r\n\n" _ rfl).1

end Command

end EditorDocs
