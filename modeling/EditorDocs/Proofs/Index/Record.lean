import EditorDocs.Proofs.FileSystem.Links
import EditorDocs.Proofs.Index.Write

/-!
# Records that are read again

What is read from the record of a language is a function of the files (`Cache.readFrom`), and reading
changes nothing.  After a record was written it is read as the index that was written
(`Cache.exec_read_of_write`).

This has one exception, in which the record is written to its place and cannot be reached there: the
path of the record was that of a symbolic link, and it ran through this link itself.  The file that
takes the place of the link cuts the path off.
-/

namespace EditorDocs

open FileSystem

namespace FileSystem.State

/-- What is read at a path depends on what it leads to. -/
lemma read_of_locate {s : State} {path : Text} {loc : Location} {n : Node}
    (h : s.locate .lookup path = .ok (.object loc n)) :
    s.read path = match n.face with
      | .file content => .ok content
      | _ => .error .isDirectory := by
  unfold read
  rw [lookup_eq_ok_iff.mpr ⟨loc, h⟩]
  cases n <;> rfl

/-- A path that leads nowhere is not read. -/
lemma read_of_locate_error {s : State} {path : Text} {e : Errno}
    (h : s.locate .lookup path = .error e) : s.read path = .error e := by
  simp [read, lookup, h, bind, Except.bind]

end FileSystem.State

namespace Cache

/-! ## Reading -/

/-- What a reader reads from the record of a language as the files are. -/
def readFrom (c : Cache) (r : Json.Reader) (language : Text) (s : State) : Except Failure Index :=
  let path := (c.recordPath language).text
  match s.read path with
  | .error e => .error (.unreadableRecord path (SystemError.message ⟨e, path, none⟩))
  | .ok bytes => Index.receive r path bytes

/-- Reading a record gives what the files hold, and is reported if it succeeds. -/
lemma exec_read {c : Cache} {language : Text}
    (hpath : Files.IsPassable (c.recordPath language).text) (w : World) :
    ∃ w', (c.read language).exec w = (c.readFrom w.host.reader language w.files, w') ∧
      World.Reported w w' ∧ w'.requests = w.requests := by
  have hbytes : (readBytes (c.recordPath language).text).exec w =
      (match w.files.read (c.recordPath language).text with
        | .error e => .error (.unreadableRecord (c.recordPath language).text
            (SystemError.message ⟨e, (c.recordPath language).text, none⟩))
        | .ok bytes => .ok bytes, w) := by
    unfold readBytes
    rw [Action.exec_tryCatch, Files.read, Files.exec_look, Files.refusal?_eq_none_iff.mpr hpath]
    cases w.files.read (c.recordPath language).text <;> rfl
  unfold read readFrom
  simp only
  rw [Action.exec_bind, Action.exec_reader]
  simp only
  rw [Action.exec_bind, hbytes]
  cases w.files.read (c.recordPath language).text with
  | error e => exact ⟨w, rfl, .refl w, rfl⟩
  | ok bytes =>
    simp only [Action.exec_bind, Action.exec_ofExcept]
    cases Index.receive w.host.reader (c.recordPath language).text bytes with
    | error f => exact ⟨w, rfl, .refl w, rfl⟩
    | ok index => exact ⟨_, rfl, World.reported_report w _, World.requests_report w _⟩

/-- A record whose path leads to the bytes of an index holds this index. -/
lemma readFrom_of_locate {c : Cache} {r : Json.Reader} {language : Text} {s : State} {loc : Location}
    {index : Index} (hindex : index.IsScalar)
    (h : s.locate .lookup (c.recordPath language).text =
      .ok (.object loc (.file (Utf8.encodeAll index.render)))) :
    c.readFrom r language s = .ok index := by
  unfold readFrom
  simp only [State.read_of_locate h, Node.face, Index.receive, Index.decode_render hindex]

/-! ## Writing and reading -/

/-- What can be written is passed to the system as it is. -/
lemma isPassable_of_write {c : Cache} {language : Text} {index : Index} {w w' : World}
    {path : Path} (h : (c.write language index).exec w = (.ok path, w')) :
    Files.IsPassable c.directory.text ∧ Files.IsPassable language := by
  unfold write at h
  obtain ⟨_, v, hmade, h⟩ := Action.of_bind h
  have hdirectory : Files.IsPassable c.directory.text := by
    rw [← Files.refusal?_eq_none_iff]
    cases hrefused : Files.refusal? c.directory.text with
    | none => rfl
    | some f =>
      rw [Files.exec_makePath_refused hrefused] at hmade
      cases hmade
  refine ⟨hdirectory, ?_⟩
  obtain ⟨⟨temporary, file⟩, u, hcreate, -⟩ := Action.of_bind h
  obtain ⟨n, s', -, rfl, hpass, -, -⟩ := Files.createFile_of_createFresh hcreate
  exact isPassable_of_temporary hpass

/-- After a record was written its path leads to what was written, unless that was the path of a
symbolic link through which it ran itself. -/
lemma locate_of_write {c : Cache} {language : Text} {index : Index} {w w' : World} {path : Path}
    (hw : w.Sound) (hindex : index.IsScalar) (h : (c.write language index).exec w = (.ok path, w')) :
    ∃ s, (Files.makePath c.directory).exec w = (.ok (), w.withFiles s) ∧
      (¬ s.RunsThroughItsLink (c.recordPath language).text →
        ∃ loc, w'.files.locate .lookup (c.recordPath language).text =
          .ok (.object loc (.file (Utf8.encodeAll index.render)))) ∧
      (s.RunsThroughItsLink (c.recordPath language).text →
        w'.files.locate .lookup (c.recordPath language).text = .error .notDirectory) := by
  obtain ⟨hdirectory, hlanguage⟩ := isPassable_of_write h
  obtain ⟨x, w₁, hwrite, heffect⟩ := exec_write hw hdirectory hlanguage hindex
  rw [h] at hwrite
  cases hwrite
  cases heffect with
  | @recorded s _ dest made way takes becomes =>
    refine ⟨s, made, ?_⟩
    have hhome : w'.files.home = s.home := becomes.home.trans way.home.symm
    have hframe := becomes.frame_update
    have hfile : w'.files.view dest = some (.file (Utf8.encodeAll index.render)) := by
      rw [becomes.view_of_ne (by split <;> simp_all), Function.update_self]
    obtain ⟨p, hp, rfl, hslash⟩ := takes.leads
    -- a link at the end is all that the frame can have lost
    by_cases hlink : s.LeadsToLink (c.recordPath language).text
    · obtain ⟨loc, target, htarget⟩ := hlink
      rw [htarget, Except.ok.injEq] at hp
      subst hp
      obtain ⟨a, ha⟩ := exists_recordPath_text c language
      obtain ⟨names, y, hnames, hregular⟩ := exists_splitOn_canonical isEnding_record a
      rw [← ha] at hnames
      obtain ⟨hkept, hcut⟩ := State.locate_of_link_replaced hnames hregular hframe hhome hfile
        htarget .lookup (Or.inr rfl)
      exact ⟨fun hruns => ⟨_, hkept hruns⟩, hcut⟩
    · rw [← takes.frame_eq_none hlink, Function.update_eq_self] at hframe
      have hentry := State.locate_of_frame_eq hframe hhome hp hslash (State.find?_of_view_file hfile)
      constructor
      · exact fun _ => ⟨_, State.locate_lookup_of_entry hentry (by simp)⟩
      · rintro ⟨loc, target, hother, -⟩
        exact absurd ⟨loc, target, hother⟩ hlink

/-- After a record was written, it is read as the index that was written, unless its path was that of
a symbolic link through which it ran itself. -/
theorem exec_read_of_write {c : Cache} {language : Text} {index : Index} {w w' : World}
    {path : Path} (hw : w.Sound) (hindex : index.IsScalar)
    (h : (c.write language index).exec w = (.ok path, w')) :
    ∃ s, (Files.makePath c.directory).exec w = (.ok (), w.withFiles s) ∧
      (¬ s.RunsThroughItsLink (c.recordPath language).text →
        ((c.read language).exec w').1 = .ok index) ∧
      (s.RunsThroughItsLink (c.recordPath language).text →
        ((c.read language).exec w').1 = .error (.unreadableRecord (c.recordPath language).text
          (SystemError.message ⟨.notDirectory, (c.recordPath language).text, none⟩))) := by
  obtain ⟨hdirectory, hlanguage⟩ := isPassable_of_write h
  obtain ⟨s, hmade, hkept, hcut⟩ := locate_of_write hw hindex h
  obtain ⟨w'', hread, -, -⟩ := exec_read (isPassable_recordPath hdirectory hlanguage) w'
  rw [hread]
  refine ⟨s, hmade, ?_, ?_⟩
  · intro hruns
    obtain ⟨loc, hloc⟩ := hkept hruns
    exact readFrom_of_locate hindex hloc
  · intro hruns
    unfold readFrom
    simp only [State.read_of_locate_error (hcut hruns)]

end Cache

/-! ## The round trip -/

/-- An index without surrogates is read back from its text and from its bytes.  So it is from its
record, unless the record was written in the place of a symbolic link through which the path of the
record runs: such a record cannot be read. -/
theorem Index.round_trip (index : Index) (hindex : index.IsScalar) :
    (∀ r source, Index.receive r source (Utf8.encodeAll index.render) = .ok index) ∧
      (∀ r, Index.decodeText r index.render = .ok index) ∧
      ∀ (c : Cache) (language : Text) (w w' : World) (path : Path), w.Sound →
        (c.write language index).exec w = (.ok path, w') →
          ∃ s, (Files.makePath c.directory).exec w = (.ok (), w.withFiles s) ∧
            (¬ s.RunsThroughItsLink (c.recordPath language).text →
              ((c.read language).exec w').1 = .ok index) ∧
            (s.RunsThroughItsLink (c.recordPath language).text →
              ((c.read language).exec w').1 = .error (.unreadableRecord
                (c.recordPath language).text
                (SystemError.message ⟨.notDirectory, (c.recordPath language).text, none⟩))) := by
  refine ⟨?_, fun r => Index.decodeText_render hindex, ?_⟩
  · intro r source
    rw [Index.receive, Index.decode_render hindex]
  · intro c language w w' path hw h
    exact Cache.exec_read_of_write hw hindex h

/-- An index with a quote, a control character and a character beyond `0xFFFF`. -/
def sampleIndex : Index := ⟨[⟨"a\"b", "\t", "😀"⟩, ⟨[], "p", "p"⟩, ⟨[], "p", "p"⟩]⟩

/-- The records of the example lie in a directory below the working directory. -/
def sampleCache : Cache := ⟨Path.ofText "cache"⟩

/-- The example index is read back after it was written where nothing was. -/
theorem Index.round_trip_sample :
    Index.decodeText ⟨true⟩ sampleIndex.render = .ok sampleIndex ∧
      ((sampleCache.read "py").exec ((sampleCache.write "py" sampleIndex).exec
        (World.still (.directory []) fun _ => .interruption)).2).1 = .ok sampleIndex := by
  have h := Index.round_trip sampleIndex (by decide)
  have hwritten : ((sampleCache.write "py" sampleIndex).exec
      (World.still (.directory []) fun _ => .interruption)).1 =
        .ok (sampleCache.recordPath "py") := by decide +kernel
  obtain ⟨s, hs, hread, -⟩ := h.2.2 sampleCache "py" _ _ (sampleCache.recordPath "py")
    (World.sound_still (.directory []) fun _ => .interruption) (Action.exec_eq hwritten)
  refine ⟨h.2.1 ⟨true⟩, hread ?_⟩
  have hfiles : s = ((Files.makePath sampleCache.directory).exec
      (World.still (.directory []) fun _ => .interruption)).2.files := by
    rw [hs]
    rfl
  have hplace : s.locate .entry (sampleCache.recordPath "py").text =
      .ok (.vacancy ["cache"] "py_index.json" false) := by
    rw [hfiles]
    rfl
  rintro ⟨loc, target, hlink, -⟩
  rw [hplace] at hlink
  cases hlink

/-- The files of the second example: in the directory of the records, a link leads to the directory
itself. -/
def sampleLink : Node :=
  .directory [("cache", .directory [("x_index.json", .link "."), (".x_index.json", .directory [])])]

/-- A record that is written in the place of a link through which its path runs is not read back. -/
theorem Index.not_round_trip_through_link :
    ¬ ∀ (c : Cache) (language : Text) (index : Index) (w w' : World) (path : Path), w.Sound →
        index.IsScalar → (c.write language index).exec w = (.ok path, w') →
          ((c.read language).exec w').1 = .ok index := by
  intro h
  have hwritten : ((sampleCache.write "x_index.json/x" sampleIndex).exec
      (World.still sampleLink fun _ => .interruption)).1 =
        .ok (sampleCache.recordPath "x_index.json/x") := by decide +kernel
  have hread := h sampleCache "x_index.json/x" sampleIndex _ _ _
    (World.sound_still sampleLink fun _ => .interruption) (by decide) (Action.exec_eq hwritten)
  have hfailed : ((sampleCache.read "x_index.json/x").exec
      ((sampleCache.write "x_index.json/x" sampleIndex).exec
        (World.still sampleLink fun _ => .interruption)).2).1 ≠ .ok sampleIndex := by
    decide +kernel
  exact hfailed hread

end EditorDocs
