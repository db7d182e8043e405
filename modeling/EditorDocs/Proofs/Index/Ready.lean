import EditorDocs.Proofs.Index.Confined

/-!
# Writing into a directory that is there

Where the directory of the records is there, and the entry of a language in it is a file or absent, all
that can keep a record from being written is known beforehand (`Cache.writeFailure?`): no temporary
file can be created, the index holds a surrogate, or the name of the record or its path is too long.
Otherwise the entry of the language becomes the record, and nothing else changes
(`Cache.exec_write_ready`).
-/

namespace EditorDocs

open FileSystem

namespace FileSystem.State

variable {s : State} {source target : Text} {src : Location} {n : Node}

/-- What is moved to a path that leads to no directory and asks for none takes this place. -/
lemma exists_replace (hsource : s.locate .entry source = .ok (.object src n)) {place : Place}
    (h : s.locate .entry target = .ok place)
    (hdirectory : ∀ loc n', place = .object loc n' → n'.face ≠ .directory)
    (hslash : ∀ parent name, place ≠ .vacancy parent name true) :
    ∃ r, s.replace source target = .ok r := by
  cases place with
  | vacancy parent name slashed =>
    cases slashed with
    | true => exact absurd rfl (hslash parent name)
    | false => exact ⟨_, replace_of_vacancy hsource h⟩
  | object loc n' => exact ⟨_, replace_of_object hsource h (hdirectory loc n' rfl)⟩

end FileSystem.State

namespace Cache

variable {c : Cache} {language : Text} {index : Index} {w : World} {s : State} {d : Location}

/-! ## What the path of a record shows -/

/-- The path of a record or its name is longer than the system allows. -/
def IsTooLong (c : Cache) (language : Text) : Prop :=
  pathLimit < byteLength (c.recordPath language).text ∨ nameLimit < byteLength (entryName language)

instance decidableIsTooLong (c : Cache) (language : Text) : Decidable (c.IsTooLong language) :=
  inferInstanceAs (Decidable (_ ∨ _))

/-- The one and the other can be asked after each other. -/
lemma ite_isTooLong {α : Type} (a b : α) :
    (if c.IsTooLong language then a else b) =
      if pathLimit < byteLength (c.recordPath language).text then a
      else if nameLimit < byteLength (entryName language) then a else b :=
  ite_or _ _ a b

/-- What the path of a record shows if this is its entry in the directory of the records. -/
def shown (c : Cache) (language : Text) (entry : Option Face) : Except Errno Face :=
  if c.IsTooLong language then .error .nameTooLong else entry.elim (.error .noEntry) .ok

section Path

variable (hc : c.directory.IsProper) (hslash : ('/' : CodePoint) ∉ language)
  (hpass : Files.IsPassable (c.recordPath language).text)
include hc hslash hpass

/-- Where the directory of the records is there, the path of a record lands at its entry. -/
lemma land_record (hd : s.LiesAt c.directory.text d) :
    land s.frame s.home .entry (c.recordPath language).text =
      if c.IsTooLong language then .error .nameTooLong
      else .ok (.below s.frame d (entryName language)) := by
  have hbytes := hpass.isByteText
  rw [recordPath_eq c hslash] at hbytes
  have hland := State.land_child hc (isRegular_recordName language) (notMem_recordName hslash) hbytes
    (isRegular_entryName language) (m := .entry) rfl hd (fun hfollows => by cases hfollows)
  rw [ite_isTooLong, recordPath_eq c hslash, hland]
  rfl

/-- Where the directory of the records is there, the path of a record shows its entry, unless that is a
link which is replaced. -/
lemma glance_record {m : Manner} (hm : m.writes = false) (hd : s.LiesAt c.directory.text d)
    (hlink : m.followsLast = true → ¬ c.IsTooLong language → ∀ target,
      s.view (d ++ [entryName language]) ≠ some (.link target)) :
    s.glance m (c.recordPath language).text =
      c.shown language (s.view (d ++ [entryName language])) := by
  have hbytes := hpass.isByteText
  unfold IsTooLong at hlink
  rw [recordPath_eq c hslash] at hbytes hlink
  have hglance := State.glance_child hc (isRegular_recordName language) (notMem_recordName hslash)
    hbytes (isRegular_entryName language) hm hd fun hfollows hpath hname =>
      hlink hfollows fun hlong => hlong.elim hpath hname
  rw [shown, ite_isTooLong, recordPath_eq c hslash, hglance]
  rfl

/-- A file that is moved to the path of a record gets there if the entry is a file or absent, and
otherwise the path is too long. -/
lemma replace_record (hd : s.LiesAt c.directory.text d)
    (hplain : ¬ c.IsTooLong language → ∀ face, s.view (d ++ [entryName language]) = some face →
      ∃ content, face = .file content) {source : Text} {src : Location} {n : Node}
    (hsource : s.locate .entry source = .ok (.object src n)) :
    (c.IsTooLong language ∧
        s.replace source (c.recordPath language).text = .error .nameTooLong) ∨
      ¬ c.IsTooLong language ∧ ∃ r, s.replace source (c.recordPath language).text = .ok r := by
  have hland := land_record hc hslash hpass hd
  by_cases hlong : c.IsTooLong language
  · rw [if_pos hlong] at hland
    have hlocate : s.locate .entry (c.recordPath language).text = .error .nameTooLong := by
      rw [State.locate_eq_settle, hland]
      rfl
    exact Or.inl ⟨hlong, State.replace_of_error hsource hlocate⟩
  · rw [if_neg hlong] at hland
    refine Or.inr ⟨hlong, ?_⟩
    have hframe : s.frame (d ++ [entryName language]) = none := by
      cases hview : s.view (d ++ [entryName language]) with
      | none => rw [State.frame, hview]; rfl
      | some face =>
        obtain ⟨content, rfl⟩ := hplain hlong face hview
        rw [State.frame, hview]
        rfl
    rw [Landing.below, if_pos hframe] at hland
    have hlocate := State.locate_of_landing hland
    unfold State.settle at hlocate
    cases hfind : Node.find? (d ++ [entryName language]) s.root with
    | none =>
      simp only [hfind, List.all_nil, if_true] at hlocate
      exact State.exists_replace hsource hlocate (by simp) (by simp)
    | some n' =>
      simp only [hfind, List.isEmpty_nil, if_true] at hlocate
      obtain ⟨content, hface⟩ := hplain hlong n'.face (State.view_eq_of_find? hfind)
      refine State.exists_replace hsource hlocate ?_ (by simp)
      intro loc node hobject
      cases hobject
      simp [hface]

end Path

/-! ## What keeps a record from being written -/

/-- Why a temporary file with the index does not become the record of a language where the directory of
the records is there, if so. -/
def installFailure? (c : Cache) (language : Text) (index : Index) (temporary : Text) :
    Option Failure :=
  match index.texts.findSome? (Utf8.firstRun CodePoint.isSurrogate 0) with
  | some run => some (.unwritableText run)
  | none =>
    if c.IsTooLong language then
      some (.system ⟨.nameTooLong, temporary, some (c.recordPath language).text⟩)
    else none

/-- The path of a temporary file whose name ends so. -/
def temporaryPath (c : Cache) (language : Text) (s : State) (e : Text) : Text :=
  Files.freshPath s c.directory (temporaryStart language) ++ e

/-- The path of a temporary file can be passed if its parts can. -/
lemma isPassable_temporaryPath {s : State} (hhome : ∀ name ∈ s.home, Files.IsPassable name)
    (hdirectory : Files.IsPassable c.directory.text) (hlanguage : Files.IsPassable language) (n : Nat) :
    Files.IsPassable (c.temporaryPath language s (Files.candidate n ++ ".tmp")) := by
  have hstop : Files.IsPassable (".tmp" : Text) := by
    unfold Files.IsPassable
    decide
  exact (Files.isPassable_freshPath hhome hdirectory (isPassable_temporaryStart hlanguage)).append
    ((Files.isPassable_candidate n).append hstop)

/-- The path of a temporary file is that of the directory of these with a name behind it. -/
lemma temporaryPath_eq (hc : c.directory.IsProper) {s : State}
    (hhome : (⟨.absolute, s.home⟩ : Path).IsProper) (n : Nat) :
    c.temporaryPath language s (Files.candidate n ++ ".tmp") =
      (childPath (c.temporaryDirectory s) (temporaryName language n)).text :=
  freshPath_eq hc hhome language n

/-- Why an index cannot be written as the record of a language where the directory of the records is
there, if so, with such an end for the name of the temporary file. -/
def writeFailureWith? (c : Cache) (language : Text) (index : Index) (s : State) :
    (fresh : Option Text) → Option Failure
  | none => some (.system ⟨.entryExists, c.temporaryPath language s ".tmp", none⟩)
  | some e => match (s.createFile (c.temporaryPath language s e)).map Prod.fst with
    | .error cause => some (.system ⟨cause, c.temporaryPath language s e, none⟩)
    | .ok _ => c.installFailure? language index (c.temporaryPath language s e)

/-- Why an index cannot be written as the record of a language where the directory of the records is
there, if so. -/
def writeFailure? (c : Cache) (language : Text) (index : Index) (s : State) : Option Failure :=
  c.writeFailureWith? language index s (Files.freshEnd? s ".tmp")

section Ready

variable (hc : c.directory.IsProper) (hslash : ('/' : CodePoint) ∉ language)
  (hd : w.files.LiesAt c.directory.text d)
include hc hslash hd

/-- What takes the place of a record takes the entry of its language, and then neither the name nor the
path is too long. -/
lemma eq_entry_of_takes (hpath : Files.IsPassable (c.recordPath language).text) {dest : Location}
    (htakes : w.files.Takes (c.recordPath language).text dest) :
    dest = d ++ [entryName language] ∧ ¬ c.IsTooLong language := by
  obtain ⟨place, hplace, rfl, -⟩ := htakes.leads
  obtain ⟨d', hd', hlocation⟩ := exists_directory_of_record hc hslash hpath hplace
  obtain rfl := hd'.unique hd
  refine ⟨hlocation, fun hlong => ?_⟩
  have hland := land_record hc hslash hpath hd
  obtain ⟨l, hl, -⟩ := State.locate_eq_ok_iff.mp hplace
  rw [if_pos hlong, hl] at hland
  cases hland

variable (hplain : ¬ c.IsTooLong language → ∀ face,
    w.files.view (d ++ [entryName language]) = some face → ∃ content, face = .file content)
include hplain

/-- Where the temporary file has its content, the entry of the language is what it was, or is the temporary
file; so it can be replaced, unless its name or path is too long. -/
lemma replace_stored {temporary : Text} {file : Location} {s' : State}
    (hpath : Files.IsPassable (c.recordPath language).text)
    (hnew : Files.Fresh ".tmp" w.files s' temporary file) (content : Bytes) :
    (c.IsTooLong language ∧ (s'.store file content).replace temporary
        (c.recordPath language).text = .error .nameTooLong) ∨
      (¬ c.IsTooLong language ∧ ∃ r, (s'.store file content).replace temporary
        (c.recordPath language).text = .ok r) := by
  have hstored := hnew.view_store content
  have hd' := hd.of_frame_eq (hnew.frame hstored) ((State.home_store _ _ _).trans hnew.home)
  refine replace_record hc hslash hpath hd' (fun hshort face hface => ?_) (hnew.leads_store content)
  by_cases hentry : d ++ [entryName language] = file
  · rw [hstored, hentry, Function.update_self] at hface
    exact ⟨_, (Option.some.inj hface).symm⟩
  · rw [hstored, Function.update_of_ne hentry] at hface
    exact hplain hshort face hface

variable (hlog : ¬ c.IsTooLong language → w.logFile? ≠ some (d ++ [entryName language]))
include hlog

/-- A temporary file goes as foreseen and leaves the files as they were before it was made, or becomes
the entry of the language. -/
lemma exec_install_ready {temporary : Text} {file : Location} {s' : State} (hw : w.Sound)
    (hpath : Files.IsPassable (c.recordPath language).text)
    (hnew : Files.Fresh ".tmp" w.files s' temporary file) (hpass : Files.IsPassable temporary)
    (index : Index) :
    (∀ f, c.installFailure? language index temporary = some f →
        ∃ w', (installOrDiscard temporary file (c.recordPath language) index).exec
            (w.withFiles s') = (.error f, w') ∧
          World.Becomes w w' w.files.view w.logFile?) ∧
      (c.installFailure? language index temporary = none → ¬ c.IsTooLong language ∧
        ∃ w', (installOrDiscard temporary file (c.recordPath language) index).exec
            (w.withFiles s') = (.ok (), w') ∧
          World.Becomes w w' (Function.update w.files.view (d ++ [entryName language])
            (some (.file (Utf8.encodeAll index.render)))) w.logFile?) := by
  have hpresent : ∀ loc, w.logFile? = some loc → w.files.view loc ≠ none := by
    intro loc hloc
    obtain ⟨content, hcontent⟩ := hw.log loc hloc
    simp [hcontent]
  unfold installFailure?
  cases hrun : index.texts.findSome? (Utf8.firstRun CodePoint.isSurrogate 0) with
  | some run =>
    obtain ⟨w', hinstall, hbecomes⟩ :=
      exec_install_fresh_of_firstRun hnew hpresent hpass (c.recordPath language) hrun
    exact ⟨fun f hf => ⟨w', by cases hf; exact hinstall, hbecomes⟩, fun hnone => by cases hnone⟩
  | none =>
    have hreplace := replace_stored hc hslash hd hplain hpath hnew (Utf8.encodeAll index.render)
    rcases exec_install_fresh hnew hpresent (findSome?_firstRun_eq_none_iff.mp hrun) hpass hpath with
      ⟨cause, w', herror, hinstall, hbecomes⟩ | ⟨dest, w', hinstall, htakes, hbecomes⟩
    · rcases hreplace with ⟨hlong, hnameTooLong⟩ | ⟨-, r, hok⟩
      · rw [hnameTooLong] at herror
        cases herror
        simp only [if_pos hlong]
        exact ⟨fun f hf => ⟨w', by cases hf; exact hinstall, hbecomes⟩, fun hnone => by cases hnone⟩
      · rw [hok] at herror
        cases herror
    · obtain ⟨rfl, hshort⟩ := eq_entry_of_takes hc hslash hd hpath htakes
      rw [if_neg (hlog hshort)] at hbecomes
      simp only [if_neg hshort]
      exact ⟨fun f hf => (by cases hf), fun _ => ⟨hshort, w', hinstall, hbecomes⟩⟩

/-- Where the directory of the records is there, writing a record fails as foreseen and leaves the files
as they are, or makes the entry of the language the record. -/
theorem exec_write_ready (hw : w.Sound) (hdirectory : Files.IsPassable c.directory.text)
    (hlanguage : Files.IsPassable language) (index : Index) :
    (∀ f, c.writeFailure? language index w.files = some f →
        ∃ w', (c.write language index).exec w = (.error f, w') ∧
          World.Becomes w w' w.files.view w.logFile?) ∧
      (c.writeFailure? language index w.files = none → ¬ c.IsTooLong language ∧
        ∃ w', (c.write language index).exec w = (.ok (c.recordPath language), w') ∧
          World.Becomes w w' (Function.update w.files.view (d ++ [entryName language])
            (some (.file (Utf8.encodeAll index.render)))) w.logFile?) := by
  have hmade := Files.exec_makePath_of_isDirectory hc hdirectory (State.isDirectory_iff.mpr ⟨d, hd⟩)
  have hstays : World.Becomes w w w.files.view w.logFile? := ⟨rfl, ⟨[], by simp⟩, rfl, rfl, rfl, rfl⟩
  have hpath : ∀ e, Files.freshPath w.files c.directory (temporaryStart language) ++ e =
      c.temporaryPath language w.files e := fun _ => rfl
  rw [write_eq, Action.exec_bind_ok hmade, Action.exec_bind, Files.exec_createFresh_eq,
    writeFailure?]
  simp only [hpath]
  cases hfresh : Files.freshEnd? w.files ".tmp" with
  | none => exact ⟨fun f hf => ⟨w, by cases hf; rfl, hstays⟩, fun hnone => by cases hnone⟩
  | some e =>
    obtain ⟨n, rfl⟩ := Files.freshEnd?_eq_some hfresh
    have hending := Files.isEnding_candidate isEnding_temporary n
    have hpass := isPassable_temporaryPath hw.home hdirectory hlanguage n
    simp only [Files.refusal?_eq_none_iff.mpr hpass, writeFailureWith?]
    cases hcreate : w.files.createFile
        (c.temporaryPath language w.files (Files.candidate n ++ ".tmp")) with
    | error cause => exact ⟨fun f hf => ⟨w, by cases hf; rfl, hstays⟩, fun hnone => by cases hnone⟩
    | ok r =>
      obtain ⟨file, s'⟩ := r
      have hnew : Files.Fresh ".tmp" w.files s'
          (c.temporaryPath language w.files (Files.candidate n ++ ".tmp")) file :=
        Files.fresh_of_createFile hending hcreate
      obtain ⟨hfails, hinstalls⟩ := exec_install_ready hc hslash hd hplain hlog hw
        (isPassable_recordPath hdirectory hlanguage) hnew hpass index
      simp only [Except.map]
      refine ⟨fun f hf => ?_, fun hnone => ?_⟩
      · obtain ⟨w', hinstall, hbecomes⟩ := hfails f hf
        exact ⟨w', Action.exec_bind_error hinstall, hbecomes⟩
      · obtain ⟨hshort, w', hinstall, hbecomes⟩ := hinstalls hnone
        exact ⟨hshort, _, Action.exec_bind_ok hinstall, hbecomes.report _⟩

end Ready

end Cache

end EditorDocs
