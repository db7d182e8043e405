import EditorDocs.Index.Cache
import EditorDocs.Proofs.Index.RoundTrip
import EditorDocs.Proofs.World.Files

/-!
# What writing a record does

A record is written to a temporary file, which is then moved to the path of the record or, if this
fails, deleted again.  `Cache.exec_write` says what this comes to: directories on the way to that of
the records, and then either nothing more or the record, complete, where its path led.
-/

namespace EditorDocs

open FileSystem

/-! ## Worlds that keep to the system -/

namespace World

/-- The log that is open has its file, and the working directory is one that a system can have. -/
structure Sound (w : World) : Prop where
  /-- The file of the log is there. -/
  log : ∀ loc, w.logFile? = some loc → ∃ content, w.files.view loc = some (.file content)
  /-- The names of the working directory can be passed. -/
  home : ∀ name ∈ w.files.home, Files.IsPassable name

/-- A world in which there were only reports keeps to the system if the one before did. -/
lemma Sound.reported {w w' : World} (h : w.Sound) (hr : Reported w w') : w'.Sound := by
  refine ⟨?_, fun name hname => h.home name (hr.home ▸ hname)⟩
  intro loc hloc
  rw [hr.log] at hloc
  obtain ⟨content, hcontent⟩ := h.log loc hloc
  obtain ⟨more, hmore⟩ := hr.view
  exact ⟨content ++ more, by simp [hmore, grow, hloc, hcontent, Face.grown]⟩

/-- A world with files and nothing else keeps to the system. -/
lemma sound_still (root : Node) (remote : Text → Reply) : (still root remote).Sound :=
  ⟨by simp [still, logFile?], by simp [still]⟩

/-- From `w` on nothing has happened but that the files came to look like `view`, of which the log at
`log` may have grown. -/
structure Becomes (w w' : World) (view : Location → Option Face) (log : Option Location) :
    Prop where
  /-- The working directory is the same. -/
  home : w'.files.home = w.files.home
  /-- The files look so. -/
  view : ∃ more, w'.files.view = grow log more view
  /-- The log is this. -/
  log : w'.logFile? = log
  /-- The remote source is the same. -/
  remote : w'.remote = w.remote
  /-- Nothing was asked for. -/
  requests : w'.requests = w.requests
  /-- The machine is the same. -/
  host : w'.host = w.host

namespace Becomes

variable {w w' w'' : World} {view : Location → Option Face} {log : Option Location}

/-- A report does not change what the files look like, but for the log. -/
lemma report (h : Becomes w w' view log) (r : Record) : Becomes w (w'.report r) view log := by
  have hr := reported_report w' r
  obtain ⟨more, hmore⟩ := h.view
  obtain ⟨more', hmore'⟩ := hr.view
  refine ⟨hr.home.trans h.home, ⟨more ++ more', ?_⟩, hr.log.trans h.log, hr.remote.trans h.remote,
    (requests_report w' r).trans h.requests, hr.host.trans h.host⟩
  rw [hmore', h.log, hmore, grow_grow]

/-- Files among which one came to a place look so; the log is lost if its file gave way. -/
lemma of_update {s : State} {dest : Location} {face : Face} (hhome : s.home = w.files.home)
    (hview : s.view = Function.update w.files.view dest (some face))
    (hlog : ∀ loc, w.logFile? = some loc → w.files.view loc ≠ none) :
    Becomes w (if w.files.view dest = none then w.withFiles s else (w.withFiles s).forget dest)
      (Function.update w.files.view dest (some face))
      (if w.logFile? = some dest then none else w.logFile?) := by
  by_cases habsent : w.files.view dest = none
  · rw [if_pos habsent, if_neg fun h => hlog dest h habsent]
    exact ⟨hhome, ⟨[], by rw [grow_nil, ← hview]; rfl⟩, rfl, rfl, rfl, rfl⟩
  · rw [if_neg habsent]
    exact ⟨hhome, ⟨[], by rw [grow_nil, ← hview]; rfl⟩, logFile?_forget _ _, rfl, rfl, rfl⟩

/-- What happens after other files were there happens after all. -/
lemma of_withFiles {s : State} (h : Becomes (w.withFiles s) w' view log)
    (hhome : s.home = w.files.home) : Becomes w w' view log :=
  ⟨h.home.trans hhome, h.view, h.log, h.remote, h.requests, h.host⟩

/-- Elsewhere than at the log the files look exactly so. -/
lemma view_of_ne (h : Becomes w w' view log) {loc : Location} (hloc : log ≠ some loc) :
    w'.files.view loc = view loc := by
  obtain ⟨more, hmore⟩ := h.view
  rw [hmore, grow_of_ne hloc]

/-- A file that has come or gone leaves no directory and no link in its place. -/
lemma frame_update {s : State} {dest : Location} {content : Bytes}
    (h : Becomes w w' (Function.update s.view dest (some (.file content))) log) :
    w'.files.frame = Function.update s.frame dest none := by
  obtain ⟨more, hmore⟩ := h.view
  funext loc
  rw [State.frame, hmore, bind_fixture?_grow]
  by_cases hloc : loc = dest
  · rw [hloc, Function.update_self, Function.update_self]
    rfl
  · rw [Function.update_of_ne hloc, Function.update_of_ne hloc, State.frame]

end Becomes

end World

namespace Cache

/-! ## Paths of records -/

/-- The end of the name of a record. -/
lemma isEnding_record : Text.IsEnding "_index.json" :=
  ⟨by decide, by decide, ('n' : CodePoint), by decide, by decide⟩

/-- The end of the name of a temporary file. -/
lemma isEnding_temporary : Text.IsEnding ".tmp" :=
  ⟨by decide, by decide, ('p' : CodePoint), by decide, by decide⟩

/-- The path of a record ends in the same way for all languages. -/
lemma exists_recordPath_text (c : Cache) (language : Text) :
    ∃ a, (c.recordPath language).text = a ++ "_index.json" := by
  obtain ⟨names, x, hnames⟩ := Path.exists_names_ofText isEnding_record language
  obtain ⟨names', happend⟩ := Path.exists_names_append c.directory hnames
  obtain ⟨a, ha⟩ := Path.exists_text_eq happend
  exact ⟨a ++ x, by rw [recordPath, recordName, Path.child, ha, List.append_assoc]⟩

/-- A name does not end both as that of a record and as that of a temporary file. -/
lemma name_ne_temporary (a b : Text) : a ++ ("_index.json" : Text) ≠ b ++ ".tmp" := by
  intro heq
  have hlast : (a ++ ("_index.json" : Text)).getLast? = some ('n' : CodePoint) := by
    rw [List.getLast?_append]
    rfl
  have hlast' : (b ++ (".tmp" : Text)).getLast? = some ('p' : CodePoint) := by
    rw [List.getLast?_append]
    rfl
  rw [heq, hlast', Option.some.injEq] at hlast
  exact absurd hlast (by decide)

/-- A record has no place that a temporary file can have. -/
lemma location_ne_of_fresh {c : Cache} {language : Text} {s : State} {p : Place} {a x : Text}
    {p' : Place} {s' : State} (hrecord : s.locate .entry (c.recordPath language).text = .ok p)
    (hending : Text.IsEnding (x ++ ".tmp"))
    (htemporary : s'.locate .entry (a ++ (x ++ ".tmp")) = .ok p') : p.location ≠ p'.location := by
  obtain ⟨b, hb⟩ := exists_recordPath_text c language
  rw [hb] at hrecord
  obtain ⟨y, hy⟩ := State.exists_getLast?_location isEnding_record hrecord
  obtain ⟨z, hz⟩ := State.exists_getLast?_location hending htemporary
  intro heq
  rw [heq, hz, Option.some.injEq, ← List.append_assoc] at hy
  exact name_ne_temporary y (z ++ x) hy.symm

/-- The path of a record can be passed if the directory and the language can. -/
lemma isPassable_recordPath {c : Cache} {language : Text}
    (hdirectory : Files.IsPassable c.directory.text) (hlanguage : Files.IsPassable language) :
    Files.IsPassable (c.recordPath language).text := by
  have hend : Files.IsPassable ("_index.json" : Text) := by
    unfold Files.IsPassable
    decide
  rw [Files.isPassable_text_iff] at hdirectory ⊢
  intro name hname
  rcases Path.mem_names_of_append hname with h | h
  · exact hdirectory name h
  · exact (hlanguage.append hend).mono fun c hc => Path.mem_of_mem_names h hc

/-! ## The temporary file -/

/-- What the name of the temporary file of a record begins with. -/
def temporaryStart (language : Text) : Text := ("." : Text) ++ language ++ "_index."

/-- A language that can be passed begins a name that can. -/
lemma isPassable_temporaryStart {language : Text} (h : Files.IsPassable language) :
    Files.IsPassable (temporaryStart language) := by
  have hdot : Files.IsPassable ("." : Text) := by
    unfold Files.IsPassable
    decide
  have hend : Files.IsPassable ("_index." : Text) := by
    unfold Files.IsPassable
    decide
  exact (hdot.append h).append hend

/-- If the temporary file of a record has a path that can be passed then so does the language. -/
lemma isPassable_of_temporary {s : State} {directory : Path} {language e : Text}
    (h : Files.IsPassable (Files.freshPath s directory (temporaryStart language) ++ e)) :
    Files.IsPassable language := by
  refine h.mono fun c hc => List.mem_append_left _ ?_
  have hstart : c ∈ temporaryStart language :=
    List.mem_append_left _ (List.mem_append_right _ hc)
  unfold Files.freshPath under
  split
  · exact List.mem_append_right _ hstart
  · exact List.mem_append_right _ hstart

/-- The texts of an index hold no surrogates if none of them has a run of these. -/
lemma findSome?_firstRun_eq_none_iff {index : Index} :
    index.texts.findSome? (Utf8.firstRun CodePoint.isSurrogate 0) = none ↔ index.IsScalar := by
  rw [List.findSome?_eq_none_iff]
  constructor
  · intro hnone e he
    have hpart : ∀ t ∈ [e.name, e.path, e.kind], Text.IsScalar t := fun t ht =>
      Utf8.firstRun_eq_none_iff.mp (hnone t (List.mem_flatMap.mpr ⟨e, he, ht⟩))
    exact ⟨hpart _ (by simp), hpart _ (by simp), hpart _ (by simp)⟩
  · intro h t ht
    obtain ⟨e, he, hmem⟩ := List.mem_flatMap.mp ht
    obtain ⟨hname, hpath, hkind⟩ := h e he
    simp only [List.mem_cons, List.not_mem_nil, or_false] at hmem
    rcases hmem with rfl | rfl | rfl
    · exact Utf8.firstRun_eq_none_iff.mpr hname
    · exact Utf8.firstRun_eq_none_iff.mpr hpath
    · exact Utf8.firstRun_eq_none_iff.mpr hkind

/-- An index without surrogates is stored, and then moved. -/
lemma exec_install {temporary : Text} {file : Location} {path : Path} {index : Index}
    (h : index.IsScalar) (w : World) :
    (install temporary file path index).exec w =
      (Files.replace temporary path.text).exec
        (w.withFiles (w.files.store file (Utf8.encodeAll index.render))) := by
  unfold install Files.storeText
  rw [findSome?_firstRun_eq_none_iff.mpr h, Utf8.encode_eq_ok (Index.isScalar_render h)]
  simp only [Action.exec_bind, Files.store, Action.exec_modify]
  rfl

/-- An index with surrogates is not stored, which is told of their first run. -/
lemma exec_install_of_firstRun (temporary : Text) (file : Location) (path : Path) {index : Index}
    {run : Utf8.Unencodable}
    (h : index.texts.findSome? (Utf8.firstRun CodePoint.isSurrogate 0) = some run) (w : World) :
    (install temporary file path index).exec w = (.error (.unwritableText run), w) := by
  unfold install
  rw [h]
  rfl

/-- An index with surrogates is not stored. -/
lemma exec_install_unwritable (temporary : Text) (file : Location) (path : Path) {index : Index}
    (h : ¬ index.IsScalar) :
    ∃ run, ∀ w, (install temporary file path index).exec w = (.error (.unwritableText run), w) := by
  rw [← findSome?_firstRun_eq_none_iff] at h
  obtain ⟨run, hrun⟩ := Option.ne_none_iff_exists'.mp h
  exact ⟨run, exec_install_of_firstRun temporary file path hrun⟩

/-- A file that is moved over a state with a fresh file takes its place in the state before. -/
lemma takes_of_fresh {s s' t : State} {temporary path : Text} {file dest : Location}
    {content : Bytes} (hfresh : Files.Fresh ".tmp" s s' temporary file)
    (ht : t.view = Function.update s.view file (some (.file content))) (hhome : t.home = s.home)
    (hne : dest ≠ file) (h : t.Takes path dest) : s.Takes path dest := by
  obtain ⟨p, hp, rfl, hslash⟩ := h.leads
  have hview : s.view p.location = t.view p.location := by
    rw [ht, Function.update_of_ne hne]
  have hsame := State.locate_of_view_eq (hfresh.frame ht).symm hhome.symm hp hview
  refine ⟨?_, hview ▸ h.face⟩
  cases p with
  | object loc n =>
    obtain ⟨n', -, hn'⟩ := hsame
    exact ⟨_, hn', rfl, fun _ _ => by simp⟩
  | vacancy parent name slashed => exact ⟨_, hsame, rfl, hslash⟩

/-- A temporary file is discarded, and all is as before it was made. -/
lemma exec_discard_fresh {temporary : Text} {file : Location} {content : Bytes} {w : World}
    {s' t : State} (hfresh : Files.Fresh ".tmp" w.files s' temporary file)
    (hlog : ∀ loc, w.logFile? = some loc → w.files.view loc ≠ none)
    (htemporary : Files.IsPassable temporary)
    (ht : t.view = Function.update w.files.view file (some (.file content)))
    (hhome : t.home = w.files.home)
    (hhere : t.locate .entry temporary = .ok (.object file (.file content))) :
    ∃ w', (Files.discard temporary).exec (w.withFiles t) = (.ok (), w') ∧
      World.Becomes w w' w.files.view w.logFile? := by
  have hremove : (t.remove file).view = w.files.view := by
    rw [State.view_remove (State.ne_nil_of_locate hhere (by simp [Node.face])) (by simp [ht]), ht,
      Function.update_idem, ← hfresh.absent, Function.update_eq_self]
  rw [Files.exec_discard_of_locate htemporary hhere (by simp [Node.face])]
  refine ⟨_, rfl, hhome, ⟨[], ?_⟩, ?_, rfl, rfl, rfl⟩
  · rw [grow_nil]
    exact hremove
  · rw [World.logFile?_forget, if_neg]
    · rfl
    · exact fun h => hlog file h hfresh.absent

/-- A temporary file becomes the record of a path, or is deleted if something goes wrong. -/
def installOrDiscard (temporary : Text) (file : Location) (path : Path) (index : Index) :
    Action Unit :=
  tryCatch (install temporary file path index) fun e => do
    Files.discard temporary
    throw e

/-- A record is written by way of a temporary file next to it. -/
lemma write_eq (c : Cache) (language : Text) (index : Index) : c.write language index = (do
    Files.makePath c.directory
    let (temporary, file) ← Files.createFresh c.directory (temporaryStart language) ".tmp"
    installOrDiscard temporary file (c.recordPath language) index
    report "index.cached" [("path", .string (c.recordPath language).text),
      ("entries", .int index.entries.length)]
    pure (c.recordPath language)) := rfl

/-- Nothing is written where no file can have the path of the directory. -/
lemma exec_write_of_refusal {c : Cache} {f : Failure} (h : Files.refusal? c.directory.text = some f)
    (language : Text) (index : Index) (w : World) :
    (c.write language index).exec w = (.error f, w) :=
  Action.exec_bind_error (Files.exec_makePath_refused h w)

section Fresh

variable {c : Cache} {language temporary : Text} {file : Location} {index : Index} {w : World}
  {s' : State} (hfresh : Files.Fresh ".tmp" w.files s' temporary file)
  (hlog : ∀ loc, w.logFile? = some loc → w.files.view loc ≠ none)
include hfresh hlog

/-- A temporary file does not become the record of an index with surrogates; it goes. -/
lemma exec_install_fresh_of_firstRun (htemporary : Files.IsPassable temporary) (path : Path)
    {run : Utf8.Unencodable}
    (h : index.texts.findSome? (Utf8.firstRun CodePoint.isSurrogate 0) = some run) :
    ∃ w', (installOrDiscard temporary file path index).exec (w.withFiles s') =
        (.error (.unwritableText run), w') ∧ World.Becomes w w' w.files.view w.logFile? := by
  obtain ⟨w', hdiscard, hbecomes⟩ :=
    exec_discard_fresh hfresh hlog htemporary hfresh.view hfresh.home hfresh.leads
  refine ⟨w', ?_, hbecomes⟩
  rw [installOrDiscard,
    Action.exec_tryCatch_error (exec_install_of_firstRun temporary file path h (w.withFiles s')),
    Action.exec_bind_ok hdiscard]
  rfl

/-- A temporary file that is moved to the path of a record leaves the files as they were before it was
made, but for the record. -/
lemma becomes_of_replace_fresh {content : Bytes} {gone : Option Location} {t : State}
    (h : (s'.store file content).replace temporary (c.recordPath language).text = .ok (gone, t)) :
    ∃ dest, w.files.Takes (c.recordPath language).text dest ∧
      World.Becomes w (gone.elim (w.withFiles t) (w.withFiles t).forget)
        (Function.update w.files.view dest (some (.file content)))
        (if w.logFile? = some dest then none else w.logFile?) := by
  have hstored := hfresh.view_store content
  have hhere := hfresh.leads_store content
  have hhome : (s'.store file content).home = w.files.home := by rw [State.home_store, hfresh.home]
  rcases State.view_replace hhere h with ⟨n', hn'⟩ | ⟨dest, htakes, hne, hgive, hhome', hview⟩
  · exfalso
    obtain ⟨a, x, rfl, hending⟩ := hfresh.ending
    exact location_ne_of_fresh hn' hending hhere rfl
  -- taking the temporary file away gives the files before it was made
  have hgone : Function.update (s'.store file content).view file none = w.files.view := by
    rw [hstored, Function.update_idem, ← hfresh.absent, Function.update_eq_self]
  rw [hgone] at hview
  have hdest : (s'.store file content).view dest = w.files.view dest := by
    rw [hstored, Function.update_of_ne hne]
  have hbecomes := World.Becomes.of_update (hhome'.trans hhome) hview hlog
  refine ⟨dest, takes_of_fresh hfresh hstored hhome hne htakes, ?_⟩
  by_cases habsent : w.files.view dest = none
  · obtain rfl : gone = none := by rw [hgive, hdest, if_pos habsent]
    rwa [if_pos habsent] at hbecomes
  · obtain rfl : gone = some dest := by rw [hgive, hdest, if_neg habsent]
    rwa [if_neg habsent] at hbecomes

/-- A temporary file becomes the record, or goes. -/
lemma exec_install_fresh (hindex : index.IsScalar) (htemporary : Files.IsPassable temporary)
    (hpath : Files.IsPassable (c.recordPath language).text) :
    (∃ cause w', (s'.store file (Utf8.encodeAll index.render)).replace temporary
          (c.recordPath language).text = .error cause ∧
      (installOrDiscard temporary file (c.recordPath language) index).exec (w.withFiles s') =
          (.error (.system ⟨cause, temporary, some (c.recordPath language).text⟩), w') ∧
      World.Becomes w w' w.files.view w.logFile?) ∨
    ∃ dest w',
      (installOrDiscard temporary file (c.recordPath language) index).exec (w.withFiles s') =
          (.ok (), w') ∧
      w.files.Takes (c.recordPath language).text dest ∧
      World.Becomes w w' (Function.update w.files.view dest
          (some (.file (Utf8.encodeAll index.render))))
        (if w.logFile? = some dest then none else w.logFile?) := by
  rw [installOrDiscard, Action.exec_tryCatch, exec_install hindex, Files.exec_replace,
    Files.refusal?_eq_none_iff.mpr htemporary, Option.orElse_none,
    Files.refusal?_eq_none_iff.mpr hpath]
  simp only [World.files_withFiles, World.withFiles_withFiles]
  cases hreplace : (s'.store file (Utf8.encodeAll index.render)).replace temporary
      (c.recordPath language).text with
  | error e =>
    obtain ⟨w', hdiscard, hbecomes⟩ := exec_discard_fresh hfresh hlog htemporary
      (hfresh.view_store _) ((State.home_store _ _ _).trans hfresh.home) (hfresh.leads_store _)
    simp only
    rw [Action.exec_bind, hdiscard]
    exact Or.inl ⟨e, w', rfl, rfl, hbecomes⟩
  | ok r =>
    obtain ⟨gone, t⟩ := r
    obtain ⟨dest, htakes, hbecomes⟩ := becomes_of_replace_fresh hfresh hlog hreplace
    cases gone with
    | none => exact Or.inr ⟨dest, _, rfl, htakes, hbecomes⟩
    | some loc => exact Or.inr ⟨dest, _, rfl, htakes, hbecomes⟩

end Fresh

/-! ## The whole of it -/

/-- What writing a record comes to, as a result and a world after it. -/
inductive WriteEffect (c : Cache) (language : Text) (content : Bytes) (w : World) :
    Except Failure Path → World → Prop where
  /-- The record could not be written, and there is nothing but directories on the way to it. -/
  | failed {x : Except Failure Unit} {s : State} {e : SystemError} {w' : World}
      (made : (Files.makePath c.directory).exec w = (x, w.withFiles s))
      (way : Files.MakesWay c.directory w.files s)
      (becomes : World.Becomes w w' s.view w.logFile?) :
      WriteEffect c language content w (.error (.system e)) w'
  /-- The record stands where its path led. -/
  | recorded {s : State} {w' : World} {dest : Location}
      (made : (Files.makePath c.directory).exec w = (.ok (), w.withFiles s))
      (way : Files.MakesWay c.directory w.files s)
      (takes : s.Takes (c.recordPath language).text dest)
      (becomes : World.Becomes w w' (Function.update s.view dest (some (.file content)))
        (if w.logFile? = some dest then none else w.logFile?)) :
      WriteEffect c language content w (.ok (c.recordPath language)) w'

/-- Whatever the effect, nothing was asked for, and the remote source is the same. -/
lemma WriteEffect.requests {c : Cache} {language : Text} {content : Bytes} {w w' : World}
    {x : Except Failure Path} (h : c.WriteEffect language content w x w') :
    w'.requests = w.requests ∧ w'.remote = w.remote := by
  cases h with
  | failed _ _ becomes => exact ⟨becomes.requests, becomes.remote⟩
  | recorded _ _ _ becomes => exact ⟨becomes.requests, becomes.remote⟩

/-- Writing a record makes the path of the directory, and then fails or creates a temporary file that
is installed. -/
lemma exec_write_steps (c : Cache) (language : Text) (index : Index) {w : World} (hw : w.Sound)
    (hdirectory : Files.IsPassable c.directory.text) (hlanguage : Files.IsPassable language) :
    ∃ x s, (Files.makePath c.directory).exec w = (x, w.withFiles s) ∧
      Files.MakesWay c.directory w.files s ∧
      ((∃ e, (c.write language index).exec w = (.error (.system e), w.withFiles s)) ∨
        ∃ temporary file s', x = .ok () ∧ Files.IsPassable temporary ∧
          Files.Fresh ".tmp" s s' temporary file ∧
          ∃ r, (c.write language index).exec w =
            match (installOrDiscard temporary file (c.recordPath language) index).exec
                (w.withFiles s') with
            | (.ok _, w') => (.ok (c.recordPath language), w'.report r)
            | (.error f, w') => (.error f, w')) := by
  obtain ⟨x, s, hmade, hway, hfail⟩ := Files.exec_makePath hdirectory w
  refine ⟨x, s, hmade, hway, ?_⟩
  rw [write_eq, Action.exec_bind, hmade]
  cases x with
  | error f =>
    obtain ⟨e, rfl⟩ := hfail f rfl
    exact Or.inl ⟨e, rfl⟩
  | ok u =>
    have hfreshPath : Files.IsPassable
        (Files.freshPath s c.directory (temporaryStart language) ++ ".tmp") := by
      have hend : Files.IsPassable (".tmp" : Text) := by
        unfold Files.IsPassable
        decide
      exact (Files.isPassable_freshPath (by rw [hway.home]; exact hw.home) hdirectory
        (isPassable_temporaryStart hlanguage)).append hend
    simp only
    rw [Action.exec_bind]
    rcases Files.exec_createFresh isEnding_temporary c.directory (temporaryStart language)
        (w.withFiles s) with ⟨f, hcreate, hpass⟩ | ⟨e, file, s', hpass, hcreate, hfresh⟩
    · obtain ⟨e, rfl⟩ := hpass hfreshPath
      rw [hcreate]
      exact Or.inl ⟨e, rfl⟩
    · simp only [World.files_withFiles] at hpass hcreate hfresh
      rw [hcreate]
      refine Or.inr ⟨_, file, s', trivial, hpass, hfresh,
        ⟨.info, "index.cached", Context.bind [("component", .string "index_cache")]
          [("path", .string (c.recordPath language).text),
            ("entries", .int index.entries.length)], none⟩, ?_⟩
      simp only
      rw [Action.exec_bind, World.withFiles_withFiles]
      split
      · rename_i hinstall
        rw [hinstall]
        rfl
      · rename_i hinstall
        rw [hinstall]

/-- The log that is open has its file when the path of the directory has been made, too. -/
lemma log_of_makesWay {p : Path} {w : World} {s : State} (hw : w.Sound)
    (hway : Files.MakesWay p w.files s) (loc : Location) (hloc : w.logFile? = some loc) :
    s.view loc ≠ none := by
  obtain ⟨content, hcontent⟩ := hw.log loc hloc
  rw [hway.view_of_some hcontent]
  simp

/-- Writing a record has one of the two effects. -/
theorem exec_write {c : Cache} {language : Text} {index : Index} {w : World} (hw : w.Sound)
    (hdirectory : Files.IsPassable c.directory.text) (hlanguage : Files.IsPassable language)
    (hindex : index.IsScalar) :
    ∃ x w', (c.write language index).exec w = (x, w') ∧
      c.WriteEffect language (Utf8.encodeAll index.render) w x w' := by
  obtain ⟨x, s, hmade, hway, ⟨e, hwrite⟩ | ⟨temporary, file, s', rfl, hpass, hfresh, r, hwrite⟩⟩ :=
    exec_write_steps c language index hw hdirectory hlanguage
  · rw [hwrite]
    exact ⟨_, _, rfl, .failed hmade hway ⟨hway.home, ⟨[], by simp⟩, rfl, rfl, rfl, rfl⟩⟩
  · have hlog := log_of_makesWay hw hway
    have hpath := isPassable_recordPath hdirectory hlanguage
    rw [hwrite]
    rcases exec_install_fresh (w := w.withFiles s) hfresh hlog hindex hpass hpath with
      ⟨cause, w', -, hinstall, hbecomes⟩ | ⟨dest, w', hinstall, htakes, hbecomes⟩
    · rw [World.withFiles_withFiles] at hinstall
      rw [hinstall]
      exact ⟨_, _, rfl, .failed hmade hway (hbecomes.of_withFiles hway.home)⟩
    · rw [World.withFiles_withFiles] at hinstall
      rw [hinstall]
      exact ⟨_, _, rfl, .recorded hmade hway htakes ((hbecomes.of_withFiles hway.home).report r)⟩

/-- An index with surrogates is not written, and there is nothing more than directories on the way to
the records. -/
theorem exec_write_unwritable {c : Cache} {language : Text} {index : Index} {w : World}
    (hw : w.Sound) (hdirectory : Files.IsPassable c.directory.text)
    (hlanguage : Files.IsPassable language) (hindex : ¬ index.IsScalar) :
    ∃ f w' x s, (c.write language index).exec w = (.error f, w') ∧
      (Files.makePath c.directory).exec w = (x, w.withFiles s) ∧
      Files.MakesWay c.directory w.files s ∧ World.Becomes w w' s.view w.logFile? := by
  obtain ⟨x, s, hmade, hway, ⟨e, hwrite⟩ | ⟨temporary, file, s', rfl, hpass, hfresh, r, hwrite⟩⟩ :=
    exec_write_steps c language index hw hdirectory hlanguage
  · exact ⟨_, _, x, s, hwrite, hmade, hway, hway.home, ⟨[], by simp⟩, rfl, rfl, rfl, rfl⟩
  · rw [← findSome?_firstRun_eq_none_iff] at hindex
    obtain ⟨run, hrun⟩ := Option.ne_none_iff_exists'.mp hindex
    have hlog := log_of_makesWay hw hway
    obtain ⟨w', hinstall, hbecomes⟩ := exec_install_fresh_of_firstRun (w := w.withFiles s) hfresh
      hlog hpass (c.recordPath language) hrun
    rw [World.withFiles_withFiles] at hinstall
    rw [hwrite, hinstall]
    exact ⟨_, w', _, s, rfl, hmade, hway, hbecomes.of_withFiles hway.home⟩

end Cache

end EditorDocs
