import EditorDocs.Proofs.Index.Interleaving

/-!
# Side by side, records are whole

Tasks write, delete and read records at the same time, and none waits for another.  Whatever order their
acts come in, what a record holds is all of one index that some task was given, or what it held at the
start; whoever reads it gets such an index or is told that there is nothing to be read; and the task that
put its file in place last has the say (`Cache.concurrent`).

Languages that consist of the same bytes have one record, so it is by its bytes that a task is one for a
language; and a record that is a link is that of another language (`Cache.records_not_separate`).
-/

namespace EditorDocs.Cache

open FileSystem

/-! ## Acts that change records -/

section Run

variable {ι : Type*} [DecidableEq ι] {c : Cache} {tasks : ι → Task} {w : World}
  {trace : List (ι × Act)} {σ : System ι}

/-- A task did each act of the trace in some world. -/
lemma Run.exists_proceeds (h : Run c tasks w trace σ) {a : ι × Act} (ha : a ∈ trace) :
    ∃ stage v stage' v', c.Proceeds (tasks a.1) stage v a.2 stage' v' := by
  induction h with
  | start => cases ha
  | step run _ proceeds ih =>
    rcases List.mem_append.mp ha with hbefore | hlast
    · exact ih hbefore
    · obtain rfl := List.mem_singleton.mp hlast
      exact ⟨_, _, _, _, proceeds⟩

/-- A record that is changed has a path that can be passed and leads to an entry. -/
lemma Proceeds.exists_place {task : Task} {stage stage' : Stage} {v v' : World} {act : Act}
    (h : c.Proceeds task stage v act stage' v') (hchanges : act.Changes) :
    Files.IsPassable (c.recordPath task.language).text ∧
      ∃ p, v.files.locate .entry (c.recordPath task.language).text = .ok p := by
  cases h with
  | replace _ replaced =>
    obtain ⟨-, hpass, gone, hreplace⟩ := Files.of_replace replaced
    exact ⟨hpass, State.exists_place_of_replace hreplace⟩
  | unlink unlinked =>
    obtain ⟨hpass, gone, hunlink⟩ := Files.of_unlink unlinked
    obtain ⟨-, -, n, hplace, -⟩ := State.view_unlink hunlink
    exact ⟨hpass, _, hplace⟩
  | _ => exact hchanges.elim

/-- Only an index without surrogates is put in place. -/
lemma Proceeds.isScalar {language : Text} {index : Index} {stage stage' : Stage} {v v' : World}
    (h : c.Proceeds (.write language index) stage v .replace stage' v') : index.IsScalar := by
  cases h
  assumption

/-- The language of a record that was changed consists of bytes. -/
lemma Run.isByteText (h : Run c tasks w trace σ) {a : ι × Act} (ha : a ∈ trace)
    (hchanges : a.2.Changes) (hslash : ('/' : CodePoint) ∉ (tasks a.1).language) :
    IsByteText (tasks a.1).language := by
  obtain ⟨_, _, _, _, hproceeds⟩ := h.exists_proceeds ha
  exact isByteText_of_recordPath hslash (hproceeds.exists_place hchanges).1

end Run

/-! ## What is read -/

section Reading

variable {c : Cache} {language : Text}

/-- What is read at the path of a record is what stands in the entry of the language, if that is no
link, and if a path of the same bytes has led to an entry. -/
lemma read_eq_entry (hc : c.directory.IsProper) (hslash : ('/' : CodePoint) ∉ language)
    (hpass : Files.IsPassable (c.recordPath language).text) {other : Text}
    (hslash' : ('/' : CodePoint) ∉ other) (hpass' : Files.IsPassable (c.recordPath other).text)
    (hsame : bytesOf other = bytesOf language) {s : State} {p : Place}
    (hp : s.locate .entry (c.recordPath other).text = .ok p) {t : State} {d : Location}
    (hd : t.LiesAt c.directory.text d)
    (hlink : ∀ target, t.view (d ++ [entryName language]) ≠ some (.link target)) :
    t.read (c.recordPath language).text =
      (t.view (d ++ [entryName language])).elim (.error .noEntry) Face.read := by
  have hlength : byteLength (recordName other) = byteLength (recordName language) := by
    rw [recordName, recordName, byteLength_append, byteLength_append, byteLength_eq_length other,
      byteLength_eq_length language, hsame]
  have hentry : entryName other = entryName language :=
    (entryName_eq_iff (isByteText_of_recordPath hslash' hpass')
      (isByteText_of_recordPath hslash hpass)).mpr hsame
  have hbytes := hpass.isByteText
  have hbytes' := hpass'.isByteText
  rw [recordPath_eq c hslash'] at hbytes' hp
  rw [recordPath_eq c hslash] at hbytes ⊢
  obtain ⟨hpath, hname⟩ := State.short_of_locate_child hc (isRegular_recordName other)
    (notMem_recordName hslash') hbytes' (isRegular_entryName other) hp
  rw [byteLength_childPath hlength] at hpath
  unfold entryName at hentry hlink ⊢
  rw [hentry] at hname
  have hlookup := State.lookup_child hc (isRegular_recordName language) (notMem_recordName hslash)
    hbytes (isRegular_entryName language) hd hlink
  rw [if_neg hpath, if_neg hname] at hlookup
  rw [State.read_eq_of_face, hlookup]
  cases t.view (d ++ [canonical (recordName language)]) <;> rfl

/-- What is read at the path of a record stands in the entry of the language. -/
lemma Explained.entry_of_read {ι : Type*} {tasks : ι → Task} {w : World} {trace : List (ι × Act)}
    {σ : System ι} {s : State} (h : Explained c tasks w trace σ s) (hc : c.directory.IsProper)
    {about : Text → Prop} (hw : c.Unlinked about w) (hlanguage : about language)
    (hslash : ('/' : CodePoint) ∉ language)
    (hpass : Files.IsPassable (c.recordPath language).text) {content : Bytes}
    (hread : σ.world.files.read (c.recordPath language).text = .ok content) :
    ∃ d, s.LiesAt c.directory.text d ∧
      σ.world.files.view (d ++ [entryName language]) = some (.file content) := by
  unfold State.read at hread
  obtain ⟨n, hlookup, hn⟩ := Result.of_bind hread
  obtain ⟨loc, hloc⟩ := State.lookup_eq_ok_iff.mp hlookup
  have hview := State.view_eq_of_find? (State.find?_of_object hloc)
  cases n with
  | directory es => cases hn
  | link target => cases hn
  | file content' =>
    cases hn
    rcases State.locate_entry_of_lookup hloc with hentry | ⟨loc', target, hlink⟩
    · obtain ⟨d, hd, rfl⟩ := h.exists_entry hc hslash hpass hentry
      exact ⟨d, hd, hview⟩
    · obtain ⟨d, hd, rfl⟩ := h.exists_entry hc hslash hpass hlink
      exact absurd (State.view_eq_of_find? (State.find?_of_object hlink))
        (h.view_ne_link hw hlanguage hd target)

end Reading

/-! ## Where records come from -/

/-- A file with this content stood, at the start, where the record of the language belongs: in the
directory to which the path of the directory leads once directories have been made on the way to it. -/
def Stood (c : Cache) (w : World) (language : Text) (content : Bytes) : Prop :=
  ∃ s d, Files.MakesWay c.directory w.files s ∧ s.LiesAt c.directory.text d ∧
    w.files.view (d ++ [entryName language]) = some (.file content)

/-- Some task was given the index to write for a language of the same bytes, and has put it in place. -/
def Given {ι : Type*} (tasks : ι → Task) (trace : List (ι × Act)) (language : Text) (index : Index) :
    Prop :=
  ∃ i other, tasks i = .write other index ∧ bytesOf other = bytesOf language ∧
    (i, Act.replace) ∈ trace

section Source

variable {ι : Type*} [DecidableEq ι] {c : Cache} (hc : c.directory.IsProper) {tasks : ι → Task}
  {about : Text → Prop} (habout : ∀ i, about (tasks i).language)
  (hslash : ∀ language, about language → ('/' : CodePoint) ∉ language) {w : World}
  (hw : c.Unlinked about w) {trace : List (ι × Act)} {σ : System ι}

include hc habout hslash hw

/-- What a record holds stood there at the start, or is all of an index that was put in place. -/
theorem Run.source (h : Run c tasks w trace σ) {language : Text} (hlanguage : about language)
    (hpass : Files.IsPassable (c.recordPath language).text) {content : Bytes}
    (hread : σ.world.files.read (c.recordPath language).text = .ok content) :
    c.Stood w language content ∨ ∃ index, Given tasks trace language index ∧ index.IsScalar ∧
      content = Utf8.encodeAll index.render := by
  obtain ⟨s, hs⟩ := h.explained hc habout hslash hw
  obtain ⟨d, hd, hview⟩ := hs.entry_of_read hc hw hlanguage (hslash _ hlanguage) hpass hread
  rw [hs.records d language hd] at hview
  rcases effects_eq_some hview with hfirst | ⟨i, other, index, hmem, htask, hname, hface⟩
  · refine Or.inl ⟨s, d, hs.way, hd, ?_⟩
    rcases hs.way.view (d ++ [entryName language]) with hsame | ⟨-, hdirectory⟩
    · rwa [← hsame]
    · rw [hdirectory] at hfirst
      cases hfirst
  · right
    cases hface
    have hother : (tasks i).language = other := by rw [htask]; rfl
    have hbytes := h.isByteText hmem trivial (hslash _ (habout i))
    rw [hother] at hbytes
    obtain ⟨_, _, _, _, hproceeds⟩ := h.exists_proceeds hmem
    rw [htask] at hproceeds
    refine ⟨index, ⟨i, other, htask, ?_, hmem⟩, hproceeds.isScalar, rfl⟩
    exact (entryName_eq_iff hbytes (isByteText_of_recordPath (hslash _ hlanguage) hpass)).mp hname

/-- The record is that of the task that has put its file in place last. -/
theorem Run.last {before after : List (ι × Act)} {i : ι}
    (h : Run c tasks w (before ++ (i, .replace) :: after) σ) {language : Text} {index : Index}
    (htask : tasks i = .write language index)
    (hafter : ∀ j act, (j, act) ∈ after → act.Changes →
      bytesOf (tasks j).language ≠ bytesOf language) :
    Files.IsPassable (c.recordPath language).text ∧ index.IsScalar ∧
      σ.world.files.read (c.recordPath language).text = .ok (Utf8.encodeAll index.render) := by
  have hmem : (i, Act.replace) ∈ before ++ (i, .replace) :: after := by simp
  have hlanguage : (tasks i).language = language := by rw [htask]; rfl
  have hnoslash := hslash _ (habout i)
  have hbytes := h.isByteText hmem trivial hnoslash
  obtain ⟨_, v, _, _, hproceeds⟩ := h.exists_proceeds hmem
  obtain ⟨hpass, p, hp⟩ := hproceeds.exists_place trivial
  obtain ⟨s, hs⟩ := h.explained hc habout hslash hw
  obtain ⟨d, hd, -⟩ := hs.acted _ hmem trivial
  have hname : ∀ a ∈ after, a.2.Changes → entryName (tasks a.1).language ≠ entryName language := by
    intro a ha hchanges heq
    have hall : a ∈ before ++ (i, .replace) :: after := by simp [ha]
    refine hafter a.1 a.2 ha hchanges ((entryName_eq_iff ?_ ?_).mp heq)
    · exact h.isByteText hall hchanges (hslash _ (habout a.1))
    · exact hlanguage ▸ hbytes
  have hview := hs.records d language hd
  rw [List.append_cons before, effects_append, effects_of_ne hname, effects_concat, htask, Act.effect,
    Function.update_self] at hview
  rw [hlanguage] at hnoslash hpass hp
  rw [htask] at hproceeds
  refine ⟨hpass, hproceeds.isScalar, ?_⟩
  rw [read_eq_entry hc hnoslash hpass hnoslash hpass rfl hp (hs.liesAt_iff.mpr hd) (by simp [hview]),
    hview]
  rfl

/-- Once a record has been changed by a task, it can be read unless there is none. -/
theorem Run.eq_noEntry (h : Run c tasks w trace σ) {i : ι} {act : Act} (hmem : (i, act) ∈ trace)
    (hchanges : act.Changes) {language : Text} (hlanguage : about language)
    (hsame : bytesOf (tasks i).language = bytesOf language)
    (hpass : Files.IsPassable (c.recordPath language).text) {e : Errno}
    (hread : σ.world.files.read (c.recordPath language).text = .error e) : e = .noEntry := by
  obtain ⟨s, hs⟩ := h.explained hc habout hslash hw
  obtain ⟨d, hd, hframe⟩ := hs.acted _ hmem hchanges
  obtain ⟨_, v, _, _, hproceeds⟩ := h.exists_proceeds hmem
  obtain ⟨hpass', p, hp⟩ := hproceeds.exists_place hchanges
  have hbytes := isByteText_of_recordPath (hslash _ (habout i)) hpass'
  have hbytes' := isByteText_of_recordPath (hslash _ hlanguage) hpass
  rw [(entryName_eq_iff hbytes hbytes').mpr hsame, ← hs.frame] at hframe
  rw [read_eq_entry hc (hslash _ hlanguage) hpass (hslash _ (habout i)) hpass' hsame hp
    (hs.liesAt_iff.mpr hd) (hs.view_ne_link hw hlanguage hd)] at hread
  cases hview : σ.world.files.view (d ++ [entryName language]) with
  | none =>
    rw [hview] at hread
    cases hread
    rfl
  | some face =>
    rw [State.frame, hview] at hframe
    rw [hview] at hread
    cases face with
    | file content => cases hread
    | link target => cases hframe
    | directory => cases hframe

end Source

/-! ## An example -/

/-- The world in which there are no files. -/
def emptyWorld : World := World.still (.directory []) fun _ => .interruption

/-- Where there are no files, nothing but the root stands anywhere. -/
lemma view_emptyWorld {loc : Location} {face : Face} (h : emptyWorld.files.view loc = some face) :
    face = .directory := by
  cases loc with
  | nil =>
    cases h
    rfl
  | cons name rest => cases h

/-- The world in which these are the entries in the directory of the records, and nothing else. -/
def sampleRecords (entries : List (Name × Node)) : World :=
  World.still (.directory [("cache", .directory entries)]) fun _ => .interruption

/-- Two tasks that write different records for one language, and one that reads it. -/
def sampleTasks : Fin 3 → Task
  | 0 => .write "py" sampleIndex
  | 1 => .write "py" ⟨[]⟩
  | 2 => .read "py"

/-- The stage of a task that has this to add to a temporary file. -/
def sampleStage (token : Text) (rest : Bytes) : Stage :=
  .filling ("/cache/.py_index." ++ token ++ ".tmp") ["cache", ".py_index." ++ token ++ ".tmp"] rest

/-- While the first task has half filled its temporary file, the second puts its own in place. -/
def sampleBefore : List (Fin 3 × Act) :=
  [(0, .make), (0, .create), (0, .append), (1, .make), (1, .create), (1, .append), (1, .replace)]

/-- A task can put its file in place while another has a temporary file of its own. -/
lemma exists_sample_run : ∃ σ, Run sampleCache sampleTasks emptyWorld
    (sampleBefore ++ (2, .read (.ok ⟨[]⟩)) :: [(0, .append), (0, .replace)]) σ := by
  obtain ⟨x, y, hxy⟩ : ∃ x y, Utf8.encodeAll sampleIndex.render = x ++ (y ++ []) :=
    ⟨_, _, by rw [List.append_nil, List.take_append_drop 7]⟩
  obtain ⟨z, hz⟩ : ∃ z, z ++ [] = Utf8.encodeAll (Index.render ⟨[]⟩) := ⟨_, List.append_nil _⟩
  have hmake : sampleCache.Proceeds (sampleTasks 0) .ready emptyWorld .make .made
      (sampleRecords []) := .make rfl
  have hcreate : sampleCache.Proceeds (sampleTasks 0) .made (sampleRecords []) .create
      (sampleStage "a" (x ++ (y ++ []))) (sampleRecords [(".py_index.a.tmp", .file [])]) := by
    rw [← hxy]
    exact @Proceeds.create _ "py" _ "a" _ _ _ _ (by decide) rfl rfl
  have happend : sampleCache.Proceeds (sampleTasks 0) (sampleStage "a" (x ++ (y ++ [])))
      (sampleRecords [(".py_index.a.tmp", .file [])]) .append (sampleStage "a" (y ++ []))
      (sampleRecords [(".py_index.a.tmp", .file x)]) := .append (by decide)
  have hmake' : sampleCache.Proceeds (sampleTasks 1) .ready
      (sampleRecords [(".py_index.a.tmp", .file x)]) .make .made
      (sampleRecords [(".py_index.a.tmp", .file x)]) := .make rfl
  have hcreate' : sampleCache.Proceeds (sampleTasks 1) .made
      (sampleRecords [(".py_index.a.tmp", .file x)]) .create (sampleStage "b" (z ++ []))
      (sampleRecords [(".py_index.a.tmp", .file x), (".py_index.b.tmp", .file [])]) := by
    rw [hz]
    exact @Proceeds.create _ "py" _ "b" _ _ _ _ (by decide) rfl rfl
  have happend' : sampleCache.Proceeds (sampleTasks 1) (sampleStage "b" (z ++ []))
      (sampleRecords [(".py_index.a.tmp", .file x), (".py_index.b.tmp", .file [])]) .append
      (sampleStage "b" [])
      (sampleRecords [(".py_index.a.tmp", .file x), (".py_index.b.tmp", .file z)]) :=
    .append (by decide)
  have hreplace' : sampleCache.Proceeds (sampleTasks 1) (sampleStage "b" [])
      (sampleRecords [(".py_index.a.tmp", .file x), (".py_index.b.tmp", .file z)]) .replace .finished
      (sampleRecords [(".py_index.a.tmp", .file x), ("py_index.json", .file z)]) :=
    .replace (by decide) rfl
  have hread : sampleCache.Proceeds (sampleTasks 2) .ready
      (sampleRecords [(".py_index.a.tmp", .file x), ("py_index.json", .file z)]) (.read (.ok ⟨[]⟩))
      .finished (sampleRecords [(".py_index.a.tmp", .file x), ("py_index.json", .file z)]) := by
    have hok : ((sampleCache.read "py").exec (sampleRecords
        [(".py_index.a.tmp", .file x), ("py_index.json", .file z)])).1 = .ok ⟨[]⟩ := by
      rw [List.append_nil] at hz
      rw [hz]
      rfl
    rw [← hok]
    exact .read
  have hrest : sampleCache.Proceeds (sampleTasks 0) (sampleStage "a" (y ++ []))
      (sampleRecords [(".py_index.a.tmp", .file x), ("py_index.json", .file z)]) .append
      (sampleStage "a" [])
      (sampleRecords [(".py_index.a.tmp", .file (x ++ y)), ("py_index.json", .file z)]) :=
    .append (by decide)
  have hreplace : sampleCache.Proceeds (sampleTasks 0) (sampleStage "a" [])
      (sampleRecords [(".py_index.a.tmp", .file (x ++ y)), ("py_index.json", .file z)]) .replace
      .finished (sampleRecords [("py_index.json", .file (x ++ y))]) := .replace (by decide) rfl
  exact ⟨_, ((((((((((Run.start.step rfl hmake).step rfl hcreate).step rfl happend).step rfl
    hmake').step rfl hcreate').step rfl happend').step rfl hreplace').step rfl hread).step rfl
    hrest).step rfl hreplace)⟩

/-! ## Every run -/

/-- However tasks that write, delete and read records of languages without slashes are interleaved, where
no record of these languages is a symbolic link: what a record holds stood there at the start, or is all
of an index that some task was given for the language and has put in place.  A task that reads gets such
an index, one that was put in place before; or it is told that there is no record to be read, which can
only mean that there is none if one was put in place before; or the language is one that no path can hold,
or the record that stood there at the start holds no index.  The task that has put its file in place last
has the say until the record is deleted. -/
theorem concurrent {ι : Type*} [DecidableEq ι] (c : Cache) (hc : c.directory.IsProper)
    (tasks : ι → Task) (about : Text → Prop) (habout : ∀ i, about (tasks i).language)
    (hslash : ∀ language, about language → ('/' : CodePoint) ∉ language) (w : World)
    (hw : c.Unlinked about w) (trace : List (ι × Act)) (σ : System ι)
    (h : Run c tasks w trace σ) :
    (∀ language content, about language →
      ((Files.read (c.recordPath language).text).exec σ.world).1 = .ok content →
        c.Stood w language content ∨
          ∃ index, Given tasks trace language index ∧ content = Utf8.encodeAll index.render) ∧
    (∀ before i outcome after, trace = before ++ (i, .read outcome) :: after →
      (∀ index, outcome = .ok index →
        Given tasks before (tasks i).language index ∨
          ∃ content, c.Stood w (tasks i).language content ∧
            Index.receive w.host.reader (c.recordPath (tasks i).language).text content =
              .ok index) ∧
      ∀ failure, outcome = .error failure →
        (∃ e, failure = .unreadableRecord (c.recordPath (tasks i).language).text
            (SystemError.message ⟨e, (c.recordPath (tasks i).language).text, none⟩) ∧
          (e ≠ .noEntry → ∀ j, (j, .replace) ∈ before →
            bytesOf (tasks j).language ≠ bytesOf (tasks i).language)) ∨
        Files.refusal? (c.recordPath (tasks i).language).text = some failure ∨
        ∃ content, c.Stood w (tasks i).language content ∧
          Index.receive w.host.reader (c.recordPath (tasks i).language).text content =
            .error failure) ∧
    ∀ before i after language index, trace = before ++ (i, .replace) :: after →
      tasks i = .write language index →
      (∀ j act, (j, act) ∈ after → act.Changes → bytesOf (tasks j).language ≠ bytesOf language) →
        ((Files.read (c.recordPath language).text).exec σ.world).1 =
            .ok (Utf8.encodeAll index.render) ∧
          ((c.read language).exec σ.world).1 = .ok index := by
  refine ⟨?_, ?_, ?_⟩
  · intro language content hlanguage hread
    obtain ⟨hpass, hcontent⟩ := Files.read_eq_ok_iff.mp hread
    refine (h.source hc habout hslash hw hlanguage hpass hcontent).imp_right ?_
    rintro ⟨index, hgiven, -, rfl⟩
    exact ⟨index, hgiven, rfl⟩
  · rintro before i outcome after rfl
    obtain ⟨σ', hbefore, rfl⟩ := h.of_read
    cases hrefused : Files.refusal? (c.recordPath (tasks i).language).text with
    | some f =>
      rw [Resolver.exec_read_refused hrefused]
      refine ⟨by simp, ?_⟩
      rintro failure ⟨⟩
      exact Or.inr (Or.inl rfl)
    | none =>
      have hpass := Files.refusal?_eq_none_iff.mp hrefused
      obtain ⟨v, hexec, -⟩ := exec_read hpass σ'.world
      rw [hexec, hbefore.host, readFrom]
      simp only
      cases hread : σ'.world.files.read (c.recordPath (tasks i).language).text with
      | error e =>
        refine ⟨by simp, ?_⟩
        rintro failure ⟨⟩
        refine Or.inl ⟨e, rfl, fun hne j hmem hsame => hne ?_⟩
        exact hbefore.eq_noEntry hc habout hslash hw hmem trivial (habout i) hsame hpass hread
      | ok content =>
        rcases hbefore.source hc habout hslash hw (habout i) hpass hread with
          hstood | ⟨index, hgiven, hindex, rfl⟩
        · exact ⟨fun index hreceive => Or.inr ⟨content, hstood, hreceive⟩,
            fun failure hreceive => Or.inr (Or.inr ⟨content, hstood, hreceive⟩)⟩
        · simp only [Index.receive, Index.decode_render hindex]
          refine ⟨?_, by simp⟩
          rintro index' ⟨⟩
          exact Or.inl hgiven
  · rintro before i after language index rfl htask hafter
    obtain ⟨hpass, hindex, hread⟩ := h.last hc habout hslash hw htask hafter
    refine ⟨Files.read_eq_ok_iff.mpr ⟨hpass, hread⟩, ?_⟩
    obtain ⟨v, hexec, -⟩ := exec_read hpass σ.world
    rw [hexec, readFrom]
    simp only [hread, Index.receive, Index.decode_render hindex]

/-- In the example, what is read is all of the index of the second task; and the first, which puts its
file in place last, has the say in the end. -/
theorem concurrent_sample : ∃ σ, Run sampleCache sampleTasks emptyWorld
      (sampleBefore ++ (2, .read (.ok ⟨[]⟩)) :: [(0, .append), (0, .replace)]) σ ∧
    Given sampleTasks sampleBefore "py" ⟨[]⟩ ∧
      ((sampleCache.read "py").exec σ.world).1 = .ok sampleIndex := by
  obtain ⟨σ, hrun⟩ := exists_sample_run
  obtain ⟨-, hread, hlast⟩ := concurrent sampleCache (Path.isProper_ofText "cache") sampleTasks
    (· = "py") (by decide) (by rintro _ rfl; decide) emptyWorld
    (unlinked_of_view _ fun loc target hlink => by cases view_emptyWorld hlink) _ σ hrun
  refine ⟨σ, hrun, ?_, ?_⟩
  · obtain ⟨hfound, -⟩ := hread sampleBefore 2 (.ok ⟨[]⟩) _ rfl
    rcases hfound ⟨[]⟩ rfl with hgiven | ⟨content, ⟨s, d, -, -, hstood⟩, -⟩
    · exact hgiven
    · cases view_emptyWorld hstood
  · obtain ⟨-, hindex⟩ := hlast (sampleBefore ++ [(2, .read (.ok ⟨[]⟩)), (0, .append)]) 0 [] "py"
      sampleIndex rfl rfl (by simp)
    exact hindex

/-! ## Records that are shared -/

/-- Each language would have a record of its own: what it holds stood there at the start, or is all of an
index that some task was given for this very language; and whoever reads it gets such an index, or is told
that there is none. -/
def Separate {ι : Type*} [DecidableEq ι] (c : Cache) (tasks : ι → Task) (w : World) : Prop :=
  ∀ trace σ, Run c tasks w trace σ →
    (∀ language content, ('/' : CodePoint) ∉ language →
      ((Files.read (c.recordPath language).text).exec σ.world).1 = .ok content →
        ((Files.read (c.recordPath language).text).exec w).1 = .ok content ∨
          ∃ i index, tasks i = .write language index ∧ content = Utf8.encodeAll index.render) ∧
    ∀ i outcome, (i, .read outcome) ∈ trace →
      (∃ index, outcome = .ok index ∧ (((c.read (tasks i).language).exec w).1 = .ok index ∨
        ∃ j, tasks j = .write (tasks i).language index)) ∨
      outcome = .error (.unreadableRecord (c.recordPath (tasks i).language).text
        (SystemError.message ⟨.noEntry, (c.recordPath (tasks i).language).text, none⟩))

section Shared

variable {c : Cache} {language : Text} {w : World}

/-- Records are not separate if an index that is written for one language is read for another. -/
lemma not_separate_of_write (other : Text) {index : Index} (hslash : ('/' : CodePoint) ∉ other)
    (hother : language ≠ other)
    (hwritten : ((c.write language index).exec w).1 = .ok (c.recordPath language))
    (hlog : ((c.write language index).exec w).2.journal.isNone)
    (hread : ((Files.read (c.recordPath other).text).exec ((c.write language index).exec w).2).1 =
      .ok (Utf8.encodeAll index.render))
    (hbefore : ((Files.read (c.recordPath other).text).exec w).1 ≠
      .ok (Utf8.encodeAll index.render)) :
    ¬ Separate c (fun _ : Unit => .write language index) w := by
  intro hseparate
  obtain ⟨trace, σ, hrun, -, ⟨f, hexec, -⟩ | ⟨r, hexec, -⟩⟩ := exists_run_of_write c language index w
  · rw [hexec] at hwritten
    cases hwritten
  · rw [hexec] at hlog hread
    rw [Files.read_eq_ok_iff, World.files_report hlog, ← Files.read_eq_ok_iff] at hread
    rcases (hseparate trace σ hrun).1 other _ hslash hread with hstood | ⟨_, _, htask, -⟩
    · exact hbefore hstood
    · exact hother (Task.write.inj htask).1

/-- Records are not separate if one cannot be read for another reason than that there is none. -/
lemma not_separate_of_read (hread : ((c.read language).exec w).1.isOk = false)
    (hmissing : ((c.read language).exec w).1 ≠ .error (.unreadableRecord (c.recordPath language).text
      (SystemError.message ⟨.noEntry, (c.recordPath language).text, none⟩))) :
    ¬ Separate c (fun _ : Unit => .read language) w := by
  intro hseparate
  have hrun : Run c (fun _ : Unit => .read language) w _ _ := Run.start.step (i := ()) rfl .read
  rcases (hseparate _ _ hrun).2 () _ (List.mem_singleton_self _) with ⟨index, hok, -⟩ | hnone
  · rw [System.world_start] at hok
    rw [hok] at hread
    cases hread
  · exact hmissing hnone

end Shared

/-- Records are not separate.  Languages that consist of the same bytes share one, and so do two
languages if the record of one is a link to that of the other.  Nor can every record be read that is
there, for it may hold no index; and no path can hold a language with a null character. -/
theorem records_not_separate :
    ¬ Separate sampleCache
        (fun _ : Unit => .write [CodePoint.ofNat 0xDCC3, CodePoint.ofNat 0xDCA9] sampleIndex)
        emptyWorld ∧
      ¬ Separate sampleCache (fun _ : Unit => .write "js" sampleIndex)
        (sampleRecords [("py_index.json", .link "js_index.json")]) ∧
      ¬ Separate sampleCache (fun _ : Unit => .read "py")
        (sampleRecords [("py_index.json", .file [])]) ∧
      ¬ Separate sampleCache (fun _ : Unit => .read "\x00") emptyWorld := by
  refine ⟨?_, ?_, ?_, ?_⟩
  · exact not_separate_of_write "é" (by decide) (by decide) (by decide +kernel)
      (by decide +kernel) (by decide +kernel) (by decide +kernel)
  · exact not_separate_of_write "py" (by decide) (by decide) (by decide +kernel)
      (by decide +kernel) (by decide +kernel) (by decide +kernel)
  · exact not_separate_of_read (by decide +kernel) (by decide +kernel)
  · exact not_separate_of_read (by decide +kernel) (by decide +kernel)

end EditorDocs.Cache
