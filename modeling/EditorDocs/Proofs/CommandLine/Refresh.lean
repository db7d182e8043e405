import EditorDocs.Proofs.CommandLine.Agreement
import EditorDocs.Proofs.CommandLine.Configuration
import EditorDocs.Proofs.Index.Atomic
import EditorDocs.Proofs.Index.Authority
import EditorDocs.Proofs.Index.Clearing
import EditorDocs.Proofs.Server.Undecodable
import EditorDocs.Proofs.Source.Tags

/-!
# Deleting all records

The command line that deletes records without naming languages means all languages with a source.  But
a source is found by a tag in any spelling, and a record has the spelling of the tag in its name, while
the settings list tags in lower case (`Config.lower_of_validate`).  So of the records that were made
under all the spellings only those in lower case go.

`CommandLine.clear_refreshes` says what is left.  After the command has ended with code zero no tag in
lower case has a record, and each of them is fetched when it is resolved next.  A tag in another
spelling is fetched only if it had no record, or had it in a place where a tag in lower case has its
record; otherwise its record is still read (`CommandLine.clear_leaves_spelling`).
-/

namespace EditorDocs

open FileSystem

/-! ## Tags of settings -/

namespace Config

variable {temporary : Path} {m : Mapping}

/-- A setting is what was read, or the default. -/
lemma of_settingOr {α : Type} {p : α → Prop} {name : String} {default a : α}
    {check : Data → Checked α} (h : (settingOr m name default check).value? = some a)
    (hcheck : ∀ d b, (check d).value? = some b → p b) (hdefault : p default) : p a := by
  unfold settingOr at h
  cases hget : Mapping.get? (name : Scalar) m with
  | none =>
    rw [hget] at h
    cases h
    exact hdefault
  | some d =>
    rw [hget] at h
    exact hcheck d a (by rwa [Checked.value?_within] at h)

/-- The sources that were read are in lower case. -/
lemma lower_of_readSources {d : Data} {table : Table Text Text}
    (h : (readSources d).value? = some table) : ∃ urls, table = Sources.lowerTags urls := by
  cases d with
  | mapping entries =>
    simp only [readSources] at h
    cases hlist : readSourceList entries with
    | invalid ps =>
      rw [hlist] at h
      cases h
    | valid pairs =>
      rw [hlist] at h
      cases h
      exact ⟨_, rfl⟩
  | _ => cases h

/-- Settings of the indices that were read have their sources in lower case. -/
lemma lower_of_readDocs {d : DocsSettings} (h : (readDocs temporary m).value? = some d) :
    ∃ urls, d.urls = Sources.lowerTags urls := by
  unfold readDocs at h
  rw [value?_readSection] at h
  split at h
  · simp only [Checked.value?_seq, Checked.value?_map, Option.bind_eq_some_iff,
      Option.map_eq_some_iff] at h
    obtain ⟨_, ⟨_, ⟨_, ⟨_, -, rfl⟩, urls, hurls, rfl⟩, _, -, rfl⟩, _, -, rfl⟩ := h
    exact of_settingOr (p := fun table => ∃ urls, table = Sources.lowerTags urls) hurls
      (fun _ _ => lower_of_readSources) ⟨_, lowerTags_defaultUrls.symm⟩
  · cases h

/-- Settings that were validated have their sources in lower case. -/
lemma lower_of_validate {s : Settings} (h : validate temporary m = .valid s) :
    ∃ urls, s.docs.urls = Sources.lowerTags urls := by
  rw [← Checked.value?_eq_some] at h
  unfold validate at h
  rw [value?_readSection] at h
  split at h
  · simp only [Checked.value?_seq, Checked.value?_map, Option.bind_eq_some_iff,
      Option.map_eq_some_iff] at h
    obtain ⟨_, ⟨_, ⟨docs, hdocs, rfl⟩, _, -, rfl⟩, _, -, rfl⟩ := h
    refine of_settingOr (p := fun docs : DocsSettings => ∃ urls, docs.urls = Sources.lowerTags urls)
      hdocs (fun d docs' hd => ?_) ⟨_, lowerTags_defaultUrls.symm⟩
    cases d with
    | mapping entries => exact lower_of_readDocs hd
    | _ => cases hd
  · cases h

/-- Loading a file changes nothing. -/
lemma exec_loadFile_snd (file : Option Path) (w : World) : ((loadFile file).exec w).2 = w := by
  cases file with
  | none => rfl
  | some path =>
    have hexists : ((Files.exists? path.text).exec w).2 = w := by rw [Files.exec_exists?]
    have hread : ((Files.read path.text).exec w).2 = w := by rw [Files.read, Files.exec_look]
    unfold loadFile
    rw [Action.exec_bind]
    rcases hfound : (Files.exists? path.text).exec w with ⟨f | found, v⟩
    all_goals
      rw [hfound] at hexists
      obtain rfl : v = w := hexists
    · rfl
    · cases found with
      | false => rfl
      | true =>
        simp only [if_true]
        rw [Action.exec_bind, Action.exec_get]
        simp only
        rw [Action.exec_bind]
        rcases hbytes : (Files.read path.text).exec v with ⟨f | bytes, u⟩
        all_goals
          rw [hbytes] at hread
          obtain rfl : u = v := hread
        · rfl
        · simp only
          rw [Action.exec_ofExcept]

/-- Settings that were loaded were validated, and nothing has changed. -/
lemma of_load {e : Environment} {file : Option Path} {options : Mapping} {w w' : World}
    {c : Checked Settings} (h : (load temporary e file options).exec w = (.ok c, w')) :
    w' = w ∧ ∃ m, c = validate temporary m := by
  obtain ⟨d, v, hfile, h⟩ := Action.of_bind h
  rw [Action.exec_ofExcept] at h
  obtain ⟨hsettings, rfl⟩ := Prod.mk.inj h
  constructor
  · have hsame := exec_loadFile_snd file w
    rwa [hfile] at hsame
  · cases d with
    | mapping m =>
      obtain ⟨combined, -, hvalid⟩ := Result.of_bind hsettings
      exact ⟨combined, (Except.ok.inj hvalid).symm⟩
    | list items => cases hsettings
    | set keys => cases hsettings
    | scalar s => cases hsettings

end Config

namespace Log

/-- The working directory is the same when a log was opened. -/
lemma home_openJournal {s : LogSettings} {quiet : Bool} {logger time : Text} {w w' : World}
    {journal : Journal} (h : (openJournal s quiet logger time).exec w = (.ok journal, w')) :
    w'.files.home = w.files.home := by
  cases exec_openJournal_ok_iff.mp h with
  | bare _ => rfl
  | @filed path _ _ _ hopen =>
    have hhome := home_openFile path w
    rwa [hopen] at hhome
  | @unfiled path _ _ _ hopen =>
    have hhome := home_openFile path w
    rwa [hopen] at hhome

end Log

namespace Resolver

variable {r : Resolver} {language url : Text} {index : Index} {w : World}

/-- Recording an index asks for nothing. -/
lemma requests_record (hw : w.Sound) :
    ((r.record language index).exec w).2.requests = w.requests := by
  obtain ⟨x, v, hwrite, heffect⟩ := r.cache.exec_write_atomic language index hw
  have hv : v.requests = w.requests := by
    cases heffect with
    | unwritten _ _ hbecomes => exact hbecomes.requests
    | written _ _ _ _ hbecomes => exact hbecomes.requests
  unfold record
  rw [Action.exec_tryCatch, Action.exec_bind, hwrite]
  cases x with
  | ok path => exact hv
  | error f =>
    cases f with
    | system e => exact (World.requests_report v _).trans hv
    | _ => exact hv

/-- A language with a source and without a record is asked for once when it is resolved. -/
lemma requests_resolve (hw : w.Sound) (h : ((r.cache.exists? language).exec w).1 = .ok false)
    (hurl : r.fetcher.sources.indexUrl language = .ok url) :
    ((r.resolve language).exec w).2.requests = w.requests ++ [url] := by
  obtain ⟨hreported, hrequests⟩ := reported_missedAt r language w
  obtain ⟨x, v, hfetch, hv, hasked, -⟩ :=
    Fetcher.exec_fetchIndex hurl (r.missedAt language w)
  rw [exec_resolve_missing h, Action.exec_bind, hfetch]
  cases x with
  | error f => rw [← hrequests]; exact hasked
  | ok index =>
    have hrecord : ((r.record language index).exec v).2.requests = v.requests :=
      requests_record ((hw.reported hreported).reported hv)
    rw [hasked, hrequests] at hrecord
    simp only
    rw [Action.exec_bind]
    rcases hexec : (r.record language index).exec v with ⟨y, v'⟩
    rw [hexec] at hrecord
    cases y <;> exact hrecord

/-! ## What is left -/

/-- The files and what is asked for next once the records of all languages with a source have been
deleted: before in the first world, afterwards in the second one. -/
structure Refreshes (r : Resolver) (v w : World) : Prop where
  /-- A language in lower case has no record, and is asked for. -/
  lower : ∀ tag url, r.fetcher.sources.indexUrl tag = .ok url → tag.lower = tag →
    ((r.cache.exists? tag).exec w).1 = .ok false ∧
      ((r.resolve tag).exec w).2.requests = w.requests ++ [url]
  /-- So is a language in any spelling that had no record, or had it where a language in lower case
  has its record. -/
  shared : (∀ tag ∈ r.fetcher.sources.languages, r.cache.IsPlain v.files tag) →
    ∀ tag url, r.fetcher.sources.indexUrl tag = .ok url → r.cache.IsPlain v.files tag →
      (∀ loc, r.cache.record? v.files tag = some loc →
        loc ∈ r.cache.records v.files r.fetcher.sources.languages) →
      ((r.cache.exists? tag).exec w).1 = .ok false ∧
        ((r.resolve tag).exec w).2.requests = w.requests ++ [url]
  /-- A language that had its record elsewhere still has it, and is not asked for. -/
  own : (∀ tag ∈ r.fetcher.sources.languages, r.cache.IsPlain v.files tag) →
    ∀ tag loc, r.cache.IsPlain v.files tag → r.cache.record? v.files tag = some loc →
      loc ∉ r.cache.records v.files r.fetcher.sources.languages →
      ((r.cache.exists? tag).exec w).1 = .ok true ∧
        ((r.resolve tag).exec w).2.requests = w.requests ∧
        (v.logFile? ≠ some loc → ((r.resolve tag).exec w).1 = r.cache.readFrom v.host.reader tag v.files)

/-- Deleting the records of all languages with a source leaves this. -/
theorem refreshes_of_clear {v v' : World} {n : Nat} (hv : v.Sound)
    (h : (r.cache.clear r.fetcher.sources.languages).exec v = (.ok n, v')) :
    Refreshes r v { v' with journal := none } := by
  obtain ⟨hloses, hall⟩ := Cache.of_clear h
  have hsound : World.Sound { v' with journal := none } := by
    refine ⟨fun loc hloc => ?_, fun name hname => hv.home name (hloses.home ▸ hname)⟩
    cases hloc
  have hasked : ∀ tag url, r.fetcher.sources.indexUrl tag = .ok url →
      v'.files.IsVacant .entry (r.cache.recordPath tag).text →
      ((r.cache.exists? tag).exec { v' with journal := none }).1 = .ok false ∧
        ((r.resolve tag).exec { v' with journal := none }).2.requests = v'.requests ++ [url] :=
    fun tag url hurl hvacant =>
      have hexists := Cache.exists_eq_false (w := { v' with journal := none }) hvacant
      ⟨hexists, requests_resolve hsound hexists hurl⟩
  -- where records are files, they are where they were, but for those that have gone
  have hafter : (∀ tag ∈ r.fetcher.sources.languages, r.cache.IsPlain v.files tag) →
      World.Becomes v v' (Cache.without (r.cache.records v.files r.fetcher.sources.languages)
        v.files.view) (v.logFile?.filter (· ∉ r.cache.records v.files r.fetcher.sources.languages)) ∧
      ∀ tag, r.cache.IsPlain v.files tag → r.cache.IsPlain v'.files tag ∧
        r.cache.record? v'.files tag = (r.cache.record? v.files tag).filter
          (· ∉ r.cache.records v.files r.fetcher.sources.languages) := by
    intro hplain
    obtain ⟨u, hclear, hbecomes⟩ := Cache.exec_clear hplain
    rw [h] at hclear
    obtain ⟨-, rfl⟩ := Prod.mk.inj hclear
    exact ⟨hbecomes, fun tag htag => htag.after (Cache.file_of_mem_records hplain) hbecomes⟩
  refine ⟨fun tag url hurl hspelled => ?_, fun hplain tag url hurl htag hshared => ?_,
    fun hplain tag loc htag hrecord hown => ?_⟩
  · have hmem := (Sources.exists_indexUrl_iff r.fetcher.sources tag).mp ⟨url, hurl⟩
    rw [hspelled] at hmem
    exact hasked tag url hurl (hall tag hmem).2
  · obtain ⟨-, hrecords⟩ := hafter hplain
    obtain ⟨htag', hrecord'⟩ := hrecords tag htag
    refine hasked tag url hurl (htag'.isVacant_of_record? ?_)
    rw [hrecord', Option.filter_eq_none_iff]
    exact fun loc hloc => by simpa using hshared loc hloc
  · obtain ⟨hbecomes, hrecords⟩ := hafter hplain
    obtain ⟨htag', hrecord'⟩ := hrecords tag htag
    rw [hrecord, Option.filter_some, if_pos (by simpa using hown)] at hrecord'
    have hleads := Cache.record?_eq_some_iff.mp hrecord'
    obtain ⟨content, hcontent⟩ := htag'.file_of_record? hrecord'
    have hexists : ((r.cache.exists? tag).exec { v' with journal := none }).1 = .ok true :=
      Cache.exists_of_leads htag.passable hleads hcontent (by simp)
    obtain ⟨u, hresolve, -, hrequests⟩ := exec_resolve_of_exists hexists
    rw [hresolve]
    refine ⟨hexists, hrequests, fun hlog => ?_⟩
    have hview : v'.files.view loc = v.files.view loc := by
      rw [hbecomes.view_of_ne fun hl => hlog (Option.filter_eq_some_iff.mp hl).1, Cache.without,
        if_neg hown]
    change r.cache.readFrom v'.host.reader tag v'.files = _
    rw [hbecomes.host]
    exact Cache.readFrom_eq_of_leads (Cache.record?_eq_some_iff.mp hrecord) hleads
      (hview ▸ hcontent) hcontent (by simp)

end Resolver

namespace CommandLine

/-- A world whose log was just opened keeps to the system. -/
lemma sound_openedAt {s : Setting} {settings : Settings} {w w' : World} {journal : Log.Journal}
    (hw : w.Sound)
    (h : (Log.openJournal settings.log false loggerName s.time).exec w = (.ok journal, w')) :
    (openedAt journal w').Sound :=
  ⟨Log.hasLog_openJournal h, fun name hname => hw.home name (Log.home_openJournal h ▸ hname)⟩

/-- The tags of validated settings are those by which the sources are looked up. -/
lemma languages_of_valid {temporary : Path} {m : Config.Mapping} {settings : Settings}
    (h : Config.validate temporary m = .valid settings) :
    (Resolver.create settings.docs).fetcher.sources.languages = settings.docs.urls.keys := by
  obtain ⟨urls, hurls⟩ := Config.lower_of_validate h
  change (Sources.lowerTags settings.docs.urls).keys = _
  rw [hurls, Sources.lowerTags_lowerTags]

/-- Without a log there is nothing done. -/
lemma withLog_error {s : Setting} {settings : Settings} {w w' : World} {f : Failure}
    (h : (Log.openJournal settings.log false loggerName s.time).exec w = (.error f, w'))
    (work : StateM World Ending) : withLog s settings work w = (.ofFailure f, w') := by
  have hrun : (Log.openJournal settings.log false loggerName s.time).run w = (.error f, w') := h
  unfold withLog
  rw [bind_apply, hrun]
  rfl

/-- How a command line ends that has deleted records, or has failed to. -/
def endingOfClear : Except Failure Nat → Ending
  | .ok n => .done [("Deleted " : Text) ++ Text.ofNat n ++ " cached index(es)\n"]
  | .error f => .ofFailure f

/-- Where no language is named, the records of all languages of the settings are deleted. -/
lemma cacheClear_apply (settings : Settings) (w : World) :
    cacheClear settings [] w =
      (endingOfClear
        (((Resolver.create settings.docs).cache.clear settings.docs.urls.keys).exec w).1,
        (((Resolver.create settings.docs).cache.clear settings.docs.urls.keys).exec w).2) := by
  have hrun : ((Resolver.create settings.docs).cache.clear settings.docs.urls.keys).run w =
      ((Resolver.create settings.docs).cache.clear settings.docs.urls.keys).exec w := rfl
  change (((Resolver.create settings.docs).cache.clear settings.docs.urls.keys).run >>= fun x =>
    match x with
    | .ok n => pure (.done [("Deleted " : Text) ++ Text.ofNat n ++ " cached index(es)\n"])
    | .error e => pure (.ofFailure e) : StateM World Ending) w = _
  rw [bind_apply, hrun]
  rcases ((Resolver.create settings.docs).cache.clear settings.docs.urls.keys).exec w with ⟨f | n, v⟩
  · rfl
  · rfl

/-- If the command line deletes the records of all languages and ends with code zero, then no language
in lower case has a record, and each is asked for when it is resolved next.  So is a language in
another spelling, unless it had a record in a place of its own: that one is still there and is still
read.  This holds whatever was done before, and whatever records that has left. -/
theorem clear_refreshes (s : Setting) (args : List Text) (input : Bytes) {w₀ w : World}
    {o : Options} (hread : (read args).exec w₀ = (.ok (.ok (.cacheClear [] o)), w)) (hw : w.Sound)
    (hcode : (run s args input w₀).1.code = 0) :
    ∃ settings journal v,
      (Config.load s.temporary s.environment o.config o.data).exec w = (.ok (.valid settings), w) ∧
      (Log.openJournal settings.log false loggerName s.time).exec w = (.ok journal, v) ∧
      (Resolver.create settings.docs).Refreshes (openedAt journal v) (run s args input w₀).2 := by
  have hlayers : (Invocation.cacheClear [] o).layers? = some (o.config, o.data) := rfl
  rw [run_of_read hread, perform_of_layers? hlayers] at hcode ⊢
  rcases hload : (Config.load s.temporary s.environment o.config o.data).exec w with
    ⟨f | checked, w'⟩
  · -- without settings the code is another one
    rw [hload] at hcode
    refine absurd hcode (code_final_ne ?_)
    change (if _ then _ else _ : Ending).code ≠ 0
    split
    · exact (by decide : (3 : Nat) ≠ 0)
    · exact code_ofFailure_ne f
  obtain ⟨rfl, m, rfl⟩ := Config.of_load hload
  rw [hload] at hcode
  cases hvalid : Config.validate s.temporary m with
  | invalid ps =>
    rw [hvalid] at hcode
    exact absurd hcode (code_final_ne (by decide : (3 : Nat) ≠ 0))
  | valid settings =>
    rw [hvalid] at hcode hload
    simp only [Invocation.onLoaded, Invocation.work] at hcode ⊢
    rcases hopen : (Log.openJournal settings.log false loggerName s.time).exec w' with
      ⟨f | journal, v⟩
    · -- nor does it work without the log
      rw [withLog_error hopen] at hcode
      exact absurd hcode (code_final_ne (code_ofFailure_ne f))
    · refine ⟨settings, journal, v, rfl, hopen, ?_⟩
      rw [withLog_apply hopen, cacheClear_apply] at hcode ⊢
      rcases hclear : ((Resolver.create settings.docs).cache.clear settings.docs.urls.keys).exec
        (openedAt journal v) with ⟨f | n, v'⟩
      · rw [hclear] at hcode
        exact absurd hcode (code_final_ne (code_ofFailure_ne f))
      · rw [← languages_of_valid hvalid] at hclear
        exact Resolver.refreshes_of_clear (sound_openedAt hw hopen) hclear

/-- A world whose only file is a configuration with one source and without a log file. -/
def sourceConfigured : World :=
  World.still (.directory [("c", .file (Utf8.encodeAll
    "docs: \x7bcache_dir: d, sources: \x7bpy: u\x7d\x7d\nlogging: \x7bfile: null\x7d"))])
    Resolver.sampleRemote

/-- The command line that resolves the source under another spelling. -/
def spelledLine : List Text := (Logged.indices "PY").line (some "c")

/-- The command line that deletes the records of all languages. -/
def clearLine : List Text := (Logged.cacheClear []).line (some "c")

/-- All records are deleted after the source has been resolved. -/
theorem clear_refreshes_sample :
    let w := (run bareSetting spelledLine [] sourceConfigured).2
    (read clearLine).exec w = (.ok (.ok (.cacheClear [] (Logged.bare (some "c")))), w) ∧ w.Sound ∧
      (run bareSetting clearLine [] w).1.code = 0 ∧
      ∃ settings journal v, (Config.load bareSetting.temporary bareSetting.environment
          (some (Path.ofText "c")) (Logged.bare (some "c")).data).exec w =
            (.ok (.valid settings), w) ∧
        (Log.openJournal settings.log false loggerName bareSetting.time).exec w = (.ok journal, v) ∧
        (Resolver.create settings.docs).Refreshes (openedAt journal v)
          (run bareSetting clearLine [] w).2 := by
  intro w
  have hthere : Logged.IsThere (some "c") w := by
    rintro t ⟨⟩
    decide +kernel
  have hread : (read clearLine).exec w =
      (.ok (.ok (.cacheClear [] (Logged.bare (some "c")))), w) :=
    Logged.read_line (c := .cacheClear []) trivial hthere
  have hcode : (run bareSetting clearLine [] w).1.code = 0 := by decide +kernel
  have hlog : w.logFile? = none := by decide +kernel
  have hhome : w.files.home = [] := by decide +kernel
  have hw : w.Sound := by
    refine ⟨fun loc hloc => ?_, fun name hname => ?_⟩
    · rw [hlog] at hloc
      cases hloc
    · rw [hhome] at hname
      cases hname
  exact ⟨hread, hw, hcode, clear_refreshes bareSetting clearLine [] hread hw hcode⟩

/-- A record that was made under another spelling of a language is still there after the records of all
languages have been deleted, and the language is not asked for again. -/
theorem clear_leaves_spelling :
    (run bareSetting spelledLine [] sourceConfigured).2.requests = ["u"] ∧
      (run bareSetting clearLine [] (run bareSetting spelledLine [] sourceConfigured).2).1.code = 0 ∧
      (run bareSetting clearLine [] (run bareSetting spelledLine [] sourceConfigured).2).2.files.view
        ["d", "PY_index.json"] ≠ none ∧
      (run bareSetting spelledLine [] (run bareSetting clearLine []
        (run bareSetting spelledLine [] sourceConfigured).2).2).2.requests = ["u"] := by
  decide +kernel

end CommandLine

end EditorDocs
