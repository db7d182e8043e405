import EditorDocs.Proofs.Config.Validation
import EditorDocs.Proofs.FileSystem.Spelling
import EditorDocs.Proofs.Result
import EditorDocs.Proofs.Source.Tags

/-!
# The normal form of a configuration

Validation reads a setting in any of the forms in which it may be written, and keeps it in one form.
What it keeps is normal (`Settings.IsNormal`): the tags are in lower case and different, no slash is
left at the end of the base, the time for a request is above zero, and the paths are such as are
read from texts.  Each setting is normal because its reader makes it so and because its default is,
and a configuration is normal setting by setting (`isNormal_of_validate`).

Settings can be written out as data again (`Settings.toMapping`).  Validation takes normal settings
back from that as they are (`validate_toMapping`), so that the normal settings are those that some
configuration has (`exists_validate_iff_isNormal`), and to validate once more what was validated
changes nothing.
-/

namespace EditorDocs

/-! ## Settings as data -/

/-- The settings of the indices as data. -/
def DocsSettings.toMapping (s : DocsSettings) : Config.Mapping :=
  [("cache_dir", .text s.cacheDir.text),
    ("sources", .mapping (s.urls.map fun e => (.text e.1, .text e.2))),
    ("documents_base_url", .text s.base),
    ("timeout", .scalar (.float s.timeout))]

/-- The settings of trees as data. -/
def TreeSettings.toMapping (s : TreeSettings) : Config.Mapping :=
  [("strict", .scalar (.bool s.strict)),
    ("max_depth", .scalar (s.maxDepth.elim .null fun n => .int n)),
    ("create_missing", .scalar (.bool s.createMissing))]

/-- The settings of the log as data. -/
def LogSettings.toMapping (s : LogSettings) : Config.Mapping :=
  [("level", .text s.level.name),
    ("file", .scalar (s.file.elim .null fun p => .text p.text)),
    ("verbose", .scalar (.int s.verbose))]

/-- A configuration as data, with all its settings. -/
def Settings.toMapping (s : Settings) : Config.Mapping :=
  [("docs", .mapping s.docs.toMapping),
    ("tree", .mapping s.tree.toMapping),
    ("logging", .mapping s.log.toMapping)]

/-- A level has one of four names. -/
lemma Level.exists_name_eq (l : Level) :
    ∃ name ∈ (["debug", "info", "warn", "error"] : List String), l.name = Text.ofString name := by
  cases l <;> exact ⟨_, by simp, rfl⟩

/-! ## Normal settings -/

/-- The settings of the indices are such as validation keeps. -/
structure DocsSettings.IsNormal (s : DocsSettings) : Prop where
  /-- The tags are in lower case. -/
  tags_lower : ∀ tag ∈ s.urls.keys, tag.lower = tag
  /-- No tag is there twice. -/
  tags_nodup : s.urls.keys.Nodup
  /-- The base does not end with a slash. -/
  base : s.base.getLast? ≠ some ('/' : CodePoint)
  /-- A request may take some time. -/
  timeout : s.timeout.isPositive = true
  /-- The directory of the records is a path as it is read. -/
  cacheDir : s.cacheDir.IsProper

/-- The settings of a configuration are such as validation keeps. -/
structure Settings.IsNormal (s : Settings) : Prop where
  /-- So are those of the indices. -/
  docs : s.docs.IsNormal
  /-- The log file is a path as it is read. -/
  file : ∀ p ∈ s.log.file, p.IsProper

namespace Sources

/-- A base from which slashes were dropped does not end with one. -/
lemma getLast?_dropEndSlashes (t : Text) :
    (dropEndSlashes t).getLast? ≠ some ('/' : CodePoint) := by
  obtain ⟨-, -, -, hlast⟩ := Text.exists_dropEndWhile (· = ('/' : CodePoint)) t
  intro hslash
  simpa using hlast _ hslash

/-- A base that does not end with a slash has none to lose. -/
lemma dropEndSlashes_eq {t : Text} (h : t.getLast? ≠ some ('/' : CodePoint)) :
    dropEndSlashes t = t := by
  refine Text.dropEndWhile_of_getLast? fun c hc => decide_eq_false ?_
  rintro rfl
  exact h hc

end Sources

namespace Config

open Mapping (get? setting?)

/-! ## The names of the settings -/

/-- The sections of a configuration with the names of their settings. -/
def sectionNames : List (String × List String) :=
  [("docs", ["cache_dir", "sources", "documents_base_url", "timeout"]),
    ("tree", ["strict", "max_depth", "create_missing"]),
    ("logging", ["level", "file", "verbose"])]

/-- What stands in a section; an absent section is empty, and what is no mapping is no section. -/
def section? (name : String) (m : Mapping) : Option Mapping :=
  match get? (name : Scalar) m with
  | none => some []
  | some (.mapping entries) => some entries
  | some _ => none

/-- The mapping has no names but those of sections, and its sections no names but those of their
settings. -/
structure IsWellNamed (m : Mapping) : Prop where
  /-- The sections are known. -/
  sections : HasKnownNames (sectionNames.map Prod.fst) m
  /-- So are their settings. -/
  settings : ∀ e ∈ sectionNames, ∃ entries, section? e.1 m = some entries ∧ HasKnownNames e.2 entries

/-- A setting of a mapping stands in its section. -/
lemma setting?_of_section? {name : String} {m entries : Mapping}
    (h : section? name m = some entries) (k : Scalar) :
    setting? (name : Scalar) k m = get? k entries := by
  unfold section? at h
  unfold setting?
  split at h
  · rename_i hnone
    cases h
    rw [hnone]
    rfl
  · rename_i hsome
    cases h
    rw [hsome]
  · cases h

/-! ## Valid sections -/

section

variable {temporary : Path} {m : Mapping}

/-- A section is valid if it is a mapping, or absent, and is read as one. -/
lemma settingOr_section_eq_valid_iff {α : Type} {name wanted : String} {default a : α}
    {read : Mapping → Checked α} (hempty : read [] = .valid default) :
    settingOr m name default (readSectionData wanted read) = .valid a ↔
      ∃ entries, section? name m = some entries ∧ read entries = .valid a := by
  rw [settingOr_eq_valid_iff, section?]
  cases get? (name : Scalar) m with
  | none => simp [hempty]
  | some d => cases d <;> simp [readSectionData]

/-- A configuration is valid if its sections are, under names that are known. -/
lemma validate_eq_valid_iff {s : Settings} :
    validate temporary m = .valid s ↔
      HasKnownNames ["docs", "tree", "logging"] m ∧
        (∃ docs, section? "docs" m = some docs ∧ readDocs temporary docs = .valid s.docs) ∧
        (∃ tree, section? "tree" m = some tree ∧ readTree tree = .valid s.tree) ∧
        ∃ log, section? "logging" m = some log ∧ readLog log = .valid s.log := by
  have hdocs : readDocs temporary [] = .valid (Settings.defaultDocs temporary) := rfl
  have htree : readTree [] = .valid Settings.defaultTree := rfl
  have hlog : readLog [] = .valid Settings.defaultLog := rfl
  rw [validate, readSection_eq_valid_iff (by decide)]
  simp only [Checked.seq_eq_valid_iff, Checked.map_eq_valid_iff,
    settingOr_section_eq_valid_iff hdocs, settingOr_section_eq_valid_iff htree,
    settingOr_section_eq_valid_iff hlog]
  refine and_congr_right fun _ => ⟨?_, ?_⟩
  · rintro ⟨_, l, ⟨_, t, ⟨d, hd, rfl⟩, ht, rfl⟩, hl, rfl⟩
    exact ⟨hd, ht, hl⟩
  · rintro ⟨hd, ht, hl⟩
    exact ⟨_, _, ⟨_, _, ⟨_, hd, rfl⟩, ht, rfl⟩, hl, rfl⟩

/-- The names of a valid configuration are known. -/
lemma isWellNamed_of_validate {s : Settings} (h : validate temporary m = .valid s) :
    IsWellNamed m := by
  obtain ⟨hnames, ⟨docs, hdocs, hreadDocs⟩, ⟨tree, htree, hreadTree⟩, log, hlog, hreadLog⟩ :=
    validate_eq_valid_iff.mp h
  refine ⟨hnames, ?_⟩
  simp only [sectionNames, List.forall_mem_cons, List.not_mem_nil, false_imp_iff, implies_true]
  exact ⟨⟨docs, hdocs, (readDocs_eq_valid_iff.mp hreadDocs).1⟩,
    ⟨tree, htree, (readTree_eq_valid_iff.mp hreadTree).1⟩,
    ⟨log, hlog, (readLog_eq_valid_iff.mp hreadLog).1⟩, trivial⟩

/-- A depth that is given is null, or it is read as an integer that is not negative. -/
lemma maxDepth_of_validate {s : Settings} (h : validate temporary m = .valid s) {d : Data}
    (hd : setting? "tree" "max_depth" m = some d) :
    (d = .scalar .null ∧ s.tree.maxDepth = none) ∨
      ∃ n : Nat, readInteger d = .ok n ∧ s.tree.maxDepth = some n := by
  obtain ⟨-, -, ⟨tree, htree, hread⟩, -⟩ := validate_eq_valid_iff.mp h
  obtain ⟨-, -, hdepth, -⟩ := readTree_eq_valid_iff.mp hread
  rw [setting?_of_section? htree] at hd
  rcases scalarSetting_eq_valid_iff.mp hdepth with ⟨hnone, -⟩ | ⟨d', hd', hok⟩
  · cases hnone.symm.trans hd
  · obtain rfl : d' = d := Option.some.inj (hd'.symm.trans hd)
    unfold readDepth at hok
    split at hok
    · exact Or.inl ⟨rfl, (Except.ok.inj hok).symm⟩
    · obtain ⟨n, hn, hsize⟩ := Result.of_bind hok
      by_cases hneg : n < 0
      · rw [if_pos hneg] at hsize
        cases hsize
      · rw [if_neg hneg] at hsize
        refine Or.inr ⟨n.toNat, ?_, (Except.ok.inj hsize).symm⟩
        rw [hn, Int.toNat_of_nonneg (by omega)]

/-- A level that is given is named. -/
lemma level_of_validate {s : Settings} (h : validate temporary m = .valid s) {d : Data}
    (hd : setting? "logging" "level" m = some d) : d = .text s.log.level.name := by
  obtain ⟨-, -, -, log, hlog, hread⟩ := validate_eq_valid_iff.mp h
  obtain ⟨-, hlevel, -⟩ := readLog_eq_valid_iff.mp hread
  rw [setting?_of_section? hlog] at hd
  rcases scalarSetting_eq_valid_iff.mp hlevel with ⟨hnone, -⟩ | ⟨d', hd', hok⟩
  · cases hnone.symm.trans hd
  · obtain rfl : d' = d := Option.some.inj (hd'.symm.trans hd)
    unfold readLevel at hok
    split at hok
    · rename_i t
      split at hok
      · cases hok
      · split at hok
        · rename_i hl
          cases hok
          have hname : s.log.level.name = t := by simpa using List.find?_some hl
          rw [hname, Data.text]
        · cases hok
    · cases hok

/-! ## What is kept is normal -/

/-- A path that was read is proper. -/
lemma isProper_of_readPath {d : Data} {p : Path} (h : readPath d = .ok p) : p.IsProper := by
  unfold readPath at h
  split at h
  · rename_i t
    cases h
    exact Path.isProper_ofText t
  · cases h

/-- A log file that was read is a proper path. -/
lemma isProper_of_readFile {d : Data} {file : Option Path} (h : readFile d = .ok file) :
    ∀ p ∈ file, p.IsProper := by
  unfold readFile at h
  split at h
  · cases h
    simp
  · obtain ⟨p, hp, rfl⟩ := Result.of_map h
    simpa using isProper_of_readPath hp

/-- A number that was read as one above zero is above zero. -/
lemma isPositive_of_readPositive {d : Data} {x : Binary64} (h : readPositive d = .ok x) :
    x.isPositive = true := by
  obtain ⟨y, -, hy⟩ := Result.of_bind h
  split at hy
  · rename_i hpositive
    cases hy
    exact hpositive
  · cases hy

/-- Sources that were read are tags and URLs in lower case. -/
lemma exists_lowerTags_of_readSources {d : Data} {urls : Table Text Text}
    (h : readSources d = .valid urls) : ∃ pairs, urls = Sources.lowerTags pairs := by
  cases d with
  | mapping entries =>
    obtain ⟨pairs, -, hurls⟩ := Checked.map_eq_valid_iff.mp h
    exact ⟨_, hurls.symm⟩
  | _ => cases h

/-- Valid settings of the indices are normal. -/
lemma isNormal_of_readDocs (htemporary : temporary.IsProper) {s : DocsSettings}
    (h : readDocs temporary m = .valid s) : s.IsNormal := by
  obtain ⟨-, hcacheDir, hurls, hbase, htimeout⟩ := readDocs_eq_valid_iff.mp h
  obtain ⟨pairs, hpairs⟩ : ∃ pairs, s.urls = Sources.lowerTags pairs := by
    rcases settingOr_eq_valid_iff.mp hurls with ⟨-, hdefault⟩ | ⟨d, -, hd⟩
    · exact ⟨_, hdefault.symm.trans lowerTags_defaultUrls.symm⟩
    · exact exists_lowerTags_of_readSources hd
  exact {
    tags_lower := fun tag htag => Sources.lower_of_mem_keys (hpairs ▸ htag)
    tags_nodup := hpairs ▸ Table.nodup_keys_ofPairs _
    base := by
      rcases scalarSetting_eq_valid_iff.mp hbase with ⟨-, hdefault⟩ | ⟨d, -, hd⟩
      · rw [← hdefault]
        decide
      · obtain ⟨t, -, ht⟩ := Result.of_map hd
        exact ht ▸ Sources.getLast?_dropEndSlashes t
    timeout := by
      rcases scalarSetting_eq_valid_iff.mp htimeout with ⟨-, hdefault⟩ | ⟨d, -, hd⟩
      · rw [← hdefault]
        decide
      · exact isPositive_of_readPositive hd
    cacheDir := by
      rcases scalarSetting_eq_valid_iff.mp hcacheDir with ⟨-, hdefault⟩ | ⟨d, -, hd⟩
      · exact hdefault ▸ htemporary
      · exact isProper_of_readPath hd }

/-- The log file of valid settings is a proper path. -/
lemma isProper_of_readLog {s : LogSettings} (h : readLog m = .valid s) : ∀ p ∈ s.file, p.IsProper := by
  obtain ⟨-, -, hfile, -⟩ := readLog_eq_valid_iff.mp h
  rcases scalarSetting_eq_valid_iff.mp hfile with ⟨-, hdefault⟩ | ⟨d, -, hd⟩
  · rw [← hdefault]
    simpa using Path.isProper_ofText "doc_log.txt"
  · exact isProper_of_readFile hd

/-- A valid configuration is normal. -/
theorem isNormal_of_validate (htemporary : temporary.IsProper) {s : Settings}
    (h : validate temporary m = .valid s) : s.IsNormal := by
  obtain ⟨-, ⟨docs, -, hdocs⟩, -, log, -, hlog⟩ := validate_eq_valid_iff.mp h
  exact ⟨isNormal_of_readDocs htemporary hdocs, isProper_of_readLog hlog⟩

/-! ## What is normal is kept -/

/-- A mapping whose names are those of the list has no others. -/
lemma hasKnownNames_of_map_fst {known : List String}
    (h : m.map Prod.fst = known.map fun name : String => (name : Scalar)) :
    HasKnownNames known m := by
  intro e he
  have hkey : e.1 ∈ m.map Prod.fst := List.mem_map_of_mem he
  rw [h] at hkey
  exact List.mem_map.mp hkey

/-- Normal settings of the indices are read back. -/
lemma readDocs_toMapping {s : DocsSettings} (h : s.IsNormal) :
    readDocs temporary s.toMapping = .valid s := by
  refine readDocs_eq_valid_iff.mpr ⟨hasKnownNames_of_map_fst rfl,
    scalarSetting_eq_valid_iff.mpr (Or.inr ⟨_, rfl, ?_⟩),
    settingOr_eq_valid_iff.mpr (Or.inr ⟨_, rfl, ?_⟩),
    scalarSetting_eq_valid_iff.mpr (Or.inr ⟨_, rfl, ?_⟩),
    scalarSetting_eq_valid_iff.mpr (Or.inr ⟨_, rfl, ?_⟩)⟩
  · exact congrArg Except.ok h.cacheDir.ofText_text
  · rw [readSources, readSourceList_texts, Checked.map, Table.ofPairs_eq_self h.tags_nodup,
      Sources.lowerTags_eq h.tags_lower h.tags_nodup]
  · exact congrArg Except.ok (Sources.dropEndSlashes_eq h.base)
  · exact if_pos h.timeout

/-- Settings of trees are read back. -/
lemma readTree_toMapping (s : TreeSettings) : readTree s.toMapping = .valid s := by
  refine readTree_eq_valid_iff.mpr ⟨hasKnownNames_of_map_fst rfl,
    scalarSetting_eq_valid_iff.mpr (Or.inr ⟨_, rfl, rfl⟩),
    scalarSetting_eq_valid_iff.mpr (Or.inr ⟨_, rfl, ?_⟩),
    scalarSetting_eq_valid_iff.mpr (Or.inr ⟨_, rfl, rfl⟩)⟩
  cases s.maxDepth <;> rfl

/-- Settings of the log are read back if the log file is a proper path. -/
lemma readLog_toMapping {s : LogSettings} (h : ∀ p ∈ s.file, p.IsProper) :
    readLog s.toMapping = .valid s := by
  refine readLog_eq_valid_iff.mpr ⟨hasKnownNames_of_map_fst rfl,
    scalarSetting_eq_valid_iff.mpr (Or.inr ⟨_, rfl, ?_⟩),
    scalarSetting_eq_valid_iff.mpr (Or.inr ⟨_, rfl, ?_⟩),
    scalarSetting_eq_valid_iff.mpr (Or.inr ⟨_, rfl, rfl⟩)⟩
  · cases s.level <;> decide
  · cases hfile : s.file with
    | none => rfl
    | some p => exact congrArg (fun p => Except.ok (some p)) (h p hfile).ofText_text

/-- A normal configuration that was written out is valid as it is, wherever the host keeps temporary
files. -/
theorem validate_toMapping {s : Settings} (h : s.IsNormal) (directory : Path) :
    validate directory s.toMapping = .valid s :=
  validate_eq_valid_iff.mpr ⟨hasKnownNames_of_map_fst rfl, ⟨_, rfl, readDocs_toMapping h.docs⟩,
    ⟨_, rfl, readTree_toMapping s.tree⟩, _, rfl, readLog_toMapping h.file⟩

/-- The normal configurations are those that validation keeps. -/
theorem exists_validate_iff_isNormal (htemporary : temporary.IsProper) {s : Settings} :
    (∃ m, validate temporary m = .valid s) ↔ s.IsNormal :=
  ⟨fun ⟨_, h⟩ => isNormal_of_validate htemporary h, fun h => ⟨_, validate_toMapping h temporary⟩⟩

/-! ## Validation settles a configuration -/

/-- The settings are what the configuration comes to, and nothing is left to settle about them. -/
structure IsSettledAs (m : Mapping) (s : Settings) : Prop where
  /-- The configuration names nothing that is no setting. -/
  names : IsWellNamed m
  /-- The settings are normal. -/
  normal : s.IsNormal
  /-- There is no deepest level, or it is not negative. -/
  depth : setting? "tree" "max_depth" s.toMapping = some (.scalar .null) ∨
    ∃ n : Int, 0 ≤ n ∧ setting? "tree" "max_depth" s.toMapping = some (.scalar (.int n))
  /-- A depth that is given is null or read as an integer, which is kept. -/
  given_depth : ∀ d, setting? "tree" "max_depth" m = some d →
    (d = .scalar .null ∧ s.tree.maxDepth = none) ∨
      ∃ n : Nat, readInteger d = .ok n ∧ s.tree.maxDepth = some n
  /-- The level is one of four. -/
  level : ∃ name ∈ (["debug", "info", "warn", "error"] : List String),
    setting? "logging" "level" s.toMapping = some (.text name)
  /-- A level that is given is kept. -/
  given_level : ∀ d, setting? "logging" "level" m = some d → d = .text s.log.level.name
  /-- Validated once more, the settings stay as they are, with their tags in the same order. -/
  again : ∀ directory, validate directory s.toMapping = .valid s

/-- A configuration that validation accepts is settled as what validation makes of it: the tags are
in lower case and different, the base has no slash at its end, the depth is null or not negative and
the level one of the four, all names of the configuration are those of settings, and the settings
that are written out and validated once more are the same. -/
theorem isSettledAs_of_validate {host : Text} {s : Settings}
    (h : validate (Path.ofText host) m = .valid s) : IsSettledAs m s where
  names := isWellNamed_of_validate h
  normal := isNormal_of_validate (Path.isProper_ofText host) h
  depth := by
    have hshown : setting? "tree" "max_depth" s.toMapping =
        some (.scalar (s.tree.maxDepth.elim .null fun n => .int n)) := rfl
    rw [hshown]
    cases s.tree.maxDepth with
    | none => exact Or.inl rfl
    | some n => exact Or.inr ⟨n, Int.natCast_nonneg n, rfl⟩
  given_depth _ := maxDepth_of_validate h
  level := by
    obtain ⟨name, hname, hlevel⟩ := s.log.level.exists_name_eq
    exact ⟨name, hname, congrArg (fun t => some (Data.text t)) hlevel⟩
  given_level _ := level_of_validate h
  again := validate_toMapping (isNormal_of_validate (Path.isProper_ofText host) h)

/-- A configuration in which hardly anything is written as it is kept. -/
def sampleConfiguration : Mapping :=
  [("tree", .mapping [("max_depth", .text " +007.0"), ("strict", .text "Yes")]),
    ("docs", .mapping [
      ("documents_base_url", .text "https://documents.devdocs.io//"),
      ("cache_dir", .text "records//./py/"),
      ("sources", .mapping [
        ("PY", .text "https://documents.devdocs.io/python~2/index.json"),
        ("js", .text "https://documents.devdocs.io/javascript"),
        ("py", .text "https://documents.devdocs.io/python~3.12/index.json")]),
      ("timeout", .scalar (.bool true))]),
    ("logging", .mapping [("level", .text "warn"), ("file", .scalar .null)])]

/-- What is kept of it. -/
def settledSample : Settings where
  docs := ⟨Path.ofText "records/py",
    [("py", "https://documents.devdocs.io/python~3.12/index.json"),
      ("js", "https://documents.devdocs.io/javascript")],
    "https://documents.devdocs.io", Binary64.ofInt 1⟩
  tree := ⟨true, some 7, true⟩
  log := ⟨.warn, none, 0⟩

/-- Two spellings of a tag become one, the slashes behind the base go, and the settings that are kept
are kept once more. -/
theorem isSettledAs_of_validate_sample :
    validate (Path.ofText "/tmp") sampleConfiguration = .valid settledSample ∧
      IsSettledAs sampleConfiguration settledSample := by
  have hvalid : validate (Path.ofText "/tmp") sampleConfiguration = .valid settledSample :=
    Checked.value?_eq_some.mp (by decide +kernel)
  exact ⟨hvalid, isSettledAs_of_validate hvalid⟩

end

end Config

end EditorDocs
