import EditorDocs.Config.Schema
import EditorDocs.Proofs.Config.Checked
import EditorDocs.Proofs.Config.Merge
import Mathlib.Tactic.Lemma

/-!
# What validation says of sections

Validation is sound: a configuration without problems has settings (`isSound_validate`).  A section
is known by its names and by what its settings make of it (`problems_readSection`,
`value?_readSection`), and a value that is put under one of its own names adds no name that it would
complain about (`hasSurrogateName_put`, `strayNames_put`).  It is valid if its names are known and each
of its settings is valid, a setting by itself being valid if it is absent or can be read
(`readDocs_eq_valid_iff`, `readTree_eq_valid_iff`, `readLog_eq_valid_iff`).
-/

namespace EditorDocs.Config

open Mapping (get? put)

/-! ## Soundness of validation -/

/-- A setting whose check is sound is checked soundly. -/
lemma isSound_settingOr {α : Type} (m : Mapping) (name : String) (default : α)
    {check : Data → Checked α} (h : ∀ d, (check d).IsSound) :
    (settingOr m name default check).IsSound := by
  unfold settingOr
  split
  · exact Checked.isSound_pure default
  · exact (h _).within _

/-- A setting that is read by itself is checked soundly. -/
lemma isSound_scalarSetting {α : Type} (m : Mapping) (name : String) (default : α)
    (read : Data → Except Cause α) : (scalarSetting m name default read).IsSound :=
  isSound_settingOr m name default fun _ => Checked.isSound_ofExcept _

/-- A section whose settings are checked soundly is checked soundly. -/
lemma isSound_readSection {α : Type} (known : List String) {settings : Mapping → Checked α}
    {m : Mapping} (h : (settings m).IsSound) : (readSection known settings m).IsSound := by
  unfold readSection
  split
  · exact fun hc => by cases hc
  · exact h.also _

/-- Data that has to be a section is checked soundly. -/
lemma isSound_readSectionData {α : Type} (wanted : String) {read : Mapping → Checked α}
    (h : ∀ m, (read m).IsSound) (d : Data) : (readSectionData wanted read d).IsSound := by
  cases d with
  | mapping m => exact h m
  | _ => exact fun hc => by cases hc

/-- Tags with their URLs are checked soundly. -/
lemma isSound_readSourceList (entries : Mapping) : (readSourceList entries).IsSound := by
  induction entries with
  | nil => exact Checked.isSound_pure []
  | cons e rest ih =>
    refine Checked.IsSound.seq (Checked.IsSound.map (Checked.IsSound.within ?_ _) _) ih
    exact (((Checked.isSound_ofExcept _).within _).map _).seq (Checked.isSound_ofExcept _)

/-- Sources are checked soundly. -/
lemma isSound_readSources (d : Data) : (readSources d).IsSound := by
  cases d with
  | mapping entries => exact (isSound_readSourceList entries).map _
  | _ => exact fun hc => by cases hc

/-- The settings of the indices are checked soundly. -/
lemma isSound_readDocs (temporary : Path) (m : Mapping) : (readDocs temporary m).IsSound := by
  unfold readDocs
  apply isSound_readSection
  exact ((((isSound_scalarSetting m _ _ _).map _).seq
    (isSound_settingOr m _ _ isSound_readSources)).seq
    (isSound_scalarSetting m _ _ _)).seq (isSound_scalarSetting m _ _ _)

/-- The settings of trees are checked soundly. -/
lemma isSound_readTree (m : Mapping) : (readTree m).IsSound := by
  unfold readTree
  apply isSound_readSection
  exact (((isSound_scalarSetting m _ _ _).map _).seq (isSound_scalarSetting m _ _ _)).seq
    (isSound_scalarSetting m _ _ _)

/-- The settings of the log are checked soundly. -/
lemma isSound_readLog (m : Mapping) : (readLog m).IsSound := by
  unfold readLog
  apply isSound_readSection
  exact (((isSound_scalarSetting m _ _ _).map _).seq (isSound_scalarSetting m _ _ _)).seq
    (isSound_scalarSetting m _ _ _)

/-- A configuration that is found without problems has settings. -/
lemma isSound_validate (temporary : Path) (m : Mapping) : (validate temporary m).IsSound := by
  unfold validate
  apply isSound_readSection
  exact (((isSound_settingOr m _ _ (isSound_readSectionData _ (isSound_readDocs temporary))).map
    _).seq (isSound_settingOr m _ _ (isSound_readSectionData _ isSound_readTree))).seq
    (isSound_settingOr m _ _ (isSound_readSectionData _ isSound_readLog))

/-! ## Names -/

/-- A value under a name without surrogates leaves the names without surrogates, or with them. -/
lemma hasSurrogateName_put {t : Text} (ht : t.any CodePoint.isSurrogate = false) (value : Data)
    (m : Mapping) : hasSurrogateName (put (.text t) value m) = hasSurrogateName m := by
  have hcons : ∀ (e : Scalar × Data) (rest : Mapping), hasSurrogateName (e :: rest) =
      (hasSurrogateName [(e.1, value)] || hasSurrogateName rest) := by
    intro e rest
    simp [hasSurrogateName]
  induction m with
  | nil => simp [put, hasSurrogateName, ht]
  | cons e rest ih =>
    rw [put]
    split
    · rw [hcons, hcons e]
    · rw [hcons, hcons e, ih]

/-- A value under a known name makes no stray name. -/
lemma strayNames_put {known : List String} {name : String} (h : name ∈ known) (value : Data)
    (m : Mapping) : strayNames known (put (name : Scalar) value m) = strayNames known m := by
  have hnames : ∀ m : Mapping, strayNames known m = (m.map Prod.fst).filterMap (strayName? known) :=
    fun m => by
      rw [List.filterMap_map]
      rfl
  have hknown : strayName? known (name : Scalar) = none := by
    rw [strayName?, if_pos]
    exact List.any_eq_true.mpr ⟨name, h, decide_eq_true rfl⟩
  rw [hnames, hnames]
  rw [Mapping.map_fst_put, List.filterMap_append]
  split <;> simp [hknown]

/-- The names of the mapping are all known. -/
def HasKnownNames (known : List String) (m : Mapping) : Prop :=
  ∀ e ∈ m, ∃ name ∈ known, (name : Scalar) = e.1

/-- Names without problems are known. -/
lemma strayNames_eq_nil_iff {known : List String} {m : Mapping} :
    strayNames known m = [] ↔ HasKnownNames known m := by
  have hstray : ∀ key, strayName? known key = none ↔ ∃ name ∈ known, (name : Scalar) = key := by
    intro key
    cases key <;> simp [strayName?]
  rw [strayNames, List.filterMap_eq_nil_iff]
  exact forall₂_congr fun e _ => hstray e.1

/-- Known names that can be encoded leave no name that cannot. -/
lemma HasKnownNames.hasSurrogateName {known : List String} {m : Mapping} (h : HasKnownNames known m)
    (hknown : ∀ name ∈ known, (Text.ofString name).any CodePoint.isSurrogate = false) :
    hasSurrogateName m = false := by
  refine List.any_eq_false.mpr fun ⟨key, d⟩ he => ?_
  obtain ⟨name, hname, rfl⟩ := h _ he
  exact Bool.eq_false_iff.mp (hknown name hname)

/-! ## Sections -/

/-- The problems of a section: that its names cannot be encoded, or those of its settings and those
of its names. -/
lemma problems_readSection {α : Type} (known : List String) (settings : Mapping → Checked α)
    (m : Mapping) : (readSection known settings m).problems =
      if hasSurrogateName m then [⟨[], .notUnicode⟩]
      else (settings m).problems ++ strayNames known m := by
  unfold readSection
  split
  · rfl
  · exact Checked.problems_also _ _

/-- The value of a section whose names are all in order is that of its settings. -/
lemma value?_readSection {α : Type} (known : List String) (settings : Mapping → Checked α)
    (m : Mapping) : (readSection known settings m).value? =
      if hasSurrogateName m = false ∧ strayNames known m = [] then (settings m).value? else none := by
  unfold readSection
  cases hasSurrogateName m with
  | true => rfl
  | false => simp

/-- A section is valid if its names are known and its settings are valid. -/
lemma readSection_eq_valid_iff {α : Type} {known : List String}
    (hknown : ∀ name ∈ known, (Text.ofString name).any CodePoint.isSurrogate = false)
    {settings : Mapping → Checked α} {m : Mapping} {a : α} :
    readSection known settings m = .valid a ↔ HasKnownNames known m ∧ settings m = .valid a := by
  rw [← Checked.value?_eq_some, value?_readSection, ← strayNames_eq_nil_iff,
    ← Checked.value?_eq_some]
  constructor
  · intro h
    split at h
    · rename_i hnames
      exact ⟨hnames.2, h⟩
    · cases h
  · rintro ⟨hnames, ha⟩
    rw [if_pos ⟨(strayNames_eq_nil_iff.mp hnames).hasSurrogateName hknown, hnames⟩, ha]

/-- A setting is valid if it is absent and has its default, or if what is given is valid. -/
lemma settingOr_eq_valid_iff {α : Type} {m : Mapping} {name : String} {default : α}
    {check : Data → Checked α} {a : α} :
    settingOr m name default check = .valid a ↔
      (get? name m = none ∧ default = a) ∨ ∃ d, get? name m = some d ∧ check d = .valid a := by
  unfold settingOr
  cases get? (name : Scalar) m with
  | none => simp [pure]
  | some d => simp [Checked.within_eq_valid_iff]

/-- A setting that is read by itself is valid if it is absent or can be read. -/
lemma scalarSetting_eq_valid_iff {α : Type} {m : Mapping} {name : String} {default : α}
    {read : Data → Except Cause α} {a : α} :
    scalarSetting m name default read = .valid a ↔
      (get? name m = none ∧ default = a) ∨ ∃ d, get? name m = some d ∧ read d = .ok a := by
  simp only [scalarSetting, settingOr_eq_valid_iff, Checked.ofExcept_eq_valid_iff]

/-- The problems of a setting stand under its name. -/
lemma mem_problems_settingOr {α : Type} {m : Mapping} {name : String} {default : α}
    {check : Data → Checked α} {p : Problem} (h : p ∈ (settingOr m name default check).problems) :
    ∃ d q, get? name m = some d ∧ q ∈ (check d).problems ∧ p = q.within (.name name) := by
  unfold settingOr at h
  split at h
  · cases h
  · rename_i d hd
    rw [Checked.problems_within, List.mem_map] at h
    obtain ⟨q, hq, rfl⟩ := h
    exact ⟨d, q, hd, hq, rfl⟩

/-- The problem of a setting that is read by itself stands at its name. -/
lemma mem_problems_scalarSetting {α : Type} {m : Mapping} {name : String} {default : α}
    {read : Data → Except Cause α} {p : Problem}
    (h : p ∈ (scalarSetting m name default read).problems) :
    ∃ d cause, read d = .error cause ∧ p = ⟨[.name name], cause⟩ := by
  obtain ⟨d, q, -, hq, rfl⟩ := mem_problems_settingOr h
  cases hread : read d with
  | ok a =>
    rw [hread] at hq
    cases hq
  | error cause =>
    rw [hread] at hq
    cases List.mem_singleton.mp hq
    exact ⟨d, cause, hread, rfl⟩

/-- So it stands nowhere else. -/
lemma location_of_mem_scalarSetting {α : Type} {m : Mapping} {name : String} {default : α}
    {read : Data → Except Cause α} {p : Problem}
    (h : p ∈ (scalarSetting m name default read).problems) : p.location = [.name name] := by
  obtain ⟨d, cause, -, rfl⟩ := mem_problems_scalarSetting h
  rfl

/-- A stray name is a text that is no known name, or is no text. -/
lemma mem_strayNames {known : List String} {m : Mapping} {p : Problem}
    (h : p ∈ strayNames known m) :
    (∃ t, (∀ name ∈ known, Text.ofString name ≠ t) ∧ p = ⟨[.name t], .unknownSetting⟩) ∨
      ∃ step, p = ⟨[step], .nameNotText⟩ := by
  obtain ⟨⟨key, d⟩, -, hkey⟩ := List.mem_filterMap.mp h
  change strayName? known key = some p at hkey
  unfold strayName? at hkey
  split at hkey
  · rename_i t
    split at hkey
    · cases hkey
    · rename_i hknown
      refine Or.inl ⟨t, fun name hname ht => hknown ?_, (Option.some.inj hkey).symm⟩
      exact List.any_eq_true.mpr ⟨name, hname, decide_eq_true ht⟩
  · exact Or.inr ⟨_, (Option.some.inj hkey).symm⟩

/-- A setting is read from its own name only. -/
lemma settingOr_put_of_ne {α : Type} {key : Scalar} {name : String}
    (h : key.same name = false) (value : Data) (m : Mapping) (default : α)
    (check : Data → Checked α) :
    settingOr (put key value m) name default check = settingOr m name default check := by
  unfold settingOr
  rw [Mapping.get?_put, h]
  rfl

/-- A setting that was put is the one that is read. -/
lemma settingOr_put_self {α : Type} (name : String) (value : Data) (m : Mapping) (default : α)
    (check : Data → Checked α) :
    settingOr (put (name : Scalar) value m) name default check =
      (check value).within (.name name) := by
  unfold settingOr
  rw [Mapping.get?_put, Scalar.same_self]
  rfl

/-- A setting that is read by itself is read from its own name only. -/
lemma scalarSetting_put_of_ne {α : Type} {key : Scalar} {name : String}
    (h : key.same name = false) (value : Data) (m : Mapping) (default : α)
    (read : Data → Except Cause α) :
    scalarSetting (put key value m) name default read = scalarSetting m name default read :=
  settingOr_put_of_ne h value m default _

/-- A setting that was put with a value that can be read has that value. -/
lemma scalarSetting_put_self {α : Type} {name : String} {value : Data} {a : α}
    {read : Data → Except Cause α} (h : read value = .ok a) (m : Mapping) (default : α) :
    scalarSetting (put (name : Scalar) value m) name default read = .valid a := by
  rw [scalarSetting, settingOr_put_self, h]
  rfl

/-! ## Valid settings -/

section

variable {temporary : Path} {m : Mapping}

/-- The settings of the indices are valid if each of them is, under names that are known. -/
lemma readDocs_eq_valid_iff {s : DocsSettings} :
    readDocs temporary m = .valid s ↔
      HasKnownNames ["cache_dir", "sources", "documents_base_url", "timeout"] m ∧
        scalarSetting m "cache_dir" temporary readPath = .valid s.cacheDir ∧
        settingOr m "sources" Sources.defaultUrls readSources = .valid s.urls ∧
        scalarSetting m "documents_base_url" Sources.defaultBase
          (fun d => (readText d).map Sources.dropEndSlashes) = .valid s.base ∧
        scalarSetting m "timeout" (Binary64.ofInt 30) readPositive = .valid s.timeout := by
  rw [readDocs, readSection_eq_valid_iff (by decide)]
  simp only [Checked.seq_eq_valid_iff, Checked.map_eq_valid_iff, Settings.defaultDocs]
  refine and_congr_right fun _ => ⟨?_, ?_⟩
  · rintro ⟨_, t, ⟨_, b, ⟨_, u, ⟨c, hc, rfl⟩, hu, rfl⟩, hb, rfl⟩, ht, rfl⟩
    exact ⟨hc, hu, hb, ht⟩
  · rintro ⟨hc, hu, hb, ht⟩
    exact ⟨_, _, ⟨_, _, ⟨_, _, ⟨_, hc, rfl⟩, hu, rfl⟩, hb, rfl⟩, ht, rfl⟩

/-- The settings of trees are valid if each of them is, under names that are known. -/
lemma readTree_eq_valid_iff {s : TreeSettings} :
    readTree m = .valid s ↔
      HasKnownNames ["strict", "max_depth", "create_missing"] m ∧
        scalarSetting m "strict" false readBool = .valid s.strict ∧
        scalarSetting m "max_depth" (some Settings.defaultMaxDepth) readDepth = .valid s.maxDepth ∧
        scalarSetting m "create_missing" true readBool = .valid s.createMissing := by
  rw [readTree, readSection_eq_valid_iff (by decide)]
  simp only [Checked.seq_eq_valid_iff, Checked.map_eq_valid_iff, Settings.defaultTree]
  refine and_congr_right fun _ => ⟨?_, ?_⟩
  · rintro ⟨_, c, ⟨_, d, ⟨b, hb, rfl⟩, hd, rfl⟩, hc, rfl⟩
    exact ⟨hb, hd, hc⟩
  · rintro ⟨hb, hd, hc⟩
    exact ⟨_, _, ⟨_, _, ⟨_, hb, rfl⟩, hd, rfl⟩, hc, rfl⟩

/-- The settings of the log are valid if each of them is, under names that are known. -/
lemma readLog_eq_valid_iff {s : LogSettings} :
    readLog m = .valid s ↔
      HasKnownNames ["level", "file", "verbose"] m ∧
        scalarSetting m "level" .info readLevel = .valid s.level ∧
        scalarSetting m "file" (some (Path.ofText "doc_log.txt")) readFile = .valid s.file ∧
        scalarSetting m "verbose" 0 readInteger = .valid s.verbose := by
  rw [readLog, readSection_eq_valid_iff (by decide)]
  simp only [Checked.seq_eq_valid_iff, Checked.map_eq_valid_iff, Settings.defaultLog]
  refine and_congr_right fun _ => ⟨?_, ?_⟩
  · rintro ⟨_, v, ⟨_, f, ⟨l, hl, rfl⟩, hf, rfl⟩, hv, rfl⟩
    exact ⟨hl, hf, hv⟩
  · rintro ⟨hl, hf, hv⟩
    exact ⟨_, _, ⟨_, _, ⟨_, hl, rfl⟩, hf, rfl⟩, hv, rfl⟩

end

end EditorDocs.Config
