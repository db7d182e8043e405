import EditorDocs.Config.Load
import EditorDocs.Proofs.Config.Validation
import EditorDocs.Proofs.World.Action
import Mathlib.Tactic.Lemma

/-!
# A configuration under a verbosity of zero

The commands that work with a log take the number of times that the console was asked to show more as
an option, and so lay a verbosity of zero over the configuration when nothing was said about it
(`combine_of_isUnset`).  What that does to a configuration is `Quieted`: the settings stay as they
are but for the verbosity, and of the problems those go that the verbosity would have had, among them
that the section in which it stands is no mapping at all (`Problem.aboutVerbosity`).  So such a command
can accept what is not valid (`Quieted.accepted_iff`), and sees the configuration as it is only if
the verbosity is zero or the configuration fails for other reasons (`Quieted.eq_iff`).
-/

namespace EditorDocs.Config

open Mapping (get? put)

/-! ## The verbosity -/

/-- A verbosity of zero, as a layer. -/
def zeroVerbosity : Mapping := [("logging", .mapping [("verbose", .scalar (.int 0))])]

/-- The problem lies in the verbosity, or in that the section in which it stands is no mapping. -/
def Problem.aboutVerbosity (p : Problem) : Bool :=
  decide (p = ⟨[.name "logging"], .notSection "LoggingConfig"⟩) ||
    decide (p.location = [.name "logging", .name "verbose"] ∧ p.cause ≠ .nameNotText)

/-- The settings with a verbosity of zero. -/
def quiet (s : Settings) : Settings := { s with log := { s.log with verbose := 0 } }

/-- Digits are not refused because a name is no text. -/
lemma plainInteger_ne (t : Text) : plainInteger t ≠ .error .nameNotText := by
  unfold plainInteger
  split
  · exact fun h => by cases h
  · split
    · exact fun h => by cases h
    · split <;> exact fun h => by cases h

/-- A function of a number is refused for no other cause than the number. -/
lemma map_ne {α β : Type} {cause : Cause} {x : Except Cause α} (h : x ≠ .error cause) (f : α → β) :
    x.map f ≠ .error cause := by
  cases x with
  | ok a => exact fun hx => by cases hx
  | error e => exact fun hx => h (by cases hx; rfl)

/-- A text is not refused as an integer because a name is no text. -/
lemma integerOfText_ne (t : Text) : integerOfText t ≠ .error .nameNotText := by
  have hcast : ∀ u : Text, (do let n ← plainInteger u; pure (n : Int)) ≠
      Except.error Cause.nameNotText := fun u => map_ne (plainInteger_ne u) Int.ofNat
  unfold integerOfText
  split
  split
  · exact fun h => by cases h
  · split
    · exact map_ne (hcast _) _
    · split
      · exact map_ne (hcast _) _
      · exact map_ne (plainInteger_ne _) _
    · exact fun h => by cases h

/-- An integer is not refused because a name is no text. -/
lemma readInteger_ne (d : Data) : readInteger d ≠ .error .nameNotText := by
  unfold readInteger
  split
  · exact fun h => by cases h
  · exact fun h => by cases h
  · unfold integerOfNumber
    split
    · split
      · split <;> exact fun h => by cases h
      · exact fun h => by cases h
    · exact fun h => by cases h
  · split
    · exact integerOfText_ne _
    · unfold encodingCause
      split <;> exact fun h => by cases h
    · exact fun h => by cases h
  · exact fun h => by cases h

/-! ## The log -/

/-- Seen from outside, a problem of the log section is about the verbosity if it stands at its
name. -/
lemma aboutVerbosity_within (p : Problem) :
    (p.within (.name "logging")).aboutVerbosity = true ↔
      p = ⟨[], .notSection "LoggingConfig"⟩ ∨
        p.location = [.name "verbose"] ∧ p.cause ≠ .nameNotText := by
  obtain ⟨location, cause⟩ := p
  simp [Problem.aboutVerbosity, Problem.within]

/-- Problems of which none is about the verbosity all stay. -/
lemma filter_eq_self_of_location {ps : List Problem} {name : Text} (hname : name ≠ "verbose")
    (h : ∀ p ∈ ps, p.location = [.name name]) :
    (ps.filter fun p => !(p.within (.name "logging")).aboutVerbosity) = ps := by
  refine List.filter_eq_self.mpr fun p hp => ?_
  rw [Bool.not_eq_true', Bool.eq_false_iff, Ne, aboutVerbosity_within]
  rintro (rfl | ⟨hlocation, -⟩)
  · cases h _ hp
  · rw [h p hp] at hlocation
    cases hlocation
    exact hname rfl

/-- The verbosity is not the level. -/
lemma verbose_level : (Scalar.text "verbose").same "level" = false := by decide

/-- The verbosity is not the file. -/
lemma verbose_file : (Scalar.text "verbose").same "file" = false := by decide

/-- Zero is read as zero. -/
lemma zero_read : readInteger (.scalar (.int 0)) = .ok 0 := rfl

/-- Whatever is wrong with the verbosity is about it. -/
lemma filter_verbose (m : Mapping) :
    ((scalarSetting m "verbose" Settings.defaultLog.verbose readInteger).problems.filter
      fun p => !(p.within (.name "logging")).aboutVerbosity) = [] := by
  refine List.filter_eq_nil_iff.mpr fun p hp => ?_
  obtain ⟨d, cause, hread, rfl⟩ := mem_problems_scalarSetting hp
  have hcause : cause ≠ .nameNotText := by
    rintro rfl
    exact readInteger_ne d hread
  rw [Bool.not_eq_true', Bool.not_eq_false, aboutVerbosity_within]
  exact Or.inr ⟨rfl, hcause⟩

/-- Stray names in the log section are not about the verbosity. -/
lemma filter_strayNames_log (m : Mapping) :
    ((strayNames ["level", "file", "verbose"] m).filter
      fun p => !(p.within (.name "logging")).aboutVerbosity) =
        strayNames ["level", "file", "verbose"] m := by
  refine List.filter_eq_self.mpr fun p hp => ?_
  rw [Bool.not_eq_true', Bool.eq_false_iff, Ne, aboutVerbosity_within]
  rcases mem_strayNames hp with ⟨t, ht, rfl⟩ | ⟨step, rfl⟩
  · rintro (h | ⟨hlocation, -⟩)
    · cases h
    · cases hlocation
      exact ht "verbose" (by decide) rfl
  · -- a name that is no text may be shown as the verbosity's, but is wrong for another cause
    rintro (h | ⟨-, hcause⟩)
    · cases h
    · exact hcause rfl

/-- With a verbosity of zero, a log section has all its problems but those with the verbosity. -/
lemma problems_readLog_put (m : Mapping) :
    (readLog (put (.text "verbose") (.scalar (.int 0)) m)).problems =
      (readLog m).problems.filter fun p => !(p.within (.name "logging")).aboutVerbosity := by
  unfold readLog
  rw [problems_readSection, problems_readSection, hasSurrogateName_put (by decide),
    strayNames_put (by decide)]
  cases hasSurrogateName m with
  | true => rfl
  | false =>
    have hlevel : ∀ p ∈ (scalarSetting m "level" Settings.defaultLog.level readLevel).problems,
        p.location = [.name "level"] := fun p hp => location_of_mem_scalarSetting hp
    have hfile : ∀ p ∈ (scalarSetting m "file" Settings.defaultLog.file readFile).problems,
        p.location = [.name "file"] := fun p hp => location_of_mem_scalarSetting hp
    rw [if_neg Bool.false_ne_true, if_neg Bool.false_ne_true, List.filter_append,
      filter_strayNames_log]
    simp only [Checked.problems_seq, Checked.problems_map, List.filter_append, filter_verbose,
      filter_eq_self_of_location (by decide) hlevel, filter_eq_self_of_location (by decide) hfile,
      scalarSetting_put_of_ne verbose_level, scalarSetting_put_of_ne verbose_file,
      scalarSetting_put_self zero_read, Checked.problems_valid]

/-- With a verbosity of zero, a valid log section has the other settings that it had. -/
lemma value?_readLog_put {m : Mapping} {l : LogSettings} (h : (readLog m).value? = some l) :
    (readLog (put (.text "verbose") (.scalar (.int 0)) m)).value? = some { l with verbose := 0 } := by
  unfold readLog at h ⊢
  rw [value?_readSection] at h ⊢
  rw [hasSurrogateName_put (by decide), strayNames_put (by decide)]
  split at h
  · rename_i hnames
    rw [if_pos hnames]
    simp only [Checked.value?_seq, Checked.value?_map, scalarSetting_put_of_ne verbose_level,
      scalarSetting_put_of_ne verbose_file, scalarSetting_put_self zero_read] at h ⊢
    obtain ⟨g, hg, h⟩ := Option.bind_eq_some_iff.mp h
    obtain ⟨n, -, rfl⟩ := Option.map_eq_some_iff.mp h
    obtain ⟨g', hlevel, hfile⟩ := Option.bind_eq_some_iff.mp hg
    obtain ⟨level, -, rfl⟩ := Option.map_eq_some_iff.mp hlevel
    obtain ⟨file, -, rfl⟩ := Option.map_eq_some_iff.mp hfile
    rw [hg]
    rfl
  · cases h

/-! ## Configurations -/

/-- The log section under a verbosity of zero. -/
lemma problems_log_zeroVerbosity (m : Mapping) :
    (settingOr (merge m zeroVerbosity) "logging" Settings.defaultLog
        (readSectionData "LoggingConfig" readLog)).problems =
      (settingOr m "logging" Settings.defaultLog
        (readSectionData "LoggingConfig" readLog)).problems.filter fun p => !p.aboutVerbosity := by
  rw [zeroVerbosity, merge, merge, settingOr_put_self]
  unfold settingOr
  cases hlog : get? ("logging" : String) m with
  | none => rfl
  | some d =>
    rw [Checked.problems_within, Checked.problems_within, List.filter_map]
    cases d with
    | mapping l =>
      rw [overlay, merge, merge]
      exact congrArg (List.map _) (problems_readLog_put l)
    | _ => rfl

/-- Under a verbosity of zero a valid log section has the other settings that it had. -/
lemma value?_log_zeroVerbosity {m : Mapping} {l : LogSettings}
    (h : (settingOr m "logging" Settings.defaultLog
      (readSectionData "LoggingConfig" readLog)).value? = some l) :
    (settingOr (merge m zeroVerbosity) "logging" Settings.defaultLog
      (readSectionData "LoggingConfig" readLog)).value? = some { l with verbose := 0 } := by
  rw [zeroVerbosity, merge, merge, settingOr_put_self, Checked.value?_within]
  unfold settingOr at h
  cases hlog : get? ("logging" : String) m with
  | none =>
    rw [hlog] at h
    cases h
    exact value?_readLog_put (m := []) rfl
  | some d =>
    rw [hlog] at h
    cases d with
    | mapping entries =>
      rw [overlay, merge, merge]
      exact value?_readLog_put (by rwa [Checked.value?_within] at h)
    | _ => cases h

/-- The problems of another section are not about the verbosity. -/
lemma filter_settingOr {α : Type} (m : Mapping) {name : String} (hname : (name : Text) ≠ "logging")
    (default : α) (check : Data → Checked α) :
    ((settingOr m name default check).problems.filter fun p => !p.aboutVerbosity) =
      (settingOr m name default check).problems := by
  refine List.filter_eq_self.mpr fun p hp => ?_
  obtain ⟨d, q, -, -, rfl⟩ := mem_problems_settingOr hp
  have hstep : Step.name name ≠ .name "logging" := fun h => hname (Step.name.inj h)
  simp [Problem.aboutVerbosity, Problem.within, hstep]

/-- Names that are no sections are not about the verbosity. -/
lemma filter_strayNames (known : List String) (m : Mapping) :
    ((strayNames known m).filter fun p => !p.aboutVerbosity) = strayNames known m := by
  refine List.filter_eq_self.mpr fun p hp => ?_
  rcases mem_strayNames hp with ⟨t, -, rfl⟩ | ⟨step, rfl⟩ <;> simp [Problem.aboutVerbosity]

/-- Another section is as it was. -/
lemma settingOr_zeroVerbosity {α : Type} (m : Mapping) {name : String}
    (hname : (Scalar.text "logging").same name = false) (default : α) (check : Data → Checked α) :
    settingOr (merge m zeroVerbosity) name default check = settingOr m name default check :=
  settingOr_put_of_ne hname _ m default check

/-- The names of the sections hold surrogates if they did. -/
lemma hasSurrogateName_zeroVerbosity (m : Mapping) :
    hasSurrogateName (merge m zeroVerbosity) = hasSurrogateName m :=
  hasSurrogateName_put (by decide) _ m

/-- The names that are no sections are those that there were. -/
lemma strayNames_zeroVerbosity (m : Mapping) :
    strayNames ["docs", "tree", "logging"] (merge m zeroVerbosity) =
      strayNames ["docs", "tree", "logging"] m :=
  strayNames_put (by decide) _ m

/-- The log is not the indices. -/
lemma logging_docs : (Scalar.text "logging").same "docs" = false := by decide

/-- The log is not the trees. -/
lemma logging_tree : (Scalar.text "logging").same "tree" = false := by decide

/-- The section of the indices is not that of the log. -/
lemma docs_ne : (("docs" : String) : Text) ≠ "logging" := by decide

/-- The section of the trees is not that of the log. -/
lemma tree_ne : (("tree" : String) : Text) ≠ "logging" := by decide

/-- Under a verbosity of zero a configuration has all its problems but those that are about the
verbosity. -/
lemma problems_validate_zeroVerbosity (temporary : Path) (m : Mapping) :
    (validate temporary (merge m zeroVerbosity)).problems =
      (validate temporary m).problems.filter fun p => !p.aboutVerbosity := by
  unfold validate
  rw [problems_readSection, problems_readSection]
  rw [hasSurrogateName_zeroVerbosity, strayNames_zeroVerbosity]
  cases hasSurrogateName m with
  | true => rfl
  | false =>
    rw [if_neg Bool.false_ne_true, if_neg Bool.false_ne_true, List.filter_append,
      filter_strayNames]
    simp only [Checked.problems_seq, Checked.problems_map, List.filter_append,
      settingOr_zeroVerbosity m logging_docs, settingOr_zeroVerbosity m logging_tree,
      filter_settingOr m docs_ne, filter_settingOr m tree_ne, problems_log_zeroVerbosity]

/-- Under a verbosity of zero a valid configuration has the settings that it had, but for the
verbosity. -/
lemma validate_zeroVerbosity {temporary : Path} {m : Mapping} {s : Settings}
    (h : validate temporary m = .valid s) :
    validate temporary (merge m zeroVerbosity) = .valid (quiet s) := by
  rw [← Checked.value?_eq_some] at h ⊢
  unfold validate at h ⊢
  rw [value?_readSection] at h ⊢
  rw [hasSurrogateName_zeroVerbosity, strayNames_zeroVerbosity]
  split at h
  · rename_i hnames
    rw [if_pos hnames]
    simp only [Checked.value?_seq, Checked.value?_map, settingOr_zeroVerbosity m logging_docs,
      settingOr_zeroVerbosity m logging_tree] at h ⊢
    obtain ⟨g, hg, h⟩ := Option.bind_eq_some_iff.mp h
    obtain ⟨log, hlog, rfl⟩ := Option.map_eq_some_iff.mp h
    obtain ⟨g', hdocs, htree⟩ := Option.bind_eq_some_iff.mp hg
    obtain ⟨docs, -, rfl⟩ := Option.map_eq_some_iff.mp hdocs
    obtain ⟨tree, -, rfl⟩ := Option.map_eq_some_iff.mp htree
    rw [hg, value?_log_zeroVerbosity hlog]
    rfl
  · cases h

/-- A verbosity of zero is not changed by another one. -/
lemma merge_merge_zeroVerbosity (m : Mapping) :
    merge (merge m zeroVerbosity) zeroVerbosity = merge m zeroVerbosity := by
  have hmerge : ∀ m : Mapping, merge m zeroVerbosity =
      put (.text "logging")
        (overlay (get? (.text "logging") m) (.mapping [(.text "verbose", .scalar (.int 0))])) m :=
    fun m => rfl
  rw [hmerge (merge m zeroVerbosity), hmerge m, Mapping.put_put, Mapping.get?_put,
    if_pos (Scalar.same_self _)]
  congr 1
  cases get? (.text "logging") m with
  | none => rfl
  | some d =>
    cases d with
    | mapping entries =>
      simp only [overlay, merge]
      rw [Mapping.put_put]
    | _ => rfl

/-- The settings of a valid configuration under a verbosity of zero have that verbosity. -/
lemma verbose_of_validate_zeroVerbosity {temporary : Path} {m : Mapping} {s : Settings}
    (h : validate temporary (merge m zeroVerbosity) = .valid s) : s.log.verbose = 0 := by
  -- to quiet such a configuration once more does not change it, so it was quiet
  have hquiet := validate_zeroVerbosity h
  rw [merge_merge_zeroVerbosity, h] at hquiet
  injection hquiet with hquiet
  rw [hquiet]
  rfl

/-- What becomes of checked settings when the verbosity is zero instead of what it was. -/
structure Quieted (c c' : Checked Settings) : Prop where
  /-- Of the problems, those with the verbosity have gone. -/
  problems : c'.problems = c.problems.filter fun p => !p.aboutVerbosity
  /-- Settings stay as they are, but for the verbosity. -/
  valid : ∀ s, c = .valid s → c' = .valid (quiet s)
  /-- Where no problems are left, there are settings, with a verbosity of zero. -/
  accepted : c'.problems = [] → ∃ s, c' = .valid s ∧ s.log.verbose = 0
  /-- Where there are no settings there is a problem. -/
  sound : c.IsSound

/-- A configuration is quieted by a verbosity of zero. -/
lemma quieted_validate (temporary : Path) (m : Mapping) :
    Quieted (validate temporary m) (validate temporary (merge m zeroVerbosity)) where
  problems := problems_validate_zeroVerbosity temporary m
  valid _ h := validate_zeroVerbosity h
  accepted h := by
    obtain ⟨s, hs⟩ := (isSound_validate temporary _).exists_value h
    exact ⟨s, hs, verbose_of_validate_zeroVerbosity hs⟩
  sound := isSound_validate temporary m

namespace Quieted

variable {c c' : Checked Settings} (h : Quieted c c')
include h

/-- Settings are accepted if nothing but the verbosity is wrong with them. -/
lemma accepted_iff : (∃ s, c' = .valid s) ↔ ∀ p ∈ c.problems, p.aboutVerbosity = true := by
  have hproblems : c'.problems = [] ↔ ∀ p ∈ c.problems, p.aboutVerbosity = true := by
    rw [h.problems, List.filter_eq_nil_iff]
    simp
  rw [← hproblems]
  constructor
  · rintro ⟨s, rfl⟩
    rfl
  · intro hnil
    obtain ⟨s, hs, -⟩ := h.accepted hnil
    exact ⟨s, hs⟩

/-- Nothing has changed if the verbosity was zero, or if something is wrong and none of it is the
verbosity. -/
lemma eq_iff : c' = c ↔ (∀ p ∈ c.problems, p.aboutVerbosity = false) ∧
    ∀ s, c = .valid s → s.log.verbose = 0 := by
  constructor
  · rintro rfl
    refine ⟨fun p hp => ?_, fun s hs => ?_⟩
    · rw [h.problems] at hp
      simpa using (List.mem_filter.mp hp).2
    · obtain ⟨s', hs', hverbose⟩ := h.accepted (by rw [hs]; rfl)
      rw [hs] at hs'
      injection hs' with hs'
      rw [hs']
      exact hverbose
  · rintro ⟨hnone, hzero⟩
    have hsame : c'.problems = c.problems := by
      rw [h.problems, List.filter_eq_self]
      exact fun p hp => by rw [hnone p hp]; rfl
    -- the same problems are the same verdict, unless settings have changed without any
    cases c with
    | valid s =>
      have hs : quiet s = s := by
        rw [quiet, ← hzero s rfl]
      rw [h.valid s rfl, hs]
    | invalid ps =>
      have hne : ps ≠ [] := fun hps => by cases h.sound hps
      cases c' with
      | valid s => exact absurd hsame.symm hne
      | invalid ps' => exact congrArg Checked.invalid hsame

end Quieted

/-! ## Options that say nothing -/

/-- What the options of a command with a log are where only the configuration file is given. -/
def unset : Mapping := [("verbose", .scalar (.int 0)), ("log_file", .scalar .null)]

/-- What the further options of a tree are where they are not given. -/
def unsetTree : Mapping := [("strict", .scalar (.bool false)), ("max_depth", .scalar .null)]

/-- The options are all there are and none of them is given. -/
def IsUnset (options : Mapping) : Prop := options = unset ∨ options = unset ++ unsetTree

/-- Options that are not given lay a verbosity of zero over the file and the environment. -/
lemma combine_of_isUnset {options : Mapping} (h : IsUnset options) (file : Mapping)
    (e : Environment) : combine file e options = merge (combine file e []) zeroVerbosity := by
  rcases h with rfl | rfl <;> rfl

/-- A mapping can be validated as it is, or is refused for a name that is no text. -/
lemma sections_mapping (m : Mapping) : sections (.mapping m) =
    if (sections (.mapping m)).isOk then .ok m else .error .configurationList := by
  rw [sections]
  split <;> rfl

/-- A value under a text leaves a mapping such that it can be validated, or cannot. -/
lemma isOk_sections_put (t : Text) (value : Data) (m : Mapping) :
    (sections (.mapping (put (.text t) value m))).isOk = (sections (.mapping m)).isOk := by
  have hok : ∀ (b : Bool) (m : Mapping),
      (if b then (.ok m : Except Failure Mapping) else .error .configurationList).isOk = b := by
    intro b m
    cases b <;> rfl
  have hcons : ∀ (e : Scalar × Data) (rest : Mapping), (sections (.mapping (e :: rest))).isOk =
      ((sections (.mapping [(e.1, value)])).isOk && (sections (.mapping rest)).isOk) := by
    intro e rest
    simp only [sections, List.all_cons, List.all_nil, Bool.and_true, hok]
    exact hok _ (e :: rest)
  induction m with
  | nil => rfl
  | cons e rest ih =>
    rw [put]
    split
    · rw [hcons, hcons e]
    · rw [hcons, hcons e, ih]

/-- A mapping under a verbosity of zero can be validated if it could, and is refused as it was. -/
lemma sections_zeroVerbosity (m : Mapping) :
    sections (.mapping (merge m zeroVerbosity)) =
      (sections (.mapping m)).map fun m => merge m zeroVerbosity := by
  have hsame : (sections (.mapping (merge m zeroVerbosity))).isOk = (sections (.mapping m)).isOk :=
    isOk_sections_put "logging" _ m
  rw [sections_mapping (merge m zeroVerbosity), sections_mapping m, hsame]
  split <;> rfl

/-- Options that are not given lead to the same failure as none at all, or quiet the configuration. -/
lemma settings_of_isUnset {options : Mapping} (h : IsUnset options) (temporary : Path) (d : Data)
    (e : Environment) :
    (∃ f, settings temporary d e [] = .error f ∧ settings temporary d e options = .error f) ∨
      ∃ c c', settings temporary d e [] = .ok c ∧ settings temporary d e options = .ok c' ∧
        Quieted c c' := by
  cases d with
  | mapping m =>
    simp only [settings, combine_of_isUnset h, sections_zeroVerbosity]
    cases hsections : sections (.mapping (combine m e [])) with
    | error f => exact Or.inl ⟨f, rfl, rfl⟩
    | ok combined => exact Or.inr ⟨_, _, rfl, rfl, quieted_validate temporary combined⟩
  | scalar s => exact Or.inl ⟨_, rfl, rfl⟩
  | list items => exact Or.inl ⟨_, rfl, rfl⟩
  | set keys => exact Or.inl ⟨_, rfl, rfl⟩

/-- A configuration that is loaded with options that are not given fails as it does without options,
or is quieted; in the world the same happens. -/
lemma load_of_isUnset {options : Mapping} (h : IsUnset options) (temporary : Path)
    (e : Environment) (file : Option Path) (w : World) :
    (∃ f w', (load temporary e file []).exec w = (.error f, w') ∧
      (load temporary e file options).exec w = (.error f, w')) ∨
    ∃ c c' w', (load temporary e file []).exec w = (.ok c, w') ∧
      (load temporary e file options).exec w = (.ok c', w') ∧ Quieted c c' := by
  unfold load
  rw [Action.exec_bind, Action.exec_bind]
  rcases hfile : (loadFile file).exec w with ⟨f | d, w'⟩
  · exact Or.inl ⟨f, w', rfl, rfl⟩
  · simp only [Action.exec_ofExcept]
    rcases settings_of_isUnset h temporary d e with ⟨f, hf, hf'⟩ | ⟨c, c', hc, hc', hquieted⟩
    · exact Or.inl ⟨f, w', by rw [hf], by rw [hf']⟩
    · exact Or.inr ⟨c, c', w', by rw [hc], by rw [hc'], hquieted⟩

end EditorDocs.Config
