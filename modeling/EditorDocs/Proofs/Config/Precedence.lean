import EditorDocs.Config.Load
import EditorDocs.Proofs.Config.Merge
import EditorDocs.Proofs.Text.Lowercase
import Mathlib.Tactic.Lemma

/-!
# Which layer a setting comes from

Seven settings can be made by options or by the environment (`Override`).  In the configuration that
is validated each of them has the value of its option if that counts, or else that of its variable if
that is not empty, or else that of the file; all other settings and all other keys are those of the
file, and a section is there only if a layer has something for it (`combine_precedence`).

Both layers are settings that are gathered (`optionOverrides_eq`, `overrides_eq`), so this is what
`Proofs.Config.Merge` says of merged layers, with the option first and the variable second.
-/

namespace EditorDocs

namespace Config

open Mapping (get? setting? IsSectioned)

/-! ## The settings that can be overridden -/

/-- A setting that an option or a variable can make. -/
inductive Override where
  /-- The directory of the records. -/
  | cacheDir
  /-- How long a request may take. -/
  | timeout
  /-- Whether a tree is strict. -/
  | strict
  /-- How deep a tree is. -/
  | maxDepth
  /-- The level of the log file. -/
  | level
  /-- The log file. -/
  | file
  /-- How much is logged to the console. -/
  | verbose
  deriving DecidableEq

namespace Override

/-- All of them, in the order in which the options make them. -/
def all : List Override := [cacheDir, timeout, strict, maxDepth, level, file, verbose]

/-- The section in which the setting stands. -/
def section_ : Override → String
  | cacheDir | timeout => "docs"
  | strict | maxDepth => "tree"
  | level | file | verbose => "logging"

/-- The name of the setting. -/
def name : Override → String
  | cacheDir => "cache_dir"
  | timeout => "timeout"
  | strict => "strict"
  | maxDepth => "max_depth"
  | level => "level"
  | file => "file"
  | verbose => "verbose"

/-- The name of the option. -/
def optionName : Override → String
  | level => "log_level"
  | file => "log_file"
  | o => o.name

/-- The data is not null. -/
def isPresent : Data → Bool
  | .scalar .null => false
  | _ => true

/-- Whether a value of the option counts: numbers if they are given at all, everything else if it is
true. -/
def counts : Override → Data → Bool
  | timeout | maxDepth | verbose => isPresent
  | cacheDir | strict | level | file => Data.isTruthy

/-- The value that an option makes if it counts. -/
def made : Override → Data → Data
  | strict, _ => .scalar (.bool true)
  | _, d => d

/-- The value of the option, if it counts. -/
def fromOption (options : Mapping) (o : Override) : Option Data :=
  ((get? (o.optionName : Scalar) options).filter o.counts).map o.made

/-- The variable of the setting, if it has one and that is set. -/
def environmentText (e : Environment) : Override → Option Text
  | cacheDir => e.cacheDir
  | timeout => e.timeout
  | level => e.logLevel
  | file => e.logFile
  | strict | maxDepth | verbose => none

/-- How a variable is taken. -/
def taken : Override → Text → Text
  | level, t => t.lower
  | _, t => t

/-- The value of the variable, if it is not empty. -/
def fromEnvironment (e : Environment) (o : Override) : Option Data :=
  ((o.environmentText e).filter fun t => !t.isEmpty).map fun t => .text (o.taken t)

/-- No two of the settings stand in the same place. -/
lemma eq_of_place : ∀ {o o' : Override}, (o.section_ : Scalar) = o'.section_ →
    (o.name : Scalar) = o'.name → o = o' := by
  intro o o'
  cases o <;> cases o' <;> decide

/-- An option that does not hold a mapping makes no mapping. -/
lemma not_isMapping_of_fromOption {options : Mapping}
    (h : ∀ k d, get? k options = some d → ¬ d.IsMapping) {o : Override} {d : Data}
    (hd : o.fromOption options = some d) : ¬ d.IsMapping := by
  obtain ⟨value, hvalue, hmade⟩ := Option.map_eq_some_iff.mp hd
  have hleaf : ¬ value.IsMapping := h _ value (Option.filter_eq_some_iff.mp hvalue).1
  cases o <;> first | exact hmade ▸ hleaf | (subst hmade; rintro ⟨_, hm⟩; cases hm)

/-- A variable makes no mapping. -/
lemma not_isMapping_of_fromEnvironment {e : Environment} {o : Override} {d : Data}
    (hd : o.fromEnvironment e = some d) : ¬ d.IsMapping := by
  obtain ⟨t, -, rfl⟩ := Option.map_eq_some_iff.mp hd
  rintro ⟨_, hm⟩
  cases hm

end Override

/-! ## Layers of these settings -/

namespace Override

/-- Settings of the list, where they have a value. -/
def layer (l : List Override) (value : Override → Option Data) : Mapping :=
  gather (l.map fun o => setting o.section_ o.name (value o))

section

variable {value : Override → Option Data} (h : ∀ o d, value o = some d → ¬ d.IsMapping)
include h

/-- Values that are no mappings make a layer. -/
lemma isOverride_layer (l : List Override) : IsOverride (layer l value) := by
  refine isOverride_gather fun m hm => ?_
  obtain ⟨o, -, rfl⟩ := List.mem_map.mp hm
  exact isOverride_setting _ _ (h o)

/-- A setting of the list is found in its own place. -/
lemma setting?_layer (l : List Override) (o : Override) :
    setting? o.section_ o.name (layer l value) = if o ∈ l then value o else none := by
  refine setting?_gather (fun o' => isOverride_setting _ _ (h o')) (fun o' => ?_) l
  rw [Mapping.setting?_setting]
  by_cases ho : o' = o
  · subst ho
    rw [if_pos ⟨rfl, rfl⟩, if_pos rfl]
  · rw [if_neg fun hplace => ho (eq_of_place hplace.1 hplace.2).symm, if_neg ho]

/-- In any other place nothing is found. -/
lemma setting?_layer_of_ne (l : List Override) {k n : Scalar}
    (hne : ∀ o : Override, ¬ (k = o.section_ ∧ n = o.name)) :
    setting? k n (layer l value) = none := by
  have hnone : ∀ o : Override, setting? k n (setting o.section_ o.name (value o)) =
      if o = .cacheDir then none else none := fun o => by
    rw [Mapping.setting?_setting, if_neg (hne o), ite_self]
  rw [layer, setting?_gather (fun o => isOverride_setting _ _ (h o)) hnone l, ite_self]

/-- A section is there if a setting of it has a value. -/
lemma isSome_get?_layer (l : List Override) (k : Scalar) :
    (get? k (layer l value)).isSome ↔ ∃ o ∈ l, k = o.section_ ∧ (value o).isSome := by
  rw [layer, isSome_get?_gather fun m hm => by
    obtain ⟨o, -, rfl⟩ := List.mem_map.mp hm
    exact isOverride_setting _ _ (h o)]
  simp only [List.mem_map, exists_exists_and_eq_and, Mapping.get?_setting]
  refine exists_congr fun o => and_congr_right fun _ => ?_
  by_cases hk : k = o.section_ <;> simp [hk]

end

end Override

/-! ## Options and environment -/

/-- An option that counts if it is given is one that is not null. -/
lemma presentOption_eq (options : Mapping) (name : String) :
    presentOption options name = (get? (name : Scalar) options).filter Override.isPresent := by
  unfold presentOption
  cases hd : get? (name : Scalar) options with
  | none => rfl
  | some d =>
    cases d with
    | scalar s => cases s <;> rfl
    | _ => rfl

/-- The options make those of the settings whose options count. -/
lemma optionOverrides_eq (options : Mapping) :
    optionOverrides options = Override.layer Override.all (Override.fromOption options) := by
  have hid : ∀ o : Override, o ≠ .strict → o.fromOption options =
      (get? (o.optionName : Scalar) options).filter o.counts := by
    intro o ho
    cases o <;> first | exact Option.map_id' | exact absurd rfl ho
  simp only [optionOverrides, presentOption_eq, truthyOption, Override.layer, Override.all,
    List.map_cons, List.map_nil, ne_eq, reduceCtorEq, not_false_eq_true, hid]
  rfl

/-- The settings that a variable can make. -/
def Override.environmental : List Override := [cacheDir, timeout, level, file]

/-- The environment makes those of the settings whose variables are not empty. -/
lemma overrides_eq (e : Environment) :
    e.overrides = Override.layer Override.environmental (Override.fromEnvironment e) := by
  have hlevel : variableData (e.logLevel.map Text.lower) = Override.level.fromEnvironment e := by
    unfold variableData Override.fromEnvironment Override.environmentText
    cases e.logLevel with
    | none => rfl
    | some t =>
      by_cases hempty : t.isEmpty <;> simp [Option.filter, hempty, Override.taken]
  rw [Environment.overrides, hlevel]
  rfl

section

variable {file options : Mapping} {e : Environment}
  (hoptions : ∀ k d, get? k options = some d → ¬ d.IsMapping)

/-- What the environment lays over a configuration is a layer. -/
lemma isOverride_overrides (e : Environment) : IsOverride e.overrides := by
  rw [overrides_eq]
  exact Override.isOverride_layer (fun _ _ => Override.not_isMapping_of_fromEnvironment) _

include hoptions

/-- What the options lay over a configuration is a layer. -/
lemma isOverride_optionOverrides : IsOverride (optionOverrides options) := by
  rw [optionOverrides_eq]
  exact Override.isOverride_layer (fun _ _ => Override.not_isMapping_of_fromOption hoptions) _

/-- A section that is a mapping is laid under those of the two layers. -/
lemma setting?_combine {k : Scalar} (hfile : IsSectioned k file) (n : Scalar) :
    setting? k n (combine file e options) =
      (setting? k n (optionOverrides options)).or
        ((setting? k n e.overrides).or (setting? k n file)) := by
  have henvironment : IsOverride e.overrides := isOverride_overrides e
  rw [combine, applyOptions, Mapping.setting?_merge (hfile.merge henvironment)
    (isOverride_optionOverrides hoptions), Mapping.setting?_merge hfile henvironment]

/-- A setting that can be overridden has the value of its option, or else that of its variable, or
else that of the file. -/
lemma setting?_combine_override {o : Override} (hfile : IsSectioned o.section_ file) :
    setting? o.section_ o.name (combine file e options) =
      (o.fromOption options).or
        ((o.fromEnvironment e).or (setting? o.section_ o.name file)) := by
  have hoption : setting? o.section_ o.name (optionOverrides options) = o.fromOption options := by
    rw [optionOverrides_eq, Override.setting?_layer
      (fun _ _ => Override.not_isMapping_of_fromOption hoptions)]
    cases o <;> rfl
  have hvariable : setting? o.section_ o.name e.overrides = o.fromEnvironment e := by
    rw [overrides_eq, Override.setting?_layer
      (fun _ _ => Override.not_isMapping_of_fromEnvironment)]
    cases o <;> rfl
  rw [setting?_combine hoptions hfile, hoption, hvariable]

/-- A name in a section that no option and no variable makes is what the file says it is. -/
lemma setting?_combine_of_ne {k n : Scalar} (hfile : IsSectioned k file)
    (hne : ∀ o : Override, ¬ (k = o.section_ ∧ n = o.name)) :
    setting? k n (combine file e options) = setting? k n file := by
  rw [setting?_combine hoptions hfile, optionOverrides_eq, overrides_eq,
    Override.setting?_layer_of_ne (fun _ _ => Override.not_isMapping_of_fromOption hoptions) _ hne,
    Override.setting?_layer_of_ne (fun _ _ => Override.not_isMapping_of_fromEnvironment) _ hne,
    Option.none_or, Option.none_or]

/-- A key is at the top if one of the layers has something for it. -/
lemma isSome_get?_combine (k : Scalar) :
    (get? k (combine file e options)).isSome ↔ (get? k file).isSome ∨
      ∃ o : Override, k = o.section_ ∧ ((o.fromOption options).or (o.fromEnvironment e)).isSome := by
  have hvariable : ∀ o : Override, (o.fromEnvironment e).isSome → o ∈ Override.environmental := by
    intro o ho
    cases o <;> first | decide | cases ho
  have hall : ∀ o : Override, o ∈ Override.all := by
    intro o
    cases o <;> decide
  rw [combine, applyOptions,
    Mapping.isSome_get?_merge _ (isOverride_optionOverrides hoptions).distinct,
    Mapping.isSome_get?_merge _ (isOverride_overrides e).distinct, Bool.or_eq_true, Bool.or_eq_true,
    optionOverrides_eq, overrides_eq,
    Override.isSome_get?_layer (fun _ _ => Override.not_isMapping_of_fromOption hoptions),
    Override.isSome_get?_layer (fun _ _ => Override.not_isMapping_of_fromEnvironment)]
  simp only [Option.isSome_or, Bool.or_eq_true]
  constructor
  · rintro (⟨o, -, hk, ho⟩ | ⟨o, -, hk, ho⟩ | hfile)
    · exact Or.inr ⟨o, hk, Or.inl ho⟩
    · exact Or.inr ⟨o, hk, Or.inr ho⟩
    · exact Or.inl hfile
  · rintro (hfile | ⟨o, hk, ho | ho⟩)
    · exact Or.inr (Or.inr hfile)
    · exact Or.inl ⟨o, hall o, hk, ho⟩
    · exact Or.inr (Or.inl ⟨o, hvariable o ho, hk, ho⟩)

/-- A key at the top that is none of the sections is what the file says it is. -/
lemma get?_combine_of_ne {k : Scalar} (hne : ∀ o : Override, k ≠ o.section_) :
    get? k (combine file e options) = get? k file := by
  have hoption : get? k (optionOverrides options) = none := by
    rw [← Option.not_isSome_iff_eq_none, optionOverrides_eq,
      Override.isSome_get?_layer (fun _ _ => Override.not_isMapping_of_fromOption hoptions)]
    exact fun ⟨o, _, hk, _⟩ => hne o hk
  have hvariable : get? k e.overrides = none := by
    rw [← Option.not_isSome_iff_eq_none, overrides_eq,
      Override.isSome_get?_layer (fun _ _ => Override.not_isMapping_of_fromEnvironment)]
    exact fun ⟨o, _, hk, _⟩ => hne o hk
  rw [combine, applyOptions,
    Mapping.get?_merge_of_none _ (isOverride_optionOverrides hoptions).distinct hoption,
    Mapping.get?_merge_of_none _ (isOverride_overrides e).distinct hvariable]

end

/-! ## Paths -/

/-- What stands at a path of keys. -/
def Data.at? : List Scalar → Data → Option Data
  | [], d => some d
  | key :: rest, .mapping m => (get? key m).bind (at? rest)
  | _ :: _, _ => none

/-- A path of one key leads to what stands under the key. -/
lemma at?_singleton (k : Scalar) (m : Mapping) : (Data.mapping m).at? [k] = get? k m := by
  rw [Data.at?]
  cases get? k m <;> rfl

/-- A longer path leads through a setting of a section. -/
lemma at?_cons_cons (k n : Scalar) (rest : List Scalar) (m : Mapping) :
    (Data.mapping m).at? (k :: n :: rest) = (setting? k n m).bind (Data.at? rest) := by
  rw [Data.at?, setting?]
  cases get? k m with
  | none => rfl
  | some d => cases d <;> rfl

/-- The path of a setting. -/
def Override.place (o : Override) : List Scalar := [.text o.section_, .text o.name]

/-- A setting stands at its place. -/
lemma at?_place (o : Override) (m : Mapping) :
    (Data.mapping m).at? o.place = setting? o.section_ o.name m := by
  rw [Override.place, at?_cons_cons]
  cases setting? o.section_ o.name m <;> rfl

/-! ## Precedence -/

/-- A path that leads neither through nor to the place of a setting that can be overridden leads to
what it leads to in the file. -/
lemma at?_combine_of_ne {file options : Mapping} {e : Environment}
    (hfile : ∀ o : Override, IsSectioned o.section_ file)
    (hoptions : ∀ k d, get? k options = some d → ¬ d.IsMapping) {path : List Scalar}
    (hpath : ∀ o : Override, ¬ path <+: o.place ∧ ¬ o.place <+: path) :
    (Data.mapping (combine file e options)).at? path = (Data.mapping file).at? path := by
  match path with
  | [] => exact absurd List.nil_prefix (hpath .cacheDir).1
  | [k] =>
    have hne : ∀ o : Override, k ≠ o.section_ := fun o hk => (hpath o).1 ⟨[.text o.name], by
      rw [hk, Override.place, List.singleton_append]⟩
    rw [at?_singleton, at?_singleton, get?_combine_of_ne hoptions hne]
  | k :: n :: rest =>
    have hne : ∀ o : Override, ¬ (k = o.section_ ∧ n = o.name) := fun o hplace => (hpath o).2
      ⟨rest, by rw [hplace.1, hplace.2, Override.place]; rfl⟩
    by_cases hk : ∃ o : Override, k = o.section_
    · obtain ⟨o, rfl⟩ := hk
      rw [at?_cons_cons, at?_cons_cons, setting?_combine_of_ne hoptions (hfile o) hne]
    · have hget : get? k (combine file e options) = get? k file :=
        get?_combine_of_ne hoptions fun o ho => hk ⟨o, ho⟩
      rw [Data.at?, Data.at?, hget]

/-- What is validated are the file, the environment and the options in one mapping.  Each of the
settings that can be overridden has there the value of its option, if that counts, or else that of
its variable, if that is not empty, or else that of the file.  Everything else is as in the file,
and a section is there if the file has it or a layer makes one of its settings. -/
theorem combine_precedence (temporary : Path) (file : Mapping) (e : Environment)
    (options : Mapping)
    (hfile : ∀ o : Override, ∀ d, get? o.section_ file = some d → d.IsMapping)
    (hoptions : ∀ k d, get? k options = some d → ¬ d.IsMapping) :
    settings temporary (.mapping file) e options =
        (sections (.mapping (combine file e options))).map (validate temporary) ∧
      (∀ o : Override, (Data.mapping (combine file e options)).at? o.place =
        (o.fromOption options).or
          ((o.fromEnvironment e).or ((Data.mapping file).at? o.place))) ∧
      (∀ path : List Scalar, (∀ o : Override, ¬ path <+: o.place ∧ ¬ o.place <+: path) →
        (Data.mapping (combine file e options)).at? path = (Data.mapping file).at? path) ∧
      ∀ o : Override,
        (∀ d, get? o.section_ (combine file e options) = some d → d.IsMapping) ∧
        ((get? o.section_ (combine file e options)).isSome ↔ (get? o.section_ file).isSome ∨
          ∃ o' : Override, o'.section_ = o.section_ ∧
            ((o'.fromOption options).or (o'.fromEnvironment e)).isSome) := by
  refine ⟨?_, fun o => ?_, fun path hpath => at?_combine_of_ne hfile hoptions hpath,
    fun o => ⟨?_, ?_⟩⟩
  · rw [settings]
    cases sections (.mapping (combine file e options)) <;> rfl
  · rw [at?_place, at?_place, setting?_combine_override hoptions (hfile o)]
  · exact (IsSectioned.merge (hfile o) (isOverride_overrides e)).merge
      (isOverride_optionOverrides hoptions)
  · have hsection : ∀ o' : Override, (o.section_ : Scalar) = o'.section_ ↔
        o'.section_ = o.section_ := by
      intro o'
      cases o <;> cases o' <;> decide
    rw [isSome_get?_combine hoptions]
    simp only [hsection]

/-- A file with a timeout, a source and a key of its own. -/
def sampleFile : Mapping :=
  [("docs", .mapping [("timeout", .scalar (.int 5)), ("sources", .mapping [("py", .text "u")])]),
    ("other", .list [])]

/-- An environment with a timeout as well, and with a level. -/
def sampleEnvironment : Environment :=
  { cacheDir := some "", timeout := some "7", logLevel := some "INFO" }

/-- Options with a timeout of zero. -/
def sampleOptions : Mapping :=
  [("timeout", .scalar (.int 0)), ("strict", .scalar (.bool false)), ("verbose", .scalar .null)]

/-- The option wins over the variable, the variable over nothing, an empty variable and a null do not
count, and the source stays. -/
theorem combine_precedence_sample :
    (∀ o : Override, ∀ d, get? o.section_ sampleFile = some d → d.IsMapping) ∧
      (∀ k d, get? k sampleOptions = some d → ¬ d.IsMapping) ∧
      (Data.mapping (combine sampleFile sampleEnvironment sampleOptions)).at?
        ["docs", "timeout"] = some (.scalar (.int 0)) ∧
      (Data.mapping (combine sampleFile sampleEnvironment sampleOptions)).at?
        ["logging", "level"] = some (.text "info") ∧
      (Data.mapping (combine sampleFile sampleEnvironment sampleOptions)).at?
        ["docs", "cache_dir"] = none ∧
      (Data.mapping (combine sampleFile sampleEnvironment sampleOptions)).at?
        ["docs", "sources", "py"] = some (.text "u") := by
  have hfile : ∀ o : Override, ∀ d, get? o.section_ sampleFile = some d → d.IsMapping := by
    intro o d hd
    cases o <;> first | exact ⟨_, (Option.some.inj hd).symm⟩ | cases hd
  have hoptions : ∀ k d, get? k sampleOptions = some d → ¬ d.IsMapping := by
    rintro k d hd ⟨entries, rfl⟩
    obtain ⟨entry, hmem, hentry⟩ := Mapping.exists_mem_of_get? hd
    simp only [sampleOptions, List.mem_cons, List.not_mem_nil, or_false] at hmem
    rcases hmem with rfl | rfl | rfl <;> cases hentry
  obtain ⟨-, hplace, hother, -⟩ :=
    combine_precedence (Path.ofText "t") sampleFile sampleEnvironment sampleOptions hfile hoptions
  refine ⟨hfile, hoptions, (hplace .timeout).trans rfl, (hplace .level).trans rfl,
    (hplace .cacheDir).trans rfl, (hother _ fun o => ?_).trans rfl⟩
  cases o <;> decide

end Config

end EditorDocs
