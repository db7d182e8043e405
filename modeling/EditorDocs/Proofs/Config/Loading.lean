import EditorDocs.Config.Load
import EditorDocs.Proofs.Config.Verbosity
import EditorDocs.Proofs.World.Files
import EditorDocs.Proofs.Yaml.Document

/-!
# Why a configuration is not loaded

Loading a configuration ends in checked settings, in a failure that a user is told as one of the
configuration (`Failure.IsTold`), or in one of those that nobody expects.  The latter are known
completely (`Config.Breaks`): the file cannot be looked at or is no file, its document ends in one of
the slips of its scalars and its depth, or it is well formed and its data has no sections that are
named by texts (`Config.exec_load_of_breaks`, `Config.exec_load_of_not_breaks`).  The environment and
the options have no part in this, since they only lay sections with names over the file.
-/

namespace EditorDocs

/-- The failure is one that a user is told as one of the configuration: there is no file, the file is
not well formed, or a value is not what it should be. -/
def Failure.IsTold (f : Failure) : Prop :=
  f.isMissingFile = true ∨ f.isValue = true ∨ f = .malformedConfiguration

namespace Config

open FileSystem (State Node)
open Mapping (put)
open Result (Ends)

/-! ## Data without sections -/

/-- The data has no sections that are named by texts, and this is the failure by which it shows. -/
inductive Shapeless : Data → Failure → Prop where
  /-- It is a list. -/
  | list (items : List Data) : Shapeless (.list items) .configurationList
  /-- It is a set. -/
  | set (keys : List Scalar) : Shapeless (.set keys) .configurationList
  /-- It is a scalar. -/
  | scalar (s : Scalar) : Shapeless (.scalar s) .configurationScalar
  /-- A key is no text. -/
  | key {m : Mapping} {e : Scalar × Data} (he : e ∈ m) (h : ∀ t, e.1 ≠ .text t) :
    Shapeless (.mapping m) .configurationList

/-- All keys are texts. -/
def IsNamed (m : Mapping) : Prop := ∀ e ∈ m, ∃ t, e.1 = .text t

/-- A mapping has sections if all its keys are texts. -/
lemma isOk_sections_iff {m : Mapping} : (sections (.mapping m)).isOk ↔ IsNamed m := by
  rw [sections]
  split
  · rename_i h
    refine ⟨fun _ e he => ?_, fun _ => rfl⟩
    have hkey := List.all_eq_true.mp h e he
    obtain ⟨key, d⟩ := e
    cases key with
    | text t => exact ⟨t, rfl⟩
    | _ => cases hkey
  · rename_i h
    refine ⟨fun hok => (by cases hok), fun hnamed => absurd ?_ h⟩
    refine List.all_eq_true.mpr fun e he => ?_
    obtain ⟨t, ht⟩ := hnamed e he
    obtain ⟨key, d⟩ := e
    obtain rfl : key = .text t := ht
    rfl

/-- Layers whose keys are texts leave a mapping with sections, or without. -/
lemma isOk_sections_merge {upper : Mapping} (h : IsNamed upper) (base : Mapping) :
    (sections (.mapping (merge base upper))).isOk = (sections (.mapping base)).isOk := by
  induction upper generalizing base with
  | nil => rw [merge]
  | cons e rest ih =>
    obtain ⟨⟨t, ht⟩, hrest⟩ := List.forall_mem_cons.mp h
    obtain ⟨key, value⟩ := e
    obtain rfl : key = .text t := ht
    rw [merge, ih hrest, isOk_sections_put]

/-- A layer under a text over another layer of this kind is one. -/
lemma IsNamed.merge {base upper : Mapping} (hbase : IsNamed base) (hupper : IsNamed upper) :
    IsNamed (merge base upper) := by
  rw [← isOk_sections_iff, isOk_sections_merge hupper]
  exact isOk_sections_iff.mpr hbase

/-- A setting in a section is under a text. -/
lemma isNamed_setting (section_ name : String) (value : Option Data) :
    IsNamed (setting section_ name value) := by
  cases value with
  | none => exact List.forall_mem_nil _
  | some v => exact List.forall_mem_singleton.mpr ⟨_, rfl⟩

/-- Settings that are gathered are under texts if each of them is. -/
lemma isNamed_gather {layers : List Mapping} (h : ∀ m ∈ layers, IsNamed m) :
    IsNamed (gather layers) := by
  induction layers using List.reverseRecOn with
  | nil => exact List.forall_mem_nil _
  | append_singleton rest last ih =>
    rw [gather_append_singleton]
    exact (ih fun m hm => h m (by simp [hm])).merge (h last (by simp))

/-- The environment and the options leave a file with sections, or without. -/
lemma isOk_sections_combine (file : Mapping) (e : Environment) (options : Mapping) :
    (sections (.mapping (combine file e options))).isOk = (sections (.mapping file)).isOk := by
  have hvariables : IsNamed e.overrides := by
    refine isNamed_gather fun m hm => ?_
    simp only [List.mem_cons, List.not_mem_nil, or_false] at hm
    rcases hm with rfl | rfl | rfl | rfl <;> exact isNamed_setting _ _ _
  have hoptions : IsNamed (optionOverrides options) := by
    refine isNamed_gather fun m hm => ?_
    simp only [List.mem_cons, List.not_mem_nil, or_false] at hm
    rcases hm with rfl | rfl | rfl | rfl | rfl | rfl | rfl <;> exact isNamed_setting _ _ _
  rw [combine, applyOptions, isOk_sections_merge hoptions, isOk_sections_merge hvariables]

/-- Data without sections is refused under every environment and with all options. -/
lemma settings_of_shapeless {d : Data} {f : Failure} (h : Shapeless d f) (temporary : Path)
    (e : Environment) (options : Mapping) : settings temporary d e options = .error f := by
  cases h with
  | list items => rfl
  | set keys => rfl
  | scalar s => rfl
  | @key m entry hentry htext =>
    have hnot : ¬ IsNamed m := fun hnamed => by
      obtain ⟨t, ht⟩ := hnamed entry hentry
      exact htext t ht
    rw [settings, sections_mapping, isOk_sections_combine, if_neg (mt isOk_sections_iff.mp hnot)]
    rfl

/-- Other data is checked. -/
lemma settings_of_not_shapeless {d : Data} (h : ∀ f, ¬ Shapeless d f) (temporary : Path)
    (e : Environment) (options : Mapping) : ∃ c, settings temporary d e options = .ok c := by
  cases d with
  | list items => exact absurd (.list items) (h _)
  | set keys => exact absurd (.set keys) (h _)
  | scalar s => exact absurd (.scalar s) (h _)
  | mapping m =>
    have hnamed : IsNamed m := fun entry hentry => by
      by_contra htext
      exact h _ (.key hentry fun t ht => htext ⟨t, ht⟩)
    rw [settings, sections_mapping, isOk_sections_combine, if_pos (isOk_sections_iff.mpr hnamed)]
    exact ⟨_, rfl⟩

/-! ## Files -/

/-- The configuration file at a path cannot be loaded for a reason that nobody expects, and this is
the failure by which it shows. -/
inductive Breaks (budget : Nat) (files : State) (path : Path) : Failure → Prop where
  /-- The path cannot be looked at, which does not mean that nothing is there. -/
  | search {e : Errno} (hpass : Files.refusal? path.text = none)
    (hlookup : files.lookup path.text = .error e) (he : Files.meansAbsence e = false) :
    Breaks budget files path (.system ⟨e, path.text, none⟩)
  /-- What is there is no file. -/
  | noFile {n : Node} (hpass : Files.refusal? path.text = none)
    (hlookup : files.lookup path.text = .ok n) (hn : ∀ bytes, n ≠ .file bytes) :
    Breaks budget files path (.system ⟨.isDirectory, path.text, none⟩)
  /-- The document in the file ends in a slip. -/
  | slip {bytes : Bytes} {f : Failure} (hpass : Files.refusal? path.text = none)
    (hlookup : files.lookup path.text = .ok (.file bytes))
    (hdocument : Yaml.Document.ofSource budget (.ofBytes bytes) = .error f) (hf : Yaml.Slips f) :
    Breaks budget files path f
  /-- The data in the file has no sections. -/
  | shapeless {bytes : Bytes} {d : Data} {f : Failure} (hpass : Files.refusal? path.text = none)
    (hlookup : files.lookup path.text = .ok (.file bytes)) (hdata : fileData budget bytes = .ok d)
    (hd : Shapeless d f) : Breaks budget files path f

/-- None of these failures is one of those that a user is told. -/
lemma Breaks.not_isTold {budget : Nat} {files : State} {path : Path} {f : Failure}
    (h : Breaks budget files path f) : ¬ f.IsTold := by
  rintro htold
  cases h with
  | @search e hpass hlookup he =>
    rcases htold with hmissing | hvalue | hmalformed
    · obtain rfl : e = .noEntry := of_decide_eq_true hmissing
      cases he
    · cases hvalue
    · cases hmalformed
  | noFile => rcases htold with h | h | h <;> cases h
  | slip _ _ _ hf => cases hf <;> rcases htold with h | h | h <;> cases h
  | shapeless _ _ _ hd => cases hd <;> rcases htold with h | h | h <;> cases h

/-- The data of a file is there, or its document ends in a failure that is told or in a slip. -/
lemma fileData_eq_error {budget : Nat} {bytes : Bytes} {f : Failure} (h : fileData budget bytes = .error f) :
    Yaml.Document.ofSource budget (.ofBytes bytes) = .error f ∧ (f.IsTold ∨ Yaml.Slips f) := by
  have hdocument : Yaml.Document.ofSource budget (.ofBytes bytes) = .error f := by
    unfold fileData at h
    cases hsource : Yaml.Document.ofSource budget (.ofBytes bytes) with
    | error f' =>
      rw [hsource] at h
      cases h
      rfl
    | ok d =>
      rw [hsource] at h
      cases h
  refine ⟨hdocument, ?_⟩
  rcases (Yaml.ends_ofSource budget bytes).of_error hdocument with hmalformed | hvalue | hslip
  · exact Or.inl (Or.inr (Or.inr hmalformed))
  · exact Or.inl (Or.inr (Or.inl hvalue))
  · exact Or.inr hslip

/-- The data of a file that is there is what the document in it says. -/
lemma exec_loadFile_of_file {path : Path} {w : World} {bytes : Bytes}
    (hpass : Files.refusal? path.text = none)
    (hlookup : w.files.lookup path.text = .ok (.file bytes)) :
    (loadFile (some path)).exec w = (fileData w.host.stack.nodes bytes, w) := by
  have hthere : (Files.exists? path.text).exec w = (.ok true, w) := by
    rw [Files.exec_exists?, hpass, hlookup]
  have hread : (Files.read path.text).exec w = (.ok bytes, w) := by
    rw [Files.read, Files.exec_look, hpass]
    simp only [State.read, hlookup]
    rfl
  rw [loadFile, Action.exec_bind_ok hthere, if_pos rfl, Action.exec_bind_ok (Action.exec_get w),
    Action.exec_bind_ok hread, Action.exec_ofExcept]

/-- What a configuration ends in whose file ends in a failure. -/
lemma exec_load_of_error {file : Option Path} {f : Failure} {w w' : World}
    (h : (loadFile file).exec w = (.error f, w')) (temporary : Path) (e : Environment)
    (options : Mapping) : (load temporary e file options).exec w = (.error f, w') :=
  Action.exec_bind_error h

/-- What a configuration ends in whose file has data. -/
lemma exec_load_of_ok {file : Option Path} {d : Data} {w w' : World}
    (h : (loadFile file).exec w = (.ok d, w')) (temporary : Path) (e : Environment)
    (options : Mapping) :
    (load temporary e file options).exec w = (settings temporary d e options, w') := by
  rw [load, Action.exec_bind_ok h, Action.exec_ofExcept]

variable {w : World} {path : Path}

/-- A file that breaks ends loading in its failure, under every environment and with all options. -/
lemma exec_load_of_breaks {f : Failure} (h : Breaks w.host.stack.nodes w.files path f) (temporary : Path)
    (e : Environment) (options : Mapping) :
    (load temporary e (some path) options).exec w = (.error f, w) := by
  cases h with
  | @search cause hpass hlookup hcause =>
    refine exec_load_of_error ?_ temporary e options
    refine Action.exec_bind_error ?_
    rw [Files.exec_exists?, hpass, hlookup]
    simp only
    rw [hcause]
    rfl
  | @noFile n hpass hlookup hn =>
    have hthere : (Files.exists? path.text).exec w = (.ok true, w) := by
      rw [Files.exec_exists?, hpass, hlookup]
    refine exec_load_of_error ?_ temporary e options
    rw [loadFile, Action.exec_bind_ok hthere, if_pos rfl, Action.exec_bind_ok (Action.exec_get w)]
    refine Action.exec_bind_error ?_
    rw [Files.read, Files.exec_look, hpass]
    cases n with
    | file bytes => exact absurd rfl (hn bytes)
    | _ => simp only [State.read, hlookup]; rfl
  | slip hpass hlookup hdocument hf =>
    refine exec_load_of_error ?_ temporary e options
    rw [exec_loadFile_of_file hpass hlookup, fileData, hdocument]
    rfl
  | shapeless hpass hlookup hdata hd =>
    rw [exec_load_of_ok ((exec_loadFile_of_file hpass hlookup).trans (by rw [hdata])),
      settings_of_shapeless hd]

/-- A file that does not break is loaded, or ends in a failure that is told. -/
lemma exec_load_of_not_breaks (h : ∀ f, ¬ Breaks w.host.stack.nodes w.files path f) (temporary : Path)
    (e : Environment) (options : Mapping) :
    (∃ c, (load temporary e (some path) options).exec w = (.ok c, w)) ∨
      ∃ f : Failure, (load temporary e (some path) options).exec w = (.error f, w) ∧ f.IsTold := by
  have hmissing (hthere : (Files.exists? path.text).exec w = (.ok false, w)) :
      (load temporary e (some path) options).exec w =
        (.error (.missingConfiguration path.text), w) := by
    refine exec_load_of_error ?_ temporary e options
    rw [loadFile, Action.exec_bind_ok hthere, if_neg Bool.false_ne_true, Action.exec_throw]
  cases hpass : Files.refusal? path.text with
  | some refused =>
    exact Or.inr ⟨_, hmissing (by rw [Files.exec_exists?, hpass]), Or.inl rfl⟩
  | none =>
    cases hlookup : w.files.lookup path.text with
    | error cause =>
      by_cases habsent : Files.meansAbsence cause = true
      · refine Or.inr ⟨_, hmissing ?_, Or.inl rfl⟩
        rw [Files.exec_exists?, hpass, hlookup]
        simp only
        rw [if_pos habsent]
      · exact absurd (.search hpass hlookup (Bool.eq_false_iff.mpr habsent)) (h _)
    | ok n =>
      cases n with
      | file bytes =>
        have hfile := exec_loadFile_of_file hpass hlookup
        cases hdata : fileData w.host.stack.nodes bytes with
        | error f =>
          rw [hdata] at hfile
          obtain ⟨hdocument, htold | hslip⟩ := fileData_eq_error hdata
          · exact Or.inr ⟨f, exec_load_of_error hfile temporary e options, htold⟩
          · exact absurd (.slip hpass hlookup hdocument hslip) (h _)
        | ok d =>
          rw [hdata] at hfile
          obtain ⟨c, hc⟩ := settings_of_not_shapeless
            (fun f hf => h _ (.shapeless hpass hlookup hdata hf)) temporary e options
          exact Or.inl ⟨c, by rw [exec_load_of_ok hfile, hc]⟩
      | link target =>
        exact absurd (.noFile hpass hlookup fun bytes hn => by cases hn) (h _)
      | directory entries =>
        exact absurd (.noFile hpass hlookup fun bytes hn => by cases hn) (h _)

/-- Without a file the settings are checked. -/
lemma exec_load_none (temporary : Path) (e : Environment) (options : Mapping) (w : World) :
    ∃ c, (load temporary e none options).exec w = (.ok c, w) := by
  obtain ⟨c, hc⟩ := settings_of_not_shapeless (d := .mapping [])
    (fun f hf => by cases hf with | key he _ => cases he) temporary e options
  exact ⟨c, by rw [exec_load_of_ok rfl, hc]⟩

end Config

end EditorDocs
