import EditorDocs.Config.Layers
import Mathlib.Data.List.Induction
import Mathlib.Tactic.Lemma

/-!
# What a merged configuration holds

A mapping laid over another one is seen through what stands under a key (`Mapping.get?_merge`).  The
layers above a configuration file are of one kind: sections that hold settings, none of which is a
mapping itself (`IsOverride`).  Such a layer is seen through what stands under the name of a setting
in a section, and there it simply goes first (`Mapping.setting?_merge`); a key at the top under which
it has nothing keeps its value (`Mapping.get?_merge_of_none`).  Layers of this kind that are merged
are again one (`IsOverride.merge`), so that of settings which are gathered the last one for a name
counts (`setting?_gather`).
-/

namespace EditorDocs.Config

/-! ## Keys -/

namespace Scalar

/-- A scalar is the same key as itself. -/
@[simp]
lemma same_self (a : Scalar) : a.same a = true := decide_eq_true rfl

/-- Scalars that are the same key are so to any third one. -/
lemma same_congr {a b : Scalar} (h : a.same b = true) (c : Scalar) : a.same c = b.same c := by
  have hab : a.canonical = b.canonical := of_decide_eq_true h
  rw [same, same, hab]

/-- It does not matter which of two keys is compared with the other. -/
lemma same_comm (a b : Scalar) : a.same b = b.same a := by
  rw [same, same, decide_eq_decide]
  exact eq_comm

/-- Only a text is the same key as a text, and only the same text. -/
@[simp]
lemma text_same (t : Text) (s : Scalar) : (Scalar.text t).same s = true ↔ s = .text t := by
  rw [same, decide_eq_true_iff]
  cases s with
  | float x => cases hx : x.toInt? <;> simp [canonical, hx]
  | text u => exact ⟨Eq.symm, Eq.symm⟩
  | _ => simp [canonical]

end Scalar

namespace Mapping

section

variable {α : Type}

/-- A value that is put under a key is found under all keys that are the same. -/
lemma get?_put (key k : Scalar) (value : α) (m : List (Scalar × α)) :
    get? k (put key value m) = if key.same k then some value else get? k m := by
  induction m with
  | nil => rfl
  | cons e rest ih =>
    obtain ⟨k', v'⟩ := e
    by_cases hkey : k'.same key = true
    · rw [put, if_pos hkey, get?, Scalar.same_congr hkey k, get?]
      split
      · rfl
      · rename_i hk
        rw [Scalar.same_congr hkey k, if_neg hk]
    · -- the first entry stays, and hides what is put only from its own keys
      rw [put, if_neg hkey, get?, get?, ih]
      by_cases hk : k'.same k = true
      · have hne : ¬ key.same k = true := by
          rw [Scalar.same_comm k' key] at hkey
          rw [Scalar.same_comm] at hk ⊢
          rwa [Scalar.same_congr hk key, Scalar.same_comm]
        rw [if_pos hk, if_neg hne, if_pos hk]
      · rw [if_neg hk, if_neg hk]

/-- A value that is put under a key adds the key at the end, if it is new. -/
lemma map_fst_put (key : Scalar) (value : α) (m : List (Scalar × α)) :
    (put key value m).map Prod.fst =
      m.map Prod.fst ++ if m.any (fun e => e.1.same key) then [] else [key] := by
  induction m with
  | nil => rfl
  | cons e rest ih =>
    rw [put, List.any_cons]
    cases hkey : e.1.same key with
    | true => simp
    | false =>
      rw [Bool.false_or, if_neg Bool.false_ne_true, List.map_cons, ih]
      rfl

/-- Of two values that are put under a key the last one stays. -/
lemma put_put (key : Scalar) (value value' : α) (m : List (Scalar × α)) :
    put key value (put key value' m) = put key value m := by
  induction m with
  | nil => simp [put]
  | cons e rest ih =>
    obtain ⟨k, v⟩ := e
    by_cases hk : k.same key = true
    · simp [put, hk]
    · simp [put, hk, ih]

/-- The same is found under keys that are the same. -/
lemma get?_congr {a b : Scalar} (h : a.same b = true) (m : List (Scalar × α)) :
    get? a m = get? b m := by
  induction m with
  | nil => rfl
  | cons e rest ih =>
    have hsame : e.1.same a = e.1.same b := by
      rw [Scalar.same_comm, Scalar.same_congr h, Scalar.same_comm]
    rw [get?, get?, hsame, ih]

/-- No two entries have the same key. -/
def Distinct (m : List (Scalar × α)) : Prop := m.Pairwise fun a b => a.1.same b.1 = false

/-- Under a key that is none of the keys nothing is found. -/
lemma get?_eq_none {key : Scalar} {m : List (Scalar × α)} (h : ∀ e ∈ m, key.same e.1 = false) :
    get? key m = none := by
  induction m with
  | nil => rfl
  | cons e rest ih =>
    have hne : e.1.same key = false := by
      rw [Scalar.same_comm]
      exact h e List.mem_cons_self
    rw [get?, hne]
    exact ih fun e' he' => h e' (List.mem_cons_of_mem _ he')

/-- What is found under a key is the value of an entry. -/
lemma exists_mem_of_get? {key : Scalar} {m : List (Scalar × α)} {value : α}
    (h : get? key m = some value) : ∃ e ∈ m, e.2 = value := by
  induction m with
  | nil => cases h
  | cons e rest ih =>
    rw [get?] at h
    split at h
    · exact ⟨e, List.mem_cons_self, Option.some.inj h⟩
    · obtain ⟨e', he', hvalue⟩ := ih h
      exact ⟨e', List.mem_cons_of_mem _ he', hvalue⟩

/-- An entry of a mapping in which a value was put is that value under its key, or was there. -/
lemma mem_of_mem_put {key : Scalar} {value : α} {m : List (Scalar × α)} {e : Scalar × α}
    (h : e ∈ put key value m) : e.1.same key = true ∨ e ∈ m := by
  induction m with
  | nil =>
    rw [put, List.mem_singleton] at h
    subst h
    exact Or.inl (Scalar.same_self key)
  | cons e' rest ih =>
    rw [put] at h
    split at h
    · rename_i hkey
      rcases List.mem_cons.mp h with rfl | hrest
      · exact Or.inl hkey
      · exact Or.inr (List.mem_cons_of_mem _ hrest)
    · rcases List.mem_cons.mp h with rfl | hrest
      · exact Or.inr List.mem_cons_self
      · exact (ih hrest).imp id (List.mem_cons_of_mem _)

/-- Keys stay different when a value is put. -/
lemma Distinct.put {m : List (Scalar × α)} (h : Distinct m) (key : Scalar) (value : α) :
    Distinct (put key value m) := by
  induction m with
  | nil => exact List.pairwise_singleton _ _
  | cons e rest ih =>
    obtain ⟨hnew, hrest⟩ := List.pairwise_cons.mp h
    rw [Mapping.put]
    split
    · exact List.pairwise_cons.mpr ⟨hnew, hrest⟩
    · rename_i hkey
      refine List.pairwise_cons.mpr ⟨fun e' he' => ?_, ih hrest⟩
      rcases mem_of_mem_put he' with hsame | hmem
      · rw [Scalar.same_comm, Scalar.same_congr hsame, Scalar.same_comm]
        exact Bool.eq_false_iff.mpr hkey
      · exact hnew e' hmem

end

/-! ## Merging -/

/-- Keys stay different when a mapping is laid over. -/
lemma Distinct.merge {base : Mapping} (h : Distinct base) (upper : Mapping) :
    Distinct (merge base upper) := by
  induction upper generalizing base with
  | nil => rwa [Config.merge]
  | cons e rest ih =>
    rw [Config.merge]
    exact ih (h.put _ _)

/-- What stands under a key in a merged mapping: what the upper one has there, laid over what the
lower one has, or that alone. -/
lemma get?_merge (base : Mapping) {upper : Mapping} (h : Distinct upper) (k : Scalar) :
    get? k (merge base upper) =
      ((get? k upper).map (overlay (get? k base))).or (get? k base) := by
  induction upper generalizing base with
  | nil => rfl
  | cons e rest ih =>
    obtain ⟨key, value⟩ := e
    obtain ⟨hnew, hrest⟩ := List.pairwise_cons.mp h
    rw [merge, ih _ hrest, get?_put, get?]
    by_cases hk : key.same k = true
    · -- no later entry of the upper mapping can lie over this one
      have hnone : get? k rest = none := by
        rw [← get?_congr hk]
        exact get?_eq_none hnew
      rw [if_pos hk, if_pos hk, hnone, get?_congr hk]
      rfl
    · rw [if_neg hk, if_neg hk]

/-- A key under which the upper mapping has nothing keeps its value. -/
lemma get?_merge_of_none (base : Mapping) {upper : Mapping} (h : Distinct upper) {k : Scalar}
    (hk : get? k upper = none) : get? k (merge base upper) = get? k base := by
  rw [get?_merge base h, hk]
  rfl

/-- What stands under a name in the section of a configuration. -/
def setting? (section_ name : Scalar) (m : Mapping) : Option Data :=
  match get? section_ m with
  | some (.mapping settings) => get? name settings
  | _ => none

/-- The section is a mapping if it is there. -/
def IsSectioned (section_ : Scalar) (m : Mapping) : Prop :=
  ∀ d, get? section_ m = some d → ∃ settings, d = .mapping settings

end Mapping

/-! ## Layers -/

/-- The data is a mapping. -/
def Data.IsMapping (d : Data) : Prop := ∃ entries, d = .mapping entries

/-- Data that is no mapping replaces what it is laid over. -/
lemma overlay_of_not_isMapping {d : Data} (h : ¬ d.IsMapping) (below : Option Data) :
    overlay below d = d := by
  cases d with
  | mapping entries => exact absurd ⟨entries, rfl⟩ h
  | _ => rfl

/-- The data is a section of settings, under different names, of which none is a mapping. -/
def Data.IsFlat (d : Data) : Prop :=
  ∃ settings, d = .mapping settings ∧ Mapping.Distinct settings ∧
    ∀ name value, Mapping.get? name settings = some value → ¬ value.IsMapping

/-- What is laid over a configuration: sections under different names, each of them flat. -/
structure IsOverride (m : Mapping) : Prop where
  /-- The sections have different names. -/
  distinct : Mapping.Distinct m
  /-- Each section is flat. -/
  flat : ∀ section_ d, Mapping.get? section_ m = some d → d.IsFlat

namespace IsOverride

/-- Settings laid over those of a flat section make a flat section. -/
lemma isFlat_overlay {below above : Data} (hbelow : below.IsFlat) (habove : above.IsFlat) :
    (overlay (some below) above).IsFlat := by
  obtain ⟨base, rfl, hbase, hleaf⟩ := hbelow
  obtain ⟨upper, rfl, hupper, hleaf'⟩ := habove
  refine ⟨merge base upper, by rw [overlay], hbase.merge upper, fun name value hvalue => ?_⟩
  rw [Mapping.get?_merge base hupper] at hvalue
  cases hname : Mapping.get? name upper with
  | none =>
    rw [hname] at hvalue
    exact hleaf name value hvalue
  | some v =>
    have hv : ¬ v.IsMapping := hleaf' name v hname
    rw [hname, Option.map_some, Option.some_or, overlay_of_not_isMapping hv] at hvalue
    exact Option.some.inj hvalue ▸ hv

/-- What is laid over a section that is not there is there as it is. -/
lemma overlay_none (d : Data) : overlay none d = d := by
  cases d <;> rfl

/-- A layer over a layer is a layer. -/
lemma merge {base upper : Mapping} (hbase : IsOverride base) (hupper : IsOverride upper) :
    IsOverride (merge base upper) := by
  refine ⟨hbase.distinct.merge upper, fun section_ d hd => ?_⟩
  rw [Mapping.get?_merge base hupper.distinct] at hd
  cases habove : Mapping.get? section_ upper with
  | none =>
    rw [habove] at hd
    exact hbase.flat section_ d hd
  | some above =>
    have hflat : above.IsFlat := hupper.flat section_ above habove
    rw [habove, Option.map_some, Option.some_or] at hd
    cases Option.some.inj hd
    cases hbelow : Mapping.get? section_ base with
    | none =>
      rw [overlay_none]
      exact hflat
    | some below => exact isFlat_overlay (hbase.flat section_ below hbelow) hflat

end IsOverride

namespace Mapping

variable {m upper : Mapping}

/-- In a section that is a mapping, a layer goes first. -/
lemma setting?_merge {section_ : Scalar} (hm : IsSectioned section_ m) (hupper : IsOverride upper)
    (name : Scalar) :
    setting? section_ name (merge m upper) =
      (setting? section_ name upper).or (setting? section_ name m) := by
  unfold setting?
  rw [get?_merge m hupper.distinct]
  cases habove : get? section_ upper with
  | none => rfl
  | some above =>
    obtain ⟨settings, rfl, hdistinct, hleaf⟩ := hupper.flat section_ above habove
    rw [Option.map_some, Option.some_or]
    cases hbelow : get? section_ m with
    | none =>
      rw [IsOverride.overlay_none]
      exact Option.or_none.symm
    | some below =>
      obtain ⟨base, rfl⟩ := hm below hbelow
      rw [overlay]
      change get? name (merge base settings) = (get? name settings).or (get? name base)
      rw [get?_merge base hdistinct]
      cases hname : get? name settings with
      | none => rfl
      | some value =>
        rw [Option.map_some, overlay_of_not_isMapping (hleaf name value hname), Option.some_or]

/-- A section that is a mapping remains one under a layer. -/
lemma IsSectioned.merge {section_ : Scalar} (hm : IsSectioned section_ m)
    (hupper : IsOverride upper) : IsSectioned section_ (merge m upper) := by
  intro d hd
  rw [get?_merge m hupper.distinct] at hd
  cases habove : get? section_ upper with
  | none =>
    rw [habove] at hd
    exact hm d hd
  | some above =>
    obtain ⟨settings, rfl, -, -⟩ := hupper.flat section_ above habove
    rw [habove, Option.map_some, Option.some_or] at hd
    cases Option.some.inj hd
    cases hbelow : get? section_ m with
    | none => exact ⟨settings, IsOverride.overlay_none _⟩
    | some below =>
      obtain ⟨base, rfl⟩ := hm below hbelow
      exact ⟨Config.merge base settings, by rw [overlay]⟩

/-- A key is in a merged mapping if it is in one of the two. -/
lemma isSome_get?_merge (m : Mapping) (hupper : Distinct upper) (k : Scalar) :
    (get? k (merge m upper)).isSome = ((get? k upper).isSome || (get? k m).isSome) := by
  rw [get?_merge m hupper]
  cases get? k upper <;> simp

end Mapping

/-! ## Settings that are gathered -/

namespace Mapping

/-- Under a key of a single setting only its section is found. -/
lemma get?_setting (k : Scalar) (section_ name : String) (value : Option Data) :
    get? k (setting section_ name value) =
      if k = .text section_ then value.map fun v => .mapping [(name, v)] else none := by
  cases value with
  | none => exact (ite_self none).symm
  | some v =>
    rw [setting, get?, get?]
    by_cases hk : k = .text section_
    · rw [if_pos hk, if_pos ((Scalar.text_same _ k).mpr hk)]
      rfl
    · rw [if_neg hk, if_neg (mt (Scalar.text_same _ k).mp hk)]

/-- A single setting is found under its name, and nothing else is. -/
lemma setting?_setting (k n : Scalar) (section_ name : String) (value : Option Data) :
    setting? k n (setting section_ name value) =
      if k = .text section_ ∧ n = .text name then value else none := by
  rw [setting?, get?_setting]
  by_cases hk : k = .text section_
  · rw [if_pos hk]
    cases value with
    | none => exact (ite_self none).symm
    | some v =>
      change get? n [((name : Scalar), v)] = _
      rw [get?, get?]
      by_cases hn : n = .text name
      · rw [if_pos ((Scalar.text_same _ n).mpr hn), if_pos ⟨hk, hn⟩]
      · rw [if_neg (mt (Scalar.text_same _ n).mp hn), if_neg fun h => hn h.2]
  · rw [if_neg hk, if_neg fun h => hk h.1]

end Mapping

/-- A setting that is no mapping makes a layer. -/
lemma isOverride_setting (section_ name : String) {value : Option Data}
    (h : ∀ d, value = some d → ¬ d.IsMapping) : IsOverride (setting section_ name value) := by
  cases value with
  | none => exact ⟨List.Pairwise.nil, fun _ _ hd => by cases hd⟩
  | some v =>
    refine ⟨List.pairwise_singleton _ _, fun k d hd => ?_⟩
    rw [Mapping.get?_setting] at hd
    split at hd
    · cases Option.some.inj hd
      refine ⟨[(name, v)], rfl, List.pairwise_singleton _ _, fun n value hvalue => ?_⟩
      rw [Mapping.get?] at hvalue
      split at hvalue
      · exact Option.some.inj hvalue ▸ h v rfl
      · cases hvalue
    · cases hd

/-- The last setting is laid over those before it. -/
lemma gather_append_singleton (layers : List Mapping) (last : Mapping) :
    gather (layers ++ [last]) = merge (gather layers) last := by
  rw [gather, List.foldl_append]
  rfl

/-- Layers that are gathered make a layer. -/
lemma isOverride_gather {layers : List Mapping} (h : ∀ m ∈ layers, IsOverride m) :
    IsOverride (gather layers) := by
  induction layers using List.reverseRecOn with
  | nil => exact ⟨List.Pairwise.nil, fun _ _ hd => by cases hd⟩
  | append_singleton rest last ih =>
    rw [gather_append_singleton]
    exact (ih fun m hm => h m (by simp [hm])).merge (h last (by simp))

/-- The sections of a layer are mappings. -/
lemma IsOverride.isSectioned {m : Mapping} (h : IsOverride m) (k : Scalar) :
    Mapping.IsSectioned k m := by
  intro d hd
  obtain ⟨settings, hs, -⟩ := h.flat k d hd
  exact ⟨settings, hs⟩

/-- A name that only one of the gathered layers has is found with the value that it has there. -/
lemma setting?_gather {ι : Type} [DecidableEq ι] {layer : ι → Mapping}
    (h : ∀ i, IsOverride (layer i)) {k n : Scalar} {o : ι} {value : Option Data}
    (hvalue : ∀ i, Mapping.setting? k n (layer i) = if i = o then value else none) (l : List ι) :
    Mapping.setting? k n (gather (l.map layer)) = if o ∈ l then value else none := by
  induction l using List.reverseRecOn with
  | nil => rfl
  | append_singleton rest last ih =>
    have hrest : IsOverride (gather (rest.map layer)) :=
      isOverride_gather fun m hm => by
        obtain ⟨i, -, rfl⟩ := List.mem_map.mp hm
        exact h i
    rw [List.map_append, List.map_singleton, gather_append_singleton,
      Mapping.setting?_merge (hrest.isSectioned k) (h last), ih, hvalue]
    by_cases hlast : last = o
    · subst hlast
      rw [if_pos rfl, if_pos List.mem_concat_self]
      split <;> simp
    · rw [if_neg hlast, Option.none_or]
      simp [Ne.symm hlast]

/-- A key is in gathered layers if it is in one of them. -/
lemma isSome_get?_gather {layers : List Mapping} (h : ∀ m ∈ layers, IsOverride m) (k : Scalar) :
    (Mapping.get? k (gather layers)).isSome ↔ ∃ m ∈ layers, (Mapping.get? k m).isSome := by
  induction layers using List.reverseRecOn with
  | nil => simp [gather, Mapping.get?]
  | append_singleton rest last ih =>
    rw [gather_append_singleton, Mapping.isSome_get?_merge _ (h last (by simp)).distinct,
      Bool.or_eq_true, ih fun m hm => h m (by simp [hm])]
    simp [or_comm]

end EditorDocs.Config
