import EditorDocs.Proofs.Config.Precedence

/-!
# Data by its paths

At a path of keys one sees a leaf, a value that is no mapping (`Data.leaf?`), or the keys of a mapping
in their order (`Data.keysAt`).  Behind a leaf there is nothing (`Data.at?_eq_none_of_blocks`).  Data
that holds no key twice is known by what is seen at its paths (`Data.eq_of_paths`).

Two mappings agree if neither of them has a leaf where the other one has a mapping (`Data.Agrees`); then
neither has anything behind a leaf of the other one.
-/

namespace EditorDocs.Config

open Mapping (get?)

/-! ## What is seen at a path -/

namespace Data

/-- The data is no mapping. -/
def isLeaf : Data → Bool
  | .mapping _ => false
  | _ => true

/-- The leaf at a path, if one is there. -/
def leaf? (path : List Scalar) (d : Data) : Option Data := (d.at? path).filter isLeaf

/-- The keys of the mapping at a path in their order; none where no mapping is. -/
def keysAt (path : List Scalar) (d : Data) : List Scalar :=
  match d.at? path with
  | some (.mapping m) => m.map Prod.fst
  | _ => []

/-- No mapping that a path leads to holds a key twice. -/
def IsProper (d : Data) : Prop := ∀ path m, d.at? path = some (.mapping m) → Mapping.Distinct m

/-- A leaf stands on the way to the path. -/
def blocks : List Scalar → Data → Bool
  | [], _ => false
  | k :: path, .mapping m => (get? k m).any (blocks path)
  | _ :: _, _ => true

/-- Data that is no leaf is a mapping. -/
lemma isLeaf_eq_false_iff {d : Data} : d.isLeaf = false ↔ ∃ m, d = .mapping m := by
  cases d <;> simp [isLeaf]

/-- There is a leaf at a path if what is there is one. -/
lemma leaf?_eq_some_iff {path : List Scalar} {d v : Data} :
    d.leaf? path = some v ↔ d.at? path = some v ∧ v.isLeaf = true :=
  Option.filter_eq_some_iff

/-- A path that goes on leads on from what stands where it has come to. -/
lemma at?_append (path rest : List Scalar) (d : Data) :
    d.at? (path ++ rest) = (d.at? path).bind (at? rest) := by
  induction path generalizing d with
  | nil => rfl
  | cons k path ih =>
    cases d with
    | mapping m =>
      rw [List.cons_append, at?, at?]
      cases get? k m with
      | none => rfl
      | some v => exact ih v
    | _ => rfl

/-- A path does not lead on from a leaf. -/
lemma at?_cons_of_isLeaf {d : Data} (h : d.isLeaf = true) (k : Scalar) (path : List Scalar) :
    d.at? (k :: path) = none := by
  cases d with
  | mapping m => cases h
  | _ => rfl

/-- A leaf stands on every way that goes on from it. -/
lemma blocks_cons_of_isLeaf {d : Data} (h : d.isLeaf = true) (k : Scalar) (path : List Scalar) :
    d.blocks (k :: path) = true := by
  cases d with
  | mapping m => cases h
  | _ => rfl

/-- A leaf stands on the way to a path if a shorter path leads to it. -/
lemma blocks_iff {path : List Scalar} {d : Data} :
    d.blocks path = true ↔ ∃ start, start <+: path ∧ start ≠ path ∧ (d.leaf? start).isSome := by
  induction path generalizing d with
  | nil =>
    refine ⟨fun h => (by cases h), ?_⟩
    rintro ⟨start, hstart, hne, -⟩
    exact absurd (List.prefix_nil.mp hstart) hne
  | cons k path ih =>
    cases hleaf : d.isLeaf with
    | true =>
      refine ⟨fun _ => ⟨[], List.nil_prefix, (List.cons_ne_nil k path).symm, ?_⟩,
        fun _ => blocks_cons_of_isLeaf hleaf k path⟩
      rw [leaf?_eq_some_iff.mpr ⟨rfl, hleaf⟩]
      rfl
    | false =>
      obtain ⟨m, rfl⟩ := isLeaf_eq_false_iff.mp hleaf
      rw [blocks, Option.any_eq_true]
      simp only [ih]
      constructor
      · rintro ⟨v, hv, start, hstart, hne, hsome⟩
        refine ⟨k :: start, List.cons_prefix_cons.mpr ⟨rfl, hstart⟩,
          fun h => hne (List.cons.inj h).2, ?_⟩
        rw [leaf?, at?, hv]
        exact hsome
      · rintro ⟨start, hstart, hne, hsome⟩
        cases start with
        | nil => cases hsome
        | cons k' rest =>
          obtain ⟨rfl, hrest⟩ := List.cons_prefix_cons.mp hstart
          rw [leaf?, at?] at hsome
          cases hv : get? k' m with
          | none =>
            rw [hv] at hsome
            cases hsome
          | some v =>
            rw [hv] at hsome
            exact ⟨v, rfl, rest, hrest, fun h => hne (by rw [h]), hsome⟩

/-- No leaf stands on the way to a path if no shorter path leads to one. -/
lemma blocks_eq_false_iff {path : List Scalar} {d : Data} :
    d.blocks path = false ↔ ∀ start, start <+: path → start ≠ path → d.leaf? start = none := by
  rw [Bool.eq_false_iff, ne_eq, blocks_iff]
  simp

/-- Nothing stands where a leaf stands on the way. -/
lemma at?_eq_none_of_blocks {path : List Scalar} {d : Data} (h : d.blocks path = true) :
    d.at? path = none := by
  induction path generalizing d with
  | nil => cases h
  | cons k path ih =>
    cases d with
    | mapping m =>
      rw [blocks, Option.any_eq_true] at h
      obtain ⟨v, hv, hblocks⟩ := h
      rw [at?, hv]
      exact ih hblocks
    | _ => rfl

/-- No mapping stands where a leaf stands, there or on the way. -/
lemma not_mapping_of_leaf {path : List Scalar} {d : Data}
    (h : (d.leaf? path).isSome = true ∨ d.blocks path = true) (m : Mapping) :
    d.at? path ≠ some (.mapping m) := by
  intro hm
  rcases h with hleaf | hblocks
  · rw [leaf?, hm] at hleaf
    cases hleaf
  · rw [at?_eq_none_of_blocks hblocks] at hm
    cases hm

/-- The keys at a path are those of the mapping that stands there. -/
lemma keysAt_of_at? {path : List Scalar} {d : Data} {m : Mapping}
    (h : d.at? path = some (.mapping m)) : d.keysAt path = m.map Prod.fst := by
  rw [keysAt, h]

/-- There are no keys where no mapping stands. -/
lemma keysAt_eq_nil {path : List Scalar} {d : Data}
    (h : ∀ m, d.at? path ≠ some (.mapping m)) : d.keysAt path = [] := by
  unfold keysAt
  split
  · rename_i m hm
    exact absurd hm (h m)
  · rfl

/-- The values of a proper mapping are proper. -/
lemma IsProper.value {m : Mapping} (h : (Data.mapping m).IsProper) {k : Scalar} {v : Data}
    (hv : get? k m = some v) : v.IsProper := by
  intro path m' hpath
  refine h (k :: path) m' ?_
  rw [at?, hv]
  exact hpath

/-- A proper mapping holds no key twice. -/
lemma IsProper.distinct {m : Mapping} (h : (Data.mapping m).IsProper) : Mapping.Distinct m :=
  h [] m rfl

end Data

/-! ## Data that is known by its paths -/

/-- Mappings with the same keys that have the same under each key are the same. -/
lemma Mapping.eq_of_get? {α : Type} {m m' : List (Scalar × α)} (hm : Mapping.Distinct m)
    (hm' : Mapping.Distinct m') (hkeys : m.map Prod.fst = m'.map Prod.fst)
    (hget : ∀ k, get? k m = get? k m') : m = m' := by
  induction m generalizing m' with
  | nil => exact (List.map_eq_nil_iff.mp hkeys.symm).symm
  | cons e rest ih =>
    cases m' with
    | nil => cases hkeys
    | cons e' rest' =>
      obtain ⟨k, v⟩ := e
      obtain ⟨k', v'⟩ := e'
      obtain ⟨rfl, hrest⟩ := List.cons.inj hkeys
      obtain ⟨hnew, hdistinct⟩ := List.pairwise_cons.mp hm
      obtain ⟨hnew', hdistinct'⟩ := List.pairwise_cons.mp hm'
      have hhead := hget k
      simp only [get?, Scalar.same_self, if_true, Option.some.injEq] at hhead
      subst hhead
      refine congrArg _ (ih hdistinct hdistinct' hrest fun key => ?_)
      have htail := hget key
      rw [get?, get?] at htail
      cases hsame : k.same key with
      | true =>
        -- the first key hides its own kind, of which there is none behind it
        rw [get?_eq_none fun e he => by rw [← Scalar.same_congr hsame]; exact hnew e he,
          get?_eq_none fun e he => by rw [← Scalar.same_congr hsame]; exact hnew' e he]
      | false =>
        rw [hsame] at htail
        exact htail

/-- A key is found if it is the same as one of the keys. -/
lemma Mapping.isSome_get?_iff {α : Type} {m : List (Scalar × α)} {key : Scalar} :
    (get? key m).isSome ↔ ∃ k ∈ m.map Prod.fst, k.same key = true := by
  induction m with
  | nil => simp [get?]
  | cons e rest ih =>
    rw [get?]
    cases hkey : e.1.same key with
    | true => simp [hkey]
    | false => simp [hkey, ih]

/-- A value of a mapping is smaller than the mapping. -/
lemma Mapping.sizeOf_lt_of_get? {m : Mapping} {k : Scalar} {v : Data} (h : get? k m = some v) :
    sizeOf v < sizeOf (Data.mapping m) := by
  obtain ⟨⟨key, value⟩, he, rfl⟩ := exists_mem_of_get? h
  have hlt := List.sizeOf_lt_of_mem he
  simp only [Prod.mk.sizeOf_spec, Data.mapping.sizeOf_spec] at hlt ⊢
  omega

/-- Proper data with the same leaves and the same keys at every path is the same. -/
theorem Data.eq_of_paths {d d' : Data} (hd : d.IsProper) (hd' : d'.IsProper)
    (hleaf : ∀ path, d.leaf? path = d'.leaf? path) (hkeys : ∀ path, d.keysAt path = d'.keysAt path) :
    d = d' := by
  induction hsize : sizeOf d using Nat.strong_induction_on generalizing d d' with
  | _ size ih =>
    subst hsize
    cases hd₀ : d.isLeaf with
    | true =>
      have hhere : d.leaf? [] = some d := leaf?_eq_some_iff.mpr ⟨rfl, hd₀⟩
      rw [hleaf] at hhere
      exact (Option.some.inj (leaf?_eq_some_iff.mp hhere).1).symm
    | false =>
      obtain ⟨m, rfl⟩ := isLeaf_eq_false_iff.mp hd₀
      cases hd₀' : d'.isLeaf with
      | true =>
        have hhere : d'.leaf? [] = some d' := leaf?_eq_some_iff.mpr ⟨rfl, hd₀'⟩
        rw [← hleaf] at hhere
        exact Option.some.inj (leaf?_eq_some_iff.mp hhere).1
      | false =>
        obtain ⟨m', rfl⟩ := isLeaf_eq_false_iff.mp hd₀'
        have hkeys₀ : m.map Prod.fst = m'.map Prod.fst := hkeys []
        refine congrArg _ (Mapping.eq_of_get? hd.distinct hd'.distinct hkeys₀ fun k => ?_)
        have hsome : (get? k m).isSome ↔ (get? k m').isSome := by
          rw [Mapping.isSome_get?_iff, Mapping.isSome_get?_iff, hkeys₀]
        cases hv : get? k m with
        | none =>
          rw [hv] at hsome
          exact (Option.not_isSome_iff_eq_none.mp fun h => by cases hsome.mpr h).symm
        | some v =>
          rw [hv] at hsome
          obtain ⟨v', hv'⟩ := Option.isSome_iff_exists.mp (hsome.mp rfl)
          have hbehind : ∀ path, v.leaf? path = v'.leaf? path ∧ v.keysAt path = v'.keysAt path := by
            intro path
            have hl := hleaf (k :: path)
            have hk := hkeys (k :: path)
            rw [leaf?, leaf?, at?, at?, hv, hv'] at hl
            rw [keysAt, keysAt, at?, at?, hv, hv'] at hk
            exact ⟨hl, hk⟩
          rw [hv', ih (sizeOf v) (Mapping.sizeOf_lt_of_get? hv) (hd.value hv) (hd'.value hv')
            (fun path => (hbehind path).1) (fun path => (hbehind path).2) rfl]

/-! ## Agreement -/

/-- Where a mapping stands in the first data no leaf stands in the second. -/
def Data.Agrees (d d' : Data) : Prop :=
  ∀ path m, d.at? path = some (.mapping m) → d'.leaf? path = none

/-- Where a leaf stands on the way in one of two that agree, nothing stands in the other one. -/
lemma Data.Agrees.at?_eq_none {d d' : Data} (h : d.Agrees d') {path : List Scalar}
    (hblocks : d'.blocks path = true) : d.at? path = none := by
  obtain ⟨start, ⟨rest, rfl⟩, hne, hleaf⟩ := Data.blocks_iff.mp hblocks
  rw [Data.at?_append]
  cases hat : d.at? start with
  | none => rfl
  | some v =>
    cases rest with
    | nil => exact absurd (List.append_nil start).symm hne
    | cons k rest =>
      have hv : v.isLeaf = true := by
        by_contra hv
        obtain ⟨m, rfl⟩ := Data.isLeaf_eq_false_iff.mp (Bool.eq_false_iff.mpr hv)
        rw [h start m hat] at hleaf
        cases hleaf
      exact Data.at?_cons_of_isLeaf hv k rest

namespace Data

variable {d d' : Data}

/-- No path leads from a leaf to a mapping. -/
lemma at?_ne_mapping_of_isLeaf (h : d.isLeaf = true) (path : List Scalar) (m : Mapping) :
    d.at? path ≠ some (.mapping m) := by
  intro hm
  cases path with
  | nil =>
    cases hm
    cases h
  | cons k path =>
    rw [at?_cons_of_isLeaf h] at hm
    cases hm

/-- A leaf is proper. -/
lemma isProper_of_isLeaf (h : d.isLeaf = true) : d.IsProper :=
  fun path m hm => absurd hm (at?_ne_mapping_of_isLeaf h path m)

/-- A mapping of one value is proper if the value is. -/
lemma isProper_singleton (h : d.IsProper) (k : Scalar) : (Data.mapping [(k, d)]).IsProper := by
  intro path m hm
  cases path with
  | nil =>
    cases hm
    exact List.pairwise_singleton _ _
  | cons key path =>
    rw [at?, get?] at hm
    split at hm
    · exact h path m hm
    · cases hm

/-- A leaf agrees with everything. -/
lemma agrees_of_isLeaf (h : d.isLeaf = true) (d' : Data) : d.Agrees d' :=
  fun path m hm => absurd hm (at?_ne_mapping_of_isLeaf h path m)

/-- Mappings of one value agree if the values do. -/
lemma agrees_singleton (h : d.Agrees d') (k k' : Scalar) :
    (Data.mapping [(k, d)]).Agrees (.mapping [(k', d')]) := by
  intro path m hm
  cases path with
  | nil => rfl
  | cons key path =>
    rw [at?, get?] at hm
    rw [leaf?, at?, get?]
    split at hm
    · split
      · exact h path m hm
      · rfl
    · cases hm

end Data

end EditorDocs.Config
