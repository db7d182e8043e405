import EditorDocs.Proofs.Config.Paths

/-!
# Laws of merging

What stands at a path in data that is laid over other data is found from what stands there in the two
(`at?_overlay`): what the upper one has there is laid over what the lower one has; where the upper one
has nothing the lower one shows through, unless a leaf of the upper one stands on the way.  From this
follow the two things that can be seen at a path of a merged mapping, its leaves
(`leaf?_merge_eq_some_iff`) and the order of its keys (`keysAt_merge`).

Since data is known by its paths, laws of merging are proved path by path: the empty mapping changes
nothing, a mapping that is laid over twice is laid over once (`merge_merge_self`), and mappings that
agree can be merged in either grouping (`merge_merge_of_agree`).
-/

namespace EditorDocs.Config

open Mapping (get?)

/-! ## What is laid over -/

/-- Behind a key of a merged mapping stands what stands under the key in the upper one, laid over what
stands under it in the lower one, or that alone. -/
lemma at?_merge_cons (base : Mapping) {upper : Mapping} (h : Mapping.Distinct upper) (k : Scalar)
    (path : List Scalar) : (Data.mapping (merge base upper)).at? (k :: path) =
      match get? k upper with
      | some v => (overlay (get? k base) v).at? path
      | none => (Data.mapping base).at? (k :: path) := by
  rw [Data.at?, Mapping.get?_merge base h]
  cases get? k upper with
  | none => rfl
  | some v => rfl

section

variable {path : List Scalar} {below : Option Data} {d : Data}

/-- A leaf replaces what it is laid over. -/
lemma overlay_of_isLeaf (h : d.isLeaf = true) (below : Option Data) : overlay below d = d :=
  overlay_of_not_isMapping (by
    rintro ⟨m, rfl⟩
    cases h) below

/-- A mapping is laid over another one, or stands as it is: either way it becomes a mapping. -/
lemma overlay_mapping_cases (below : Option Data) (upper : Mapping) :
    (∃ base, below = some (.mapping base) ∧
        overlay below (.mapping upper) = .mapping (merge base upper)) ∨
      ((∀ v, below = some v → v.isLeaf = true) ∧
        overlay below (.mapping upper) = .mapping upper) := by
  cases below with
  | none => exact Or.inr ⟨fun _ h => (nomatch h), rfl⟩
  | some v =>
    cases v with
    | mapping base => exact Or.inl ⟨base, rfl, by rw [overlay]⟩
    | _ => exact Or.inr ⟨fun _ h => Option.some.inj h ▸ rfl, rfl⟩

/-- A leaf stays a leaf when it is laid over something, and a mapping a mapping. -/
@[simp]
lemma isLeaf_overlay (below : Option Data) (d : Data) : (overlay below d).isLeaf = d.isLeaf := by
  cases hleaf : d.isLeaf with
  | true => rw [overlay_of_isLeaf hleaf, hleaf]
  | false =>
    obtain ⟨upper, rfl⟩ := Data.isLeaf_eq_false_iff.mp hleaf
    rcases overlay_mapping_cases below upper with ⟨base, -, hover⟩ | ⟨-, hover⟩ <;> rw [hover] <;> rfl

/-- At a path stands what the upper data has there, laid over what the lower one has; or what the lower
one has, unless a leaf of the upper one stands on the way. -/
lemma at?_overlay (hd : d.IsProper) :
    (overlay below d).at? path = match d.at? path with
      | some v => some (overlay (below.bind (Data.at? path)) v)
      | none => if d.blocks path then none else below.bind (Data.at? path) := by
  induction path generalizing below d with
  | nil => cases below <;> rfl
  | cons k path ih =>
    cases hleaf : d.isLeaf with
    | true =>
      rw [overlay_of_isLeaf hleaf, Data.at?_cons_of_isLeaf hleaf, Data.blocks_cons_of_isLeaf hleaf]
      rfl
    | false =>
      obtain ⟨upper, rfl⟩ := Data.isLeaf_eq_false_iff.mp hleaf
      rw [Data.at?, Data.blocks]
      rcases overlay_mapping_cases below upper with ⟨base, rfl, hover⟩ | ⟨hbelow, hover⟩
      · rw [hover, at?_merge_cons base hd.distinct]
        cases hv : get? k upper with
        | none => rfl
        | some v => exact ih (hd.value hv)
      · -- what lies below is no mapping, and has nothing behind a key
        have hnone : below.bind (Data.at? (k :: path)) = none := by
          cases below with
          | none => rfl
          | some v => exact Data.at?_cons_of_isLeaf (hbelow v rfl) k path
        rw [hover, hnone, Data.at?, ite_self]
        cases (get? k upper).bind (Data.at? path) with
        | none => rfl
        | some v => exact congrArg some (IsOverride.overlay_none v).symm

end

/-! ## Keys -/

/-- The keys that are none of the keys `old`. -/
def newKeys (old keys : List Scalar) : List Scalar :=
  keys.filter fun key => old.all fun k => !k.same key

section

variable {old keys more : List Scalar}

/-- A key is new if it is none of the old ones. -/
lemma mem_newKeys {key : Scalar} :
    key ∈ newKeys old keys ↔ key ∈ keys ∧ ∀ k ∈ old, k.same key = false := by
  simp [newKeys]

/-- All keys are new where there are none. -/
@[simp]
lemma newKeys_nil (keys : List Scalar) : newKeys [] keys = keys := by simp [newKeys]

/-- The new ones of two lists of keys. -/
lemma newKeys_append (old keys more : List Scalar) :
    newKeys old (keys ++ more) = newKeys old keys ++ newKeys old more := List.filter_append ..

/-- No key is new that is there. -/
lemma newKeys_eq_nil (h : ∀ key ∈ keys, ∃ k ∈ old, k.same key = true) : newKeys old keys = [] := by
  rw [newKeys, List.filter_eq_nil_iff]
  intro key hkey hall
  obtain ⟨k, hk, hsame⟩ := h key hkey
  have hnot := List.all_eq_true.mp hall k hk
  rw [hsame] at hnot
  cases hnot

/-- Keys are new beside old keys and the new ones among others if they are new beside both. -/
lemma newKeys_append_newKeys (old keys more : List Scalar) :
    newKeys (old ++ newKeys old keys) more = newKeys old (newKeys keys more) := by
  unfold newKeys
  rw [List.filter_filter]
  refine List.filter_congr fun key _ => ?_
  rw [List.all_append]
  cases hold : old.all fun k => !k.same key with
  | false => rfl
  | true =>
    -- a key of the second list that is the same as this one is new beside the old keys as well
    rw [Bool.true_and, Bool.true_and, Bool.eq_iff_iff, List.all_eq_true, List.all_eq_true]
    refine ⟨fun h k hk => ?_, fun h k hk => h k (mem_newKeys.mp hk).1⟩
    by_contra hsame
    rw [Bool.not_eq_true', Bool.not_eq_false] at hsame
    have hnew : k ∈ newKeys old keys := by
      refine mem_newKeys.mpr ⟨hk, fun k' hk' => ?_⟩
      have hne := List.all_eq_true.mp hold k' hk'
      rw [Bool.not_eq_true', Scalar.same_comm, ← Scalar.same_congr hsame] at hne
      rw [Scalar.same_comm]
      exact hne
    have hfalse := h k hnew
    rw [hsame] at hfalse
    cases hfalse

end

/-- One key is new if the mapping has none that is the same. -/
lemma newKeys_singleton (m : Mapping) (key : Scalar) :
    newKeys (m.map Prod.fst) [key] = if m.any (fun e => e.1.same key) then [] else [key] := by
  have hall : (m.map Prod.fst).all (fun k => !k.same key) = !m.any fun e => e.1.same key := by
    rw [List.all_map, List.not_any_eq_all_not]
    rfl
  rw [newKeys, List.filter_cons, List.filter_nil, hall]
  cases m.any fun e => e.1.same key <;> rfl

/-- A merged mapping has the keys of the lower one, and then the new ones of the upper one. -/
lemma map_fst_merge (base : Mapping) {upper : Mapping} (h : Mapping.Distinct upper) :
    (merge base upper).map Prod.fst =
      base.map Prod.fst ++ newKeys (base.map Prod.fst) (upper.map Prod.fst) := by
  induction upper generalizing base with
  | nil => rw [merge, List.map_nil, newKeys, List.filter_nil, List.append_nil]
  | cons e rest ih =>
    obtain ⟨key, value⟩ := e
    obtain ⟨hnew, hrest⟩ := List.pairwise_cons.mp h
    have hkeys : newKeys [key] (rest.map Prod.fst) = rest.map Prod.fst := by
      rw [newKeys, List.filter_eq_self]
      intro k hk
      obtain ⟨e, he, rfl⟩ := List.mem_map.mp hk
      simp [hnew e he]
    rw [merge, ih _ hrest, Mapping.map_fst_put, ← newKeys_singleton, newKeys_append_newKeys, hkeys,
      List.append_assoc, ← newKeys_append]
    rfl

/-! ## Leaves and keys of a merged mapping -/

section

variable {base upper : Mapping} {path : List Scalar}

/-- A merged mapping is one that is laid over another one. -/
lemma mapping_merge (base upper : Mapping) :
    Data.mapping (merge base upper) = overlay (some (.mapping base)) (.mapping upper) := by
  rw [overlay]

/-- What stands at a path of a merged mapping. -/
lemma at?_merge (hupper : (Data.mapping upper).IsProper) :
    (Data.mapping (merge base upper)).at? path = match (Data.mapping upper).at? path with
      | some v => some (overlay ((Data.mapping base).at? path) v)
      | none => if (Data.mapping upper).blocks path then none else (Data.mapping base).at? path := by
  rw [mapping_merge]
  exact at?_overlay hupper

/-- A leaf of a merged mapping is one of the upper mapping, or one of the lower mapping where the upper
one has nothing, neither at the path nor a leaf on the way. -/
lemma leaf?_merge (hupper : (Data.mapping upper).IsProper) :
    (Data.mapping (merge base upper)).leaf? path = ((Data.mapping upper).leaf? path).or
      (if ((Data.mapping upper).at? path).isSome || (Data.mapping upper).blocks path then none
        else (Data.mapping base).leaf? path) := by
  rw [Data.leaf?, Data.leaf?, at?_merge hupper]
  cases (Data.mapping upper).at? path with
  | none => cases (Data.mapping upper).blocks path <;> rfl
  | some v =>
    cases hleaf : v.isLeaf with
    | true => simp [overlay_of_isLeaf hleaf, Option.filter, hleaf]
    | false => simp [Option.filter, hleaf]

/-- The ways in which a mapping comes to stand in a merged one. -/
lemma mapping_of_at?_merge (hupper : (Data.mapping upper).IsProper) {m : Mapping}
    (h : (Data.mapping (merge base upper)).at? path = some (.mapping m)) :
    (∃ below above, (Data.mapping base).at? path = some (.mapping below) ∧
        (Data.mapping upper).at? path = some (.mapping above) ∧ m = merge below above) ∨
      ((∀ below, (Data.mapping base).at? path ≠ some (.mapping below)) ∧
        (Data.mapping upper).at? path = some (.mapping m)) ∨
      ((Data.mapping base).at? path = some (.mapping m) ∧ (Data.mapping upper).at? path = none ∧
        (Data.mapping upper).blocks path = false) := by
  rw [at?_merge hupper] at h
  cases hat : (Data.mapping upper).at? path with
  | none =>
    rw [hat] at h
    obtain ⟨hblocks, hbase⟩ := Option.ite_none_left_eq_some.mp h
    exact Or.inr (Or.inr ⟨hbase, rfl, Bool.eq_false_iff.mpr hblocks⟩)
  | some v =>
    rw [hat] at h
    have hover : overlay ((Data.mapping base).at? path) v = .mapping m := Option.some.inj h
    have hleaf : v.isLeaf = false := by
      rw [← isLeaf_overlay ((Data.mapping base).at? path), hover]
      rfl
    obtain ⟨above, rfl⟩ := Data.isLeaf_eq_false_iff.mp hleaf
    rcases overlay_mapping_cases ((Data.mapping base).at? path) above with
      ⟨below, hbelow, hmerge⟩ | ⟨hbelow, hstays⟩
    · rw [hmerge, Data.mapping.injEq] at hover
      exact Or.inl ⟨below, above, hbelow, rfl, hover.symm⟩
    · rw [hstays] at hover
      refine Or.inr (Or.inl ⟨fun below hat' => ?_, by rw [hover]⟩)
      cases hbelow _ hat'

/-- Proper mappings make a proper one. -/
lemma isProper_merge (hbase : (Data.mapping base).IsProper) (hupper : (Data.mapping upper).IsProper) :
    (Data.mapping (merge base upper)).IsProper := by
  intro path m hm
  rcases mapping_of_at?_merge hupper hm with ⟨below, above, hbelow, -, rfl⟩ | ⟨-, habove⟩ | ⟨hbelow, -⟩
  · exact (hbase path below hbelow).merge above
  · exact hupper path m habove
  · exact hbase path m hbelow

/-- A leaf of a merged mapping is one of the upper one, or one of the lower one where the upper one has
nothing, neither at the path nor a leaf on the way. -/
lemma leaf?_merge_eq_some_iff (hupper : (Data.mapping upper).IsProper) {leaf : Data} :
    (Data.mapping (merge base upper)).leaf? path = some leaf ↔
      (Data.mapping upper).leaf? path = some leaf ∨
        ((Data.mapping base).leaf? path = some leaf ∧ (Data.mapping upper).at? path = none ∧
          ∀ start, start <+: path → start ≠ path → (Data.mapping upper).leaf? start = none) := by
  rw [leaf?_merge hupper, ← Data.blocks_eq_false_iff, Option.or_eq_some_iff,
    Option.ite_none_left_eq_some]
  refine or_congr_right ⟨fun ⟨_, hfree, hbase⟩ => ?_, fun ⟨hbase, hat, hblocks⟩ => ?_⟩
  · rw [Bool.or_eq_true, not_or, Bool.not_eq_true, Bool.not_eq_true, Option.isSome_eq_false_iff,
      Option.isNone_iff_eq_none] at hfree
    exact ⟨hbase, hfree⟩
  · rw [Data.leaf?, hat, hblocks]
    exact ⟨rfl, Bool.false_ne_true, hbase⟩

/-- Where a mapping stands in a merged one, its keys are those of the lower one, and then the new ones
of the upper one. -/
lemma map_fst_of_at?_merge (hupper : (Data.mapping upper).IsProper) {m : Mapping}
    (h : (Data.mapping (merge base upper)).at? path = some (.mapping m)) :
    m.map Prod.fst = (Data.mapping base).keysAt path ++
      newKeys ((Data.mapping base).keysAt path) ((Data.mapping upper).keysAt path) := by
  rcases mapping_of_at?_merge hupper h with
    ⟨below, above, hbelow, habove, rfl⟩ | ⟨hbelow, habove⟩ | ⟨hbelow, habove, -⟩
  · rw [Data.keysAt_of_at? hbelow, Data.keysAt_of_at? habove]
    exact map_fst_merge below (hupper path above habove)
  · rw [Data.keysAt_eq_nil hbelow, Data.keysAt_of_at? habove, newKeys_nil, List.nil_append]
  · rw [Data.keysAt_of_at? hbelow, Data.keysAt_eq_nil (by simp [habove])]
    exact (List.append_nil _).symm

/-- The keys at a path of a merged mapping: none where a leaf of the upper mapping stands, there or on
the way. -/
lemma keysAt_merge (hupper : (Data.mapping upper).IsProper) :
    (Data.mapping (merge base upper)).keysAt path =
      if ((Data.mapping upper).leaf? path).isSome || (Data.mapping upper).blocks path then []
      else (Data.mapping base).keysAt path ++
        newKeys ((Data.mapping base).keysAt path) ((Data.mapping upper).keysAt path) := by
  cases hhidden : ((Data.mapping upper).leaf? path).isSome || (Data.mapping upper).blocks path with
  | true =>
    refine Data.keysAt_eq_nil fun m hm => ?_
    rw [Bool.or_eq_true] at hhidden
    have hnone := Data.not_mapping_of_leaf hhidden
    rcases mapping_of_at?_merge hupper hm with
      ⟨_, above, -, habove, -⟩ | ⟨-, habove⟩ | ⟨-, hat, hblocks⟩
    · exact hnone above habove
    · exact hnone m habove
    · rw [Data.leaf?, hat, hblocks] at hhidden
      rcases hhidden with h | h <;> cases h
  | false =>
    rw [if_neg Bool.false_ne_true]
    rw [Bool.or_eq_false_iff] at hhidden
    by_cases hmapping : ∃ m, (Data.mapping (merge base upper)).at? path = some (.mapping m)
    · obtain ⟨m, hm⟩ := hmapping
      rw [Data.keysAt_of_at? hm]
      exact map_fst_of_at?_merge hupper hm
    · -- no mapping stands in either of the two
      have hat : (Data.mapping (merge base upper)).at? path = _ := at?_merge hupper
      rw [hhidden.2] at hat
      cases habove : (Data.mapping upper).at? path with
      | none =>
        rw [habove] at hat
        rw [Data.keysAt, Data.keysAt, Data.keysAt, hat, habove]
        exact (List.append_nil _).symm
      | some v =>
        rw [habove] at hat
        have hleaf : v.isLeaf = false := by
          rw [Data.leaf?, habove] at hhidden
          simpa [Option.filter] using hhidden.1
        rw [← isLeaf_overlay ((Data.mapping base).at? path)] at hleaf
        obtain ⟨m, hm⟩ := Data.isLeaf_eq_false_iff.mp hleaf
        exact absurd ⟨m, hat.trans (congrArg some hm)⟩ hmapping

end

/-! ## Identity and repetition -/

section

variable {a b c : Mapping}

/-- What is laid over nothing stays as it is. -/
lemma nil_merge (ha : (Data.mapping a).IsProper) : merge [] a = a := by
  have hnil : (Data.mapping []).IsProper := by
    intro path m hm
    cases path with
    | nil =>
      cases hm
      exact List.Pairwise.nil
    | cons k path => cases hm
  have hleaf : ∀ path, (Data.mapping []).leaf? path = none := fun path => by cases path <;> rfl
  have hkeys : ∀ path, (Data.mapping []).keysAt path = [] := fun path => by cases path <;> rfl
  refine Data.mapping.inj (Data.eq_of_paths (isProper_merge hnil ha) ha (fun path => ?_)
    fun path => ?_)
  · rw [leaf?_merge ha, hleaf, ite_self, Option.or_none]
  · rw [keysAt_merge ha, hkeys, newKeys_nil, List.nil_append, ite_eq_right_iff]
    intro hhidden
    exact (Data.keysAt_eq_nil (Data.not_mapping_of_leaf (Bool.or_eq_true _ _ ▸ hhidden))).symm

/-- A mapping that is laid over twice is laid over once. -/
lemma merge_merge_self (ha : (Data.mapping a).IsProper) (hb : (Data.mapping b).IsProper) :
    merge (merge a b) b = merge a b := by
  have hab := isProper_merge ha hb
  refine Data.mapping.inj (Data.eq_of_paths (isProper_merge hab hb) hab (fun path => ?_)
    fun path => ?_)
  · rw [leaf?_merge hb, leaf?_merge hb]
    cases (Data.mapping b).leaf? path with
    | none => split <;> rfl
    | some v => rfl
  · have hold : newKeys ((Data.mapping b).keysAt path) ((Data.mapping b).keysAt path) = [] :=
      newKeys_eq_nil fun key hkey => ⟨key, hkey, Scalar.same_self key⟩
    rw [keysAt_merge hb, keysAt_merge hb]
    split
    · rfl
    · rw [newKeys_append_newKeys, hold]
      exact List.append_nil _

/-! ## Grouping -/

section

variable {path : List Scalar} (hb : (Data.mapping b).IsProper)
  (hab : (Data.mapping a).Agrees (Data.mapping b))
include hb hab

/-- Of mappings that agree, a leaf is one of the upper one, or else one of the lower one. -/
lemma leaf?_merge_of_agrees (hba : (Data.mapping b).Agrees (Data.mapping a)) :
    (Data.mapping (merge a b)).leaf? path =
      ((Data.mapping b).leaf? path).or ((Data.mapping a).leaf? path) := by
  rw [leaf?_merge hb]
  cases hleaf : (Data.mapping b).leaf? path with
  | some v => rfl
  | none =>
    rw [Option.none_or, Option.none_or, ite_eq_right_iff, Bool.or_eq_true]
    rintro (hat | hblocks)
    · obtain ⟨v, hv⟩ := Option.isSome_iff_exists.mp hat
      have hv₀ : v.isLeaf = false := by
        rw [Data.leaf?, hv] at hleaf
        simpa [Option.filter] using hleaf
      obtain ⟨m, rfl⟩ := Data.isLeaf_eq_false_iff.mp hv₀
      exact (hba path m hv).symm
    · rw [Data.leaf?, hab.at?_eq_none hblocks]
      rfl

/-- Of mappings that agree, the keys at a path are those of the lower one, and then the new ones of the
upper one. -/
lemma keysAt_merge_of_agrees :
    (Data.mapping (merge a b)).keysAt path = (Data.mapping a).keysAt path ++
      newKeys ((Data.mapping a).keysAt path) ((Data.mapping b).keysAt path) := by
  rw [keysAt_merge hb, ite_eq_right_iff, Bool.or_eq_true]
  intro hhidden
  have ha : (Data.mapping a).keysAt path = [] := by
    refine Data.keysAt_eq_nil fun m hm => ?_
    rcases hhidden with hleaf | hblocks
    · rw [hab path m hm] at hleaf
      cases hleaf
    · rw [hab.at?_eq_none hblocks] at hm
      cases hm
  have hb : (Data.mapping b).keysAt path = [] :=
    Data.keysAt_eq_nil (Data.not_mapping_of_leaf hhidden)
  rw [ha, hb]
  rfl

end

/-- A merged mapping agrees with what both of its parts agree with. -/
lemma Data.Agrees.merge_left (hb : (Data.mapping b).IsProper) {d : Data}
    (had : (Data.mapping a).Agrees d) (hbd : (Data.mapping b).Agrees d) :
    (Data.mapping (merge a b)).Agrees d := by
  intro path m hm
  rcases mapping_of_at?_merge hb hm with ⟨_, above, -, habove, -⟩ | ⟨-, habove⟩ | ⟨hbelow, -⟩
  · exact hbd path above habove
  · exact hbd path m habove
  · exact had path m hbelow

/-- What agrees with both parts of a merged mapping agrees with it. -/
lemma Data.Agrees.merge_right (hb : (Data.mapping b).IsProper)
    (hab : (Data.mapping a).Agrees (Data.mapping b)) (hba : (Data.mapping b).Agrees (Data.mapping a))
    {d : Data} (hda : d.Agrees (Data.mapping a)) (hdb : d.Agrees (Data.mapping b)) :
    d.Agrees (Data.mapping (merge a b)) := by
  intro path m hm
  rw [leaf?_merge_of_agrees hb hab hba, hda path m hm, hdb path m hm]
  rfl

/-- Of mappings that all agree, the two upper ones can be merged first. -/
lemma merge_merge_of_agree (ha : (Data.mapping a).IsProper) (hb : (Data.mapping b).IsProper)
    (hc : (Data.mapping c).IsProper)
    (hagree : ∀ m ∈ [a, b, c], ∀ m' ∈ [a, b, c], (Data.mapping m).Agrees (Data.mapping m')) :
    merge (merge a b) c = merge a (merge b c) := by
  have hab := hagree a (by simp) b (by simp)
  have hba := hagree b (by simp) a (by simp)
  have hac := hagree a (by simp) c (by simp)
  have hca := hagree c (by simp) a (by simp)
  have hbc := hagree b (by simp) c (by simp)
  have hcb := hagree c (by simp) b (by simp)
  have hbc₀ := isProper_merge hb hc
  have hleft := Data.Agrees.merge_left hb hac hbc
  have hleft' := Data.Agrees.merge_right hb hab hba hca hcb
  have hright := Data.Agrees.merge_right hc hbc hcb hab hac
  have hright' := Data.Agrees.merge_left hc hba hca
  refine Data.mapping.inj (Data.eq_of_paths (isProper_merge (isProper_merge ha hb) hc)
    (isProper_merge ha hbc₀) (fun path => ?_) fun path => ?_)
  · rw [leaf?_merge_of_agrees hc hleft hleft', leaf?_merge_of_agrees hb hab hba,
      leaf?_merge_of_agrees hbc₀ hright hright', leaf?_merge_of_agrees hc hbc hcb, Option.or_assoc]
  · rw [keysAt_merge_of_agrees hc hleft, keysAt_merge_of_agrees hb hab,
      keysAt_merge_of_agrees hbc₀ hright, keysAt_merge_of_agrees hc hbc, newKeys_append_newKeys,
      newKeys_append, List.append_assoc]

/-! ## The laws -/

/-- What is merged holds at every path the leaf of the upper mapping, or that of the lower one where the
upper one has nothing, neither at the path nor a leaf on the way, and no other leaves.  Wherever a
mapping stands in it, the keys are those of the lower one, and then the new ones of the upper one.  The
empty mapping changes nothing, to lay a mapping over twice is to lay it over once, and mappings of which
none has a leaf where another one has a mapping can be merged in either grouping. -/
theorem merge_laws (a b c : Mapping) (ha : (Data.mapping a).IsProper)
    (hb : (Data.mapping b).IsProper) (hc : (Data.mapping c).IsProper) :
    (∀ path leaf, (Data.mapping (merge a b)).leaf? path = some leaf ↔
      (Data.mapping b).leaf? path = some leaf ∨
        ((Data.mapping a).leaf? path = some leaf ∧ (Data.mapping b).at? path = none ∧
          ∀ start, start <+: path → start ≠ path → (Data.mapping b).leaf? start = none)) ∧
    (∀ path m, (Data.mapping (merge a b)).at? path = some (.mapping m) →
      m.map Prod.fst = (Data.mapping a).keysAt path ++
        newKeys ((Data.mapping a).keysAt path) ((Data.mapping b).keysAt path)) ∧
    merge [] a = a ∧ merge a [] = a ∧ merge (merge a b) b = merge a b ∧
    ((∀ m ∈ [a, b, c], ∀ m' ∈ [a, b, c], (Data.mapping m).Agrees (Data.mapping m')) →
      merge (merge a b) c = merge a (merge b c)) := by
  exact ⟨fun path leaf => leaf?_merge_eq_some_iff hb, fun path m => map_fst_of_at?_merge hb,
    nil_merge ha, by rw [merge], merge_merge_self ha hb, merge_merge_of_agree ha hb hc⟩

end

/-- A configuration of one setting of the indices. -/
def sampleLayer (name : String) (n : Int) : Mapping := [("docs", .mapping [(name, .scalar (.int n))])]

/-- Three layers with two settings: they can be merged in either grouping, the setting that came first
stays, and it stays in front. -/
theorem merge_laws_sample :
    (∀ name n, (Data.mapping (sampleLayer name n)).IsProper) ∧
      (∀ name n name' n', (Data.mapping (sampleLayer name n)).Agrees
        (.mapping (sampleLayer name' n'))) ∧
      merge (merge (sampleLayer "timeout" 5) (sampleLayer "age" 7)) (sampleLayer "timeout" 9) =
        merge (sampleLayer "timeout" 5) (merge (sampleLayer "age" 7) (sampleLayer "timeout" 9)) ∧
      (Data.mapping (merge (sampleLayer "timeout" 5) (sampleLayer "age" 7))).leaf?
        ["docs", "timeout"] = some (.scalar (.int 5)) ∧
      ∃ m, (Data.mapping (merge (sampleLayer "timeout" 5) (sampleLayer "age" 7))).at? ["docs"] =
        some (.mapping m) ∧ m.map Prod.fst = [.text "timeout", .text "age"] := by
  have hproper : ∀ name n, (Data.mapping (sampleLayer name n)).IsProper := fun name n =>
    Data.isProper_singleton (Data.isProper_singleton (Data.isProper_of_isLeaf rfl) _) _
  have hagrees : ∀ name n name' n', (Data.mapping (sampleLayer name n)).Agrees
      (.mapping (sampleLayer name' n')) := fun name n name' n' =>
    Data.agrees_singleton (Data.agrees_singleton (Data.agrees_of_isLeaf rfl _) _ _) _ _
  obtain ⟨hleaf, hkeys, -, -, -, hgroup⟩ := merge_laws _ _ _ (hproper "timeout" 5)
    (hproper "age" 7) (hproper "timeout" 9)
  refine ⟨hproper, hagrees, hgroup ?_,
    (hleaf _ _).mpr (Or.inr ⟨rfl, rfl, Data.blocks_eq_false_iff.mp rfl⟩), ?_⟩
  · have hlayer : ∀ m ∈ [sampleLayer "timeout" 5, sampleLayer "age" 7, sampleLayer "timeout" 9],
        ∃ name n, m = sampleLayer name n := by
      simp only [List.forall_mem_cons]
      exact ⟨⟨_, _, rfl⟩, ⟨_, _, rfl⟩, ⟨_, _, rfl⟩, List.forall_mem_nil _⟩
    intro m hm m' hm'
    obtain ⟨name, n, rfl⟩ := hlayer m hm
    obtain ⟨name', n', rfl⟩ := hlayer m' hm'
    exact hagrees name n name' n'
  · have hat : (Data.mapping (merge (sampleLayer "timeout" 5) (sampleLayer "age" 7))).at? ["docs"] =
        some (.mapping [("timeout", .scalar (.int 5)), ("age", .scalar (.int 7))]) := by
      rfl
    exact ⟨_, hat, (hkeys _ _ hat).trans rfl⟩

end EditorDocs.Config
