import EditorDocs.Proofs.Json.Nesting
import EditorDocs.Proofs.Json.Reread
import EditorDocs.Proofs.World.Action
import EditorDocs.Server

/-!
# What a host reads of a response

A response is encoded as a line, and the host reads the line.  Reading joins the halves of a surrogate
pair that stand one behind the other, which a text may hold, and this is all that can happen to a response
on its way: a text without such halves is left as it is (`Text.joined_eq_self_iff`), and what has been
joined has none any more (`Json.Value.isUnpaired_joined`).

So a response made of the values that JSON has, numbers with a fraction apart, comes to the host exactly if
nowhere in it two halves stand one behind the other (`Server.read_encode`).  It may be nested as deeply as
writer and reader go.
-/

namespace EditorDocs

open Json (Value Style readLine integerLimit digitBound nestingOfItems_le_iff
  nestingOfMembers_le_iff faultItems?_eq_none_iff faultMembers?_eq_none_iff)

/-! ## Texts without pairs -/

/-- No two code points one behind the other are the halves of a surrogate pair. -/
def Text.IsUnpaired (t : Text) : Prop :=
  t.IsChain fun a b => (a.isHighSurrogate && b.isLowSurrogate) = false

instance (t : Text) : Decidable t.IsUnpaired :=
  inferInstanceAs (Decidable (List.IsChain _ t))

/-- A text is left as it is by joining exactly if there is nothing to join. -/
theorem Text.joined_eq_self_iff {t : Text} : t.joined = t ↔ t.IsUnpaired := by
  unfold IsUnpaired
  induction t using Text.joined.induct with
  | case1 => simp [joined]
  | case2 c => simp [joined]
  | case3 a b t hpair ih =>
    rw [joined, if_pos hpair, List.isChain_cons_cons]
    constructor
    · -- two halves stand for a character that is none of them
      intro h
      obtain ⟨ha, hb⟩ : a.isHighSurrogate = true ∧ b.isLowSurrogate = true := by simpa using hpair
      have hlarge := CodePoint.le_ofSurrogates ha hb
      rw [List.head_eq_of_cons_eq h] at hlarge
      simp only [CodePoint.isHighSurrogate, Bool.and_eq_true, decide_eq_true_eq] at ha
      omega
    · rintro ⟨hnone, -⟩
      rw [hpair] at hnone
      cases hnone
  | case4 a b t hpair ih =>
    rw [joined, if_neg hpair, List.isChain_cons_cons, List.cons_inj_right, ih]
    exact ⟨fun h => ⟨by simpa using hpair, h⟩, fun h => h.2⟩

/-- What stands first in a joined text is no second half, unless it stood first before. -/
lemma Text.isLowSurrogate_of_head?_joined {t : Text} {c : CodePoint} (h : c ∈ t.joined.head?)
    (hlow : c.isLowSurrogate = true) : c ∈ t.head? := by
  induction t using Text.joined.induct with
  | case1 => cases h
  | case2 c' => exact h
  | case3 a b t hpair _ =>
    rw [joined, if_pos hpair] at h
    obtain ⟨ha, hb⟩ : a.isHighSurrogate = true ∧ b.isLowSurrogate = true := by simpa using hpair
    have hlarge := CodePoint.le_ofSurrogates ha hb
    rw [Option.some.inj h] at hlarge
    simp only [CodePoint.isLowSurrogate, Bool.and_eq_true, decide_eq_true_eq] at hlow
    omega
  | case4 a b t hpair _ =>
    rw [joined, if_neg hpair] at h
    exact h

/-- There is nothing left to join in a text that has been joined. -/
theorem Text.isUnpaired_joined (t : Text) : t.joined.IsUnpaired := by
  unfold IsUnpaired
  induction t using Text.joined.induct with
  | case1 => simp [joined]
  | case2 c => simp [joined]
  | case3 a b t hpair ih =>
    rw [joined, if_pos hpair, List.isChain_cons]
    refine ⟨fun c _ => ?_, ih⟩
    obtain ⟨ha, hb⟩ : a.isHighSurrogate = true ∧ b.isLowSurrogate = true := by simpa using hpair
    have hlarge := CodePoint.le_ofSurrogates ha hb
    have hnot : (CodePoint.ofSurrogates a b).isHighSurrogate = false := by
      simp only [CodePoint.isHighSurrogate, Bool.and_eq_false_iff, decide_eq_false_iff_not]
      omega
    rw [hnot, Bool.false_and]
  | case4 a b t hpair ih =>
    rw [joined, if_neg hpair, List.isChain_cons]
    refine ⟨fun c hc => ?_, ih⟩
    by_contra hjoined
    obtain ⟨ha, hlow⟩ : a.isHighSurrogate = true ∧ c.isLowSurrogate = true := by simpa using hjoined
    have hfirst : b = c := Option.some.inj (isLowSurrogate_of_head?_joined hc hlow)
    exact hpair (by rw [ha, hfirst, hlow]; rfl)

/-! ## Values without pairs -/

namespace Json

/-- No text in the value has two halves of a surrogate pair one behind the other, and no name has. -/
inductive Value.IsUnpaired : Value → Prop where
  /-- The null value. -/
  | null : IsUnpaired .null
  /-- A truth value. -/
  | bool (b : Bool) : IsUnpaired (.bool b)
  /-- An integer. -/
  | int (n : Int) : IsUnpaired (.int n)
  /-- A number with a fraction or an exponent. -/
  | float (x : Binary64) : IsUnpaired (.float x)
  /-- A text without pairs. -/
  | string {t : Text} (h : t.IsUnpaired) : IsUnpaired (.string t)
  /-- A list of such values. -/
  | list {vs : List Value} (h : ∀ v ∈ vs, IsUnpaired v) : IsUnpaired (.list vs)
  /-- An object of such values under names without pairs. -/
  | object {ms : List (Text × Value)} (hnames : ∀ m ∈ ms, m.1.IsUnpaired)
    (h : ∀ m ∈ ms, IsUnpaired m.2) : IsUnpaired (.object ms)
  /-- A collection of such values. -/
  | unordered {vs : List Value} (h : ∀ v ∈ vs, IsUnpaired v) : IsUnpaired (.unordered vs)

mutual

/-- There is nothing left to join in a value that has been joined. -/
theorem Value.isUnpaired_joined : (v : Value) → v.joined.IsUnpaired
  | .null => .null
  | .bool b => .bool b
  | .int n => .int n
  | .float x => .float x
  | .string t => .string t.isUnpaired_joined
  | .list items => .list (isUnpaired_joinedItems items)
  | .object members =>
    .object (fun m hm => (isUnpaired_joinedMembers members m (Table.mem_of_mem_ofPairs hm)).1)
      fun m hm => (isUnpaired_joinedMembers members m (Table.mem_of_mem_ofPairs hm)).2
  | .unordered items => .unordered (isUnpaired_joinedItems items)

/-- So it is for items. -/
theorem isUnpaired_joinedItems : (vs : List Value) → ∀ v ∈ joinedItems vs, v.IsUnpaired
  | [] => List.forall_mem_nil _
  | v :: rest => List.forall_mem_cons.mpr ⟨v.isUnpaired_joined, isUnpaired_joinedItems rest⟩

/-- So it is for members. -/
theorem isUnpaired_joinedMembers : (ms : List (Text × Value)) →
    ∀ m ∈ joinedMembers ms, m.1.IsUnpaired ∧ m.2.IsUnpaired
  | [] => List.forall_mem_nil _
  | (name, v) :: rest => List.forall_mem_cons.mpr
    ⟨⟨name.isUnpaired_joined, v.isUnpaired_joined⟩, isUnpaired_joinedMembers rest⟩

end

/-- Items are left as they are if each of them is. -/
lemma joinedItems_eq_self {vs : List Value} (h : ∀ v ∈ vs, v.joined = v) : joinedItems vs = vs := by
  induction vs with
  | nil => rfl
  | cons v rest ih =>
    obtain ⟨hv, hrest⟩ := List.forall_mem_cons.mp h
    rw [joinedItems, hv, ih hrest]

/-- Members are left as they are if their names and values are. -/
lemma joinedMembers_eq_self {ms : List (Text × Value)} (hnames : ∀ m ∈ ms, m.1.joined = m.1)
    (h : ∀ m ∈ ms, m.2.joined = m.2) : joinedMembers ms = ms := by
  induction ms with
  | nil => rfl
  | cons m rest ih =>
    obtain ⟨name, v⟩ := m
    obtain ⟨hname, hothers⟩ := List.forall_mem_cons.mp hnames
    obtain ⟨hv, hrest⟩ := List.forall_mem_cons.mp h
    rw [joinedMembers, hname, hv, ih hothers hrest]

/-! ## What can be sent -/

/-- More digits make greater numbers. -/
lemma digitBound_mono {a b : Nat} (h : a ≤ b) : digitBound a ≤ digitBound b :=
  Nat.pow_le_pow_right (Nat.succ_pos 9) h

/-- The value is made of null values, truth values, integers of few digits, texts, lists, and objects
with distinct names. -/
inductive Value.IsSendable : Value → Prop where
  /-- The null value. -/
  | null : IsSendable .null
  /-- A truth value. -/
  | bool (b : Bool) : IsSendable (.bool b)
  /-- An integer with no more digits than a text may have. -/
  | int {n : Int} (h : n.natAbs < digitBound integerLimit) : IsSendable (.int n)
  /-- A text. -/
  | string (t : Text) : IsSendable (.string t)
  /-- A list of such values. -/
  | list {vs : List Value} (h : ∀ v ∈ vs, IsSendable v) : IsSendable (.list vs)
  /-- An object of such values under distinct names. -/
  | object {ms : List (Text × Value)} (hnames : (Table.keys ms).Nodup)
    (h : ∀ m ∈ ms, IsSendable m.2) : IsSendable (.object ms)

namespace Value.IsSendable

variable {v : Value}

/-- What can be sent is of kinds that are read as they are written. -/
lemma isExact (h : v.IsSendable) : v.IsExact := by
  induction h with
  | null => exact .null
  | bool b => exact .bool b
  | int _ => exact .int _
  | string t => exact .string t
  | list _ ih => exact .list ih
  | object _ _ ih => exact .object ih

/-- Only its depth can keep it from being written. -/
theorem fault?_eq_none_iff (h : v.IsSendable) {limit : Nat} :
    v.fault? limit = none ↔ v.nesting ≤ limit := by
  -- on how the value is made; a container takes one from the limit
  induction h generalizing limit with
  | null => exact iff_of_true rfl (Nat.zero_le limit)
  | bool b => exact iff_of_true rfl (Nat.zero_le limit)
  | int hfew => exact iff_of_true (fault?_int hfew) (Nat.zero_le limit)
  | string t => exact iff_of_true rfl (Nat.zero_le limit)
  | list h ih =>
    rw [nesting]
    cases limit with
    | zero => exact iff_of_false (Option.some_ne_none _) (Nat.not_succ_le_zero _)
    | succ limit =>
      rw [Nat.succ_le_succ_iff, nestingOfItems_le_iff]
      exact faultItems?_eq_none_iff.trans (forall₂_congr fun v hv => ih v hv)
  | object hnames h ih =>
    rw [nesting]
    cases limit with
    | zero => exact iff_of_false (Option.some_ne_none _) (Nat.not_succ_le_zero _)
    | succ limit =>
      rw [Nat.succ_le_succ_iff, nestingOfMembers_le_iff]
      exact faultMembers?_eq_none_iff.trans (forall₂_congr fun m hm => ih m hm)

/-- It is left as it is by joining exactly if there is nothing to join. -/
theorem joined_eq_self_iff (h : v.IsSendable) : v.joined = v ↔ v.IsUnpaired := by
  refine ⟨fun hsame => hsame ▸ v.isUnpaired_joined, fun hunpaired => ?_⟩
  induction h with
  | null => rfl
  | bool b => rfl
  | int _ => rfl
  | string t =>
    cases hunpaired with
    | string ht => rw [joined, Text.joined_eq_self_iff.mpr ht]
  | list h ih =>
    cases hunpaired with
    | list hvs => rw [joined, joinedItems_eq_self fun v hv => ih v hv (hvs v hv)]
  | object hnames h ih =>
    cases hunpaired with
    | object hunpairedNames hms =>
      have hmembers := joinedMembers_eq_self
        (fun m hm => Text.joined_eq_self_iff.mpr (hunpairedNames m hm)) fun m hm => ih m hm (hms m hm)
      -- names that are distinct stay where they are
      rw [joined, hmembers, Table.ofPairs_eq_self hnames]

end Value.IsSendable

end Json

/-! ## Responses -/

namespace Server

/-- A response of the kinds of JSON, with distinct names in its objects and no integer of too many digits,
is written within a limit exactly if it is nested no deeper, and a reader with this limit gets it from
there exactly if no halves of surrogate pairs stand one behind the other in it.  So the line as which it
is encoded is read, as requests are, as the same response with its members in the same order, as long
as it is nested no deeper than writer and reader go. -/
theorem read_encode {v : Value} (hv : v.IsSendable) :
    (∀ limit, (v.fault? limit = none ↔ v.nesting ≤ limit) ∧
      (v.nesting ≤ limit →
        (Json.Line.value limit (v.render .line) = .ok (v, []) ↔ v.IsUnpaired))) ∧
    ∀ written read, v.nesting ≤ written → v.nesting ≤ read → ∀ w : World,
      (encode written v).exec w = (.ok (v.render .line), w) ∧
        (readLine read (v.render .line) = .ok v ↔ v.IsUnpaired) := by
  refine ⟨fun limit => ⟨hv.fault?_eq_none_iff, fun hfits => ?_⟩,
    fun written read hwritten hread w => ⟨?_, ?_⟩⟩
  · obtain ⟨-, -, -, -, -, hread⟩ :=
      hv.isExact.rereads le_rfl (hv.fault?_eq_none_iff.mpr hfits)
    have hend := hread [] (by simp [Json.Line.Follows])
    rw [List.append_nil] at hend
    rw [hend, Except.ok.injEq, Prod.mk.injEq, eq_self, and_true, hv.joined_eq_self_iff]
  · rw [encode, hv.fault?_eq_none_iff.mpr hwritten]
    rfl
  · rw [Json.readLine_render hv.isExact (hv.fault?_eq_none_iff.mpr hread), Except.ok.injEq,
      hv.joined_eq_self_iff]

/-- A response with a quote, a line break, a character past `0xFFFF`, and halves of a pair the wrong way
round in a name, comes to the host as it is.  A pair that stands in two halves does not. -/
theorem read_encode_sample :
    let halves : Text := [CodePoint.ofNat 0xDE00, CodePoint.ofNat 0xD83D]
    let v : Value := okResponse (.int 7) (.list [.string ("\"\n" : Text), .int (-12),
      .object [(halves, .null), ([CodePoint.ofNat 0x1F600], .bool false)]])
    let pair : Value := .string halves.reverse
    v.IsSendable ∧ v.nesting = 3 ∧ pair.IsSendable ∧
      (∀ w : World, (encode 3 v).exec w = (.ok (v.render .line), w)) ∧
      readLine 3 (v.render .line) = .ok v ∧ readLine 3 (pair.render .line) ≠ .ok pair := by
  intro halves v pair
  let w := World.still (.directory []) fun _ => .interruption
  have hsmall : ∀ n : Int, n.natAbs < digitBound 2 → n.natAbs < digitBound integerLimit := fun n hn =>
    hn.trans_le (Json.digitBound_mono (by decide))
  have hobject : (Value.object [(halves, .null), ([CodePoint.ofNat 0x1F600], .bool false)]).IsSendable :=
    .object (by decide) (by
      rw [List.forall_mem_cons, List.forall_mem_singleton]
      exact ⟨.null, .bool false⟩)
  have hresult : (Value.list [.string ("\"\n" : Text), .int (-12),
      .object [(halves, .null), ([CodePoint.ofNat 0x1F600], .bool false)]]).IsSendable :=
    .list (by
      rw [List.forall_mem_cons, List.forall_mem_cons, List.forall_mem_singleton]
      exact ⟨.string _, .int (hsmall _ (by decide)), hobject⟩)
  have hv : v.IsSendable := .object (by decide) (by
    rw [List.forall_mem_cons, List.forall_mem_cons, List.forall_mem_singleton]
    exact ⟨.int (hsmall _ (by decide)), .bool true, hresult⟩)
  have hpair : pair.IsSendable := .string _
  have hunpaired : v.IsUnpaired := by
    refine .object (by decide) ?_
    rw [List.forall_mem_cons, List.forall_mem_cons, List.forall_mem_singleton]
    refine ⟨.int 7, .bool true, .list ?_⟩
    rw [List.forall_mem_cons, List.forall_mem_cons, List.forall_mem_singleton]
    refine ⟨.string (by decide), .int (-12), .object (by decide) ?_⟩
    rw [List.forall_mem_cons, List.forall_mem_singleton]
    exact ⟨.null, .bool false⟩
  have hfits : v.nesting ≤ 3 := le_rfl
  have hread := (read_encode hv).2 3 3 hfits hfits
  have hsplit := ((read_encode hpair).2 3 3 (Nat.zero_le 3) (Nat.zero_le 3) w).2
  refine ⟨hv, rfl, hpair, fun w => (hread w).1, (hread w).2.mpr hunpaired, fun hsame => ?_⟩
  obtain ⟨t, ht, hnot⟩ : ∃ t : Text, pair = .string t ∧ ¬ t.IsUnpaired := ⟨_, rfl, by decide⟩
  rw [ht] at hsplit hsame
  cases hsplit.mp hsame with
  | string h => exact hnot h

end Server

end EditorDocs
