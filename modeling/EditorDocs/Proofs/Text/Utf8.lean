import EditorDocs.Text.Utf8
import Mathlib.Algebra.Group.Nat.Defs
import Mathlib.Tactic.Lemma

/-!
# Encoding and decoding

The bytes that spell a scalar value are read as one piece, so decoding gives back every text without
surrogates (`Utf8.decode_encodeAll`).  It gives no others (`Utf8.isScalar_of_decode`).

`Utf8.Reads` has one case for each way in which a byte can be read.  What holds of all pieces follows by
induction on it; above all, no byte is lost in reading, since each character is spelled by the bytes
that were read for it (`Utf8.bytes_pieces`).
-/

namespace EditorDocs

/-- A code point is the one with its number. -/
@[simp] lemma CodePoint.ofNat_val (c : CodePoint) : CodePoint.ofNat c.val = c := by
  simp [CodePoint.ofNat, c.isLt]

namespace Utf8

/-! ## Pieces -/

/-- A byte that does not continue the character that was begun starts anew. -/
lemma piecesAfter_of_not_range {p : Begun} {x : UInt8} (h : ¬ (p.low ≤ x.toNat ∧ x.toNat ≤ p.high))
    (done : List Piece) (rest : Bytes) :
    piecesAfter done (some p) (x :: rest) =
      piecesAfter (.fault .invalidContinuation p.read.reverse :: done) none (x :: rest) := by
  simp only [piecesAfter, if_neg h]

/-- The pieces that have been read stand before those that follow. -/
lemma piecesAfter_eq (done : List Piece) (b : Option Begun) (bytes : Bytes) :
    piecesAfter done b bytes = done.reverse ++ piecesAfter [] b bytes := by
  induction bytes generalizing done b with
  | nil => cases b <;> simp [piecesAfter]
  | cons x rest ih =>
    -- a byte that starts anew, to which one of the cases below leads back
    have hstart : ∀ done, piecesAfter done none (x :: rest) =
        done.reverse ++ piecesAfter [] none (x :: rest) := by
      intro done
      rw [piecesAfter, piecesAfter]
      cases Start.ofByte x with
      | whole c =>
        simp only
        rw [ih (.char c 1 :: done), ih [.char c 1]]
        simp
      | begun p => exact ih done (some p)
      | none =>
        simp only
        rw [ih (.fault .invalidStart [x] :: done), ih [.fault .invalidStart [x]]]
        simp
    cases b with
    | none => exact hstart done
    | some p =>
      by_cases hrange : p.low ≤ x.toNat ∧ x.toNat ≤ p.high
      · rw [piecesAfter, piecesAfter, if_pos hrange, if_pos hrange]
        simp only
        split
        · rw [ih (_ :: done), ih [_]]
          simp
        · exact ih done _
      · rw [piecesAfter_of_not_range hrange, piecesAfter_of_not_range hrange,
          hstart (_ :: done), hstart [_]]
        simp

/-- The bytes are read as these pieces, after the start of a character if one has been begun. -/
inductive Reads : Option Begun → Bytes → List Piece → Prop where
  /-- Nothing is left. -/
  | done : Reads none [] []
  /-- The input ends in a character. -/
  | cut {p} : Reads (some p) [] [.fault .unexpectedEnd p.read.reverse]
  /-- A byte is a character. -/
  | whole {x c rest ps} (hx : Start.ofByte x = .whole c) (hrest : Reads none rest ps) :
      Reads none (x :: rest) (.char c 1 :: ps)
  /-- A byte begins a character. -/
  | begun {x p rest ps} (hx : Start.ofByte x = .begun p) (hrest : Reads (some p) rest ps) :
      Reads none (x :: rest) ps
  /-- A byte begins no character. -/
  | wrong {x rest ps} (hx : Start.ofByte x = .none) (hrest : Reads none rest ps) :
      Reads none (x :: rest) (.fault .invalidStart [x] :: ps)
  /-- A byte continues the character, and more are due. -/
  | next {p x rest ps} (hrange : p.low ≤ x.toNat ∧ x.toNat ≤ p.high) (hdue : 1 < p.due)
      (hrest : Reads (some ⟨x :: p.read, p.value * 0x40 + (x.toNat - 0x80), p.due - 1, 0x80, 0xBF⟩)
        rest ps) : Reads (some p) (x :: rest) ps
  /-- A byte ends the character. -/
  | last {p x rest ps} (hrange : p.low ≤ x.toNat ∧ x.toNat ≤ p.high) (hdue : p.due ≤ 1)
      (hrest : Reads none rest ps) :
      Reads (some p) (x :: rest)
        (.char (CodePoint.ofNat (p.value * 0x40 + (x.toNat - 0x80))) (p.read.length + 1) :: ps)
  /-- A byte does not continue the character, and starts anew. -/
  | anew {p x rest ps} (hrange : ¬ (p.low ≤ x.toNat ∧ x.toNat ≤ p.high))
      (hrest : Reads none (x :: rest) ps) :
      Reads (some p) (x :: rest) (.fault .invalidContinuation p.read.reverse :: ps)

/-- All bytes are read, and as these pieces. -/
lemma reads_piecesAfter (b : Option Begun) (bytes : Bytes) :
    Reads b bytes (piecesAfter [] b bytes) := by
  induction bytes generalizing b with
  | nil =>
    cases b with
    | none => exact .done
    | some p => exact .cut
  | cons x rest ih =>
    have hstart : Reads none (x :: rest) (piecesAfter [] none (x :: rest)) := by
      rw [piecesAfter]
      cases hx : Start.ofByte x with
      | whole c =>
        simp only
        rw [piecesAfter_eq]
        exact .whole hx (ih none)
      | begun p => exact .begun hx (ih (some p))
      | none =>
        simp only
        rw [piecesAfter_eq]
        exact .wrong hx (ih none)
    cases b with
    | none => exact hstart
    | some p =>
      by_cases hrange : p.low ≤ x.toNat ∧ x.toNat ≤ p.high
      · rw [piecesAfter, if_pos hrange]
        simp only
        split
        · rename_i hdue
          rw [piecesAfter_eq]
          exact .last hrange hdue (ih none)
        · rename_i hdue
          exact .next hrange (by omega) (ih _)
      · rw [piecesAfter_of_not_range hrange, piecesAfter_eq]
        exact .anew hrange hstart

/-- The number of a byte below 256. -/
lemma toNat_ofNat {n : Nat} (h : n < 256) : (UInt8.ofNat n).toNat = n := by
  rw [UInt8.toNat_ofNat']
  exact Nat.mod_eq_of_lt h

/-- The bytes of a character outside of ASCII are outside of it. -/
lemma le_of_mem_encodeNat {n : Nat} (h : 0x80 ≤ n) (hlt : n < 0x110000) {b : UInt8}
    (hb : b ∈ encodeNat n) : 0x80 ≤ b.toNat := by
  unfold encodeNat at hb
  rw [if_neg (by omega)] at hb
  split at hb
  · simp only [List.mem_cons, List.not_mem_nil, or_false] at hb
    rcases hb with rfl | rfl <;> rw [toNat_ofNat (by omega)] <;> omega
  split at hb
  · simp only [List.mem_cons, List.not_mem_nil, or_false] at hb
    rcases hb with rfl | rfl | rfl <;> rw [toNat_ofNat (by omega)] <;> omega
  · simp only [List.mem_cons, List.not_mem_nil, or_false] at hb
    rcases hb with rfl | rfl | rfl | rfl <;> rw [toNat_ofNat (by omega)] <;> omega

/-- A byte of a range that a begun character waits for continues it. -/
lemma piecesAfter_continue {done : List Piece} {p : Begun} {b : UInt8} {rest : Bytes}
    (hrange : p.low ≤ b.toNat ∧ b.toNat ≤ p.high) (hdue : 1 < p.due) :
    piecesAfter done (some p) (b :: rest) =
      piecesAfter done
        (some ⟨b :: p.read, p.value * 0x40 + (b.toNat - 0x80), p.due - 1, 0x80, 0xBF⟩) rest := by
  rw [piecesAfter, if_pos hrange]
  simp only
  rw [if_neg (by omega)]

/-- The last byte that a begun character waits for ends it. -/
lemma piecesAfter_end {done : List Piece} {p : Begun} {b : UInt8} {rest : Bytes}
    (hrange : p.low ≤ b.toNat ∧ b.toNat ≤ p.high) (hdue : p.due ≤ 1) :
    piecesAfter done (some p) (b :: rest) =
      piecesAfter (.char (CodePoint.ofNat (p.value * 0x40 + (b.toNat - 0x80)))
        (p.read.length + 1) :: done) none rest := by
  rw [piecesAfter, if_pos hrange]
  simp only
  rw [if_pos hdue]

/-- A byte that begins a character waits for the others. -/
lemma piecesAfter_begin {done : List Piece} {b : UInt8} {p : Begun} {rest : Bytes}
    (h : Start.ofByte b = .begun p) :
    piecesAfter done none (b :: rest) = piecesAfter done (some p) rest := by
  rw [piecesAfter, h]

/-- What a first byte of two begins. -/
lemma ofByte_two {n : Nat} (h : 0xC2 ≤ n) (h' : n < 0xE0) :
    Start.ofByte (UInt8.ofNat n) = .begun ⟨[UInt8.ofNat n], n - 0xC0, 1, 0x80, 0xBF⟩ := by
  have hn : (UInt8.ofNat n).toNat = n := toNat_ofNat (by omega)
  simp only [Start.ofByte, hn]
  rw [if_neg (by omega), if_neg (by omega), if_pos h']

/-- What a first byte of three begins. -/
lemma ofByte_three {n : Nat} (h : 0xE0 ≤ n) (h' : n < 0xF0) :
    Start.ofByte (UInt8.ofNat n) = .begun ⟨[UInt8.ofNat n], n - 0xE0, 2,
      if n = 0xE0 then 0xA0 else 0x80, if n = 0xED then 0x9F else 0xBF⟩ := by
  have hn : (UInt8.ofNat n).toNat = n := toNat_ofNat (by omega)
  simp only [Start.ofByte, hn]
  rw [if_neg (by omega), if_neg (by omega), if_neg (by omega), if_pos h']

/-- What a first byte of four begins. -/
lemma ofByte_four {n : Nat} (h : 0xF0 ≤ n) (h' : n < 0xF5) :
    Start.ofByte (UInt8.ofNat n) = .begun ⟨[UInt8.ofNat n], n - 0xF0, 3,
      if n = 0xF0 then 0x90 else 0x80, if n = 0xF4 then 0x8F else 0xBF⟩ := by
  have hn : (UInt8.ofNat n).toNat = n := toNat_ofNat (by omega)
  simp only [Start.ofByte, hn]
  rw [if_neg (by omega), if_neg (by omega), if_neg (by omega), if_neg (by omega), if_pos h']

/-- A byte of ASCII is a character. -/
lemma ofByte_ascii {b : UInt8} (h : b.toNat < 0x80) :
    Start.ofByte b = .whole (CodePoint.ofNat b.toNat) := by
  simp only [Start.ofByte]
  rw [if_pos h]

/-- A byte that is a character is one of ASCII. -/
lemma ofByte_eq_whole {x : UInt8} {c : CodePoint} (h : Start.ofByte x = .whole c) :
    x.toNat < 0x80 ∧ c = CodePoint.ofNat x.toNat := by
  unfold Start.ofByte at h
  simp only at h
  split at h
  · rename_i hlt
    cases h
    exact ⟨hlt, rfl⟩
  split at h
  · cases h
  split at h
  · cases h
  split at h
  · cases h
  split at h <;> cases h

/-- A byte that begins a character is the first of two, of three or of four. -/
lemma ofByte_eq_begun {x : UInt8} {p : Begun} (h : Start.ofByte x = .begun p) :
    (0xC2 ≤ x.toNat ∧ x.toNat < 0xE0 ∧ p = ⟨[x], x.toNat - 0xC0, 1, 0x80, 0xBF⟩) ∨
    (0xE0 ≤ x.toNat ∧ x.toNat < 0xF0 ∧ p = ⟨[x], x.toNat - 0xE0, 2,
      if x.toNat = 0xE0 then 0xA0 else 0x80, if x.toNat = 0xED then 0x9F else 0xBF⟩) ∨
    (0xF0 ≤ x.toNat ∧ x.toNat < 0xF5 ∧ p = ⟨[x], x.toNat - 0xF0, 3,
      if x.toNat = 0xF0 then 0x90 else 0x80, if x.toNat = 0xF4 then 0x8F else 0xBF⟩) := by
  unfold Start.ofByte at h
  simp only at h
  split at h
  · cases h
  split at h
  · cases h
  split at h
  · cases h
    exact Or.inl ⟨by omega, by omega, rfl⟩
  split at h
  · cases h
    exact Or.inr (Or.inl ⟨by omega, by omega, rfl⟩)
  split at h
  · cases h
    exact Or.inr (Or.inr ⟨by omega, by omega, rfl⟩)
  · cases h

/-- The bytes of a scalar value are one piece. The cases are the lengths of the spelling. -/
lemma piecesAfter_encodeNat {c : CodePoint} (hc : c.isSurrogate = false) (done : List Piece)
    (rest : Bytes) :
    piecesAfter done none (encodeNat c.val ++ rest) =
      piecesAfter (.char c (encodeNat c.val).length :: done) none rest := by
  have hlt := c.isLt
  have hscalar : c.val < 0xD800 ∨ 0xE000 ≤ c.val := by
    simp only [CodePoint.isSurrogate, Bool.and_eq_false_iff, decide_eq_false_iff_not] at hc
    omega
  unfold encodeNat
  by_cases h1 : c.val < 0x80
  · have hn : (UInt8.ofNat c.val).toNat = c.val := toNat_ofNat (by omega)
    rw [if_pos h1, List.singleton_append, piecesAfter, ofByte_ascii (by omega)]
    simp [hn]
  rw [if_neg h1]
  by_cases h2 : c.val < 0x800
  · have hb : (UInt8.ofNat (0x80 + c.val % 0x40)).toNat = 0x80 + c.val % 0x40 :=
      toNat_ofNat (by omega)
    have hvalue : (0xC0 + c.val / 0x40 - 0xC0) * 0x40 + (0x80 + c.val % 0x40 - 0x80) = c.val := by
      omega
    rw [if_pos h2, List.cons_append, List.singleton_append,
      piecesAfter_begin (ofByte_two (by omega) (by omega)),
      piecesAfter_end (by simp only [hb]; omega) (by simp)]
    simp only [hb, hvalue, CodePoint.ofNat_val]
    rfl
  rw [if_neg h2]
  by_cases h3 : c.val < 0x10000
  · have hb : (UInt8.ofNat (0x80 + c.val / 0x40 % 0x40)).toNat = 0x80 + c.val / 0x40 % 0x40 :=
      toNat_ofNat (by omega)
    have hd : (UInt8.ofNat (0x80 + c.val % 0x40)).toNat = 0x80 + c.val % 0x40 :=
      toNat_ofNat (by omega)
    have hvalue : ((0xE0 + c.val / 0x1000 - 0xE0) * 0x40 + (0x80 + c.val / 0x40 % 0x40 - 0x80)) *
        0x40 + (0x80 + c.val % 0x40 - 0x80) = c.val := by
      omega
    rw [if_pos h3, List.cons_append, List.cons_append, List.singleton_append,
      piecesAfter_begin (ofByte_three (by omega) (by omega)),
      piecesAfter_continue (by simp only [hb]; split <;> split <;> omega) (by simp),
      piecesAfter_end (by simp only [hd]; omega) (by simp)]
    simp only [hb, hd, hvalue, CodePoint.ofNat_val]
    rfl
  rw [if_neg h3]
  have ha : (UInt8.ofNat (0x80 + c.val / 0x1000 % 0x40)).toNat = 0x80 + c.val / 0x1000 % 0x40 :=
    toNat_ofNat (by omega)
  have hb : (UInt8.ofNat (0x80 + c.val / 0x40 % 0x40)).toNat = 0x80 + c.val / 0x40 % 0x40 :=
    toNat_ofNat (by omega)
  have hd : (UInt8.ofNat (0x80 + c.val % 0x40)).toNat = 0x80 + c.val % 0x40 :=
    toNat_ofNat (by omega)
  have hvalue : (((0xF0 + c.val / 0x40000 - 0xF0) * 0x40 + (0x80 + c.val / 0x1000 % 0x40 - 0x80)) *
      0x40 + (0x80 + c.val / 0x40 % 0x40 - 0x80)) * 0x40 + (0x80 + c.val % 0x40 - 0x80) = c.val := by
    omega
  rw [List.cons_append, List.cons_append, List.cons_append, List.singleton_append,
    piecesAfter_begin (ofByte_four (by omega) (by omega)),
    piecesAfter_continue (by simp only [ha]; split <;> split <;> omega) (by simp),
    piecesAfter_continue (by simp only [hb]; omega) (by simp),
    piecesAfter_end (by simp only [hd]; omega) (by simp)]
  simp only [ha, hb, hd, hvalue, CodePoint.ofNat_val]
  rfl

/-- The pieces of a text without surrogates are its characters. -/
lemma piecesAfter_encodeAll {t : Text} (ht : t.IsScalar) (done : List Piece) (rest : Bytes) :
    piecesAfter done none (encodeAll t ++ rest) =
      piecesAfter ((t.map fun c => .char c (encodeNat c.val).length).reverse ++ done) none rest := by
  induction t generalizing done with
  | nil => rfl
  | cons c t ih =>
    have hcons : encodeAll (c :: t) ++ rest = encodeNat c.val ++ (encodeAll t ++ rest) := by
      simp [encodeAll]
    rw [hcons, piecesAfter_encodeNat (ht c List.mem_cons_self),
      ih fun d hd => ht d (List.mem_cons_of_mem c hd)]
    simp

/-- The pieces of a text without surrogates are its characters. -/
lemma pieces_encodeAll {t : Text} (ht : t.IsScalar) :
    pieces (encodeAll t) = t.map fun c => .char c (encodeNat c.val).length := by
  have h := piecesAfter_encodeAll ht [] []
  rw [List.append_nil, List.append_nil, piecesAfter, List.reverse_reverse] at h
  exact h

/-! ## Texts -/

/-- Characters are decoded one by one. -/
lemma charactersAfter_map (before t : Text) (position : Nat) :
    charactersAfter before position (t.map fun c => .char c (encodeNat c.val).length) =
      .ok (before.reverse ++ t) := by
  induction t generalizing before position with
  | nil => simp [charactersAfter]
  | cons c t ih =>
    rw [List.map_cons, charactersAfter, ih]
    simp

/-- Decoding gives back every text without surrogates. -/
theorem decode_encodeAll {t : Text} (ht : t.IsScalar) : decode (encodeAll t) = .ok t := by
  rw [decode, pieces_encodeAll ht]
  exact charactersAfter_map [] t 0

/-! ## What is decoded -/

/-- The numbers that the character can have: they lie below the surrogates or above them, and end
where code points do. -/
structure Begun.IsSound (p : Begun) : Prop where
  /-- A continuation byte is due. -/
  due : 1 ≤ p.due
  /-- A continuation byte has at least this value. -/
  low : 0x80 ≤ p.low
  /-- The numbers lie on one side of the surrogates. -/
  scalar : (p.value * 0x40 + (p.high - 0x80) + 1) * 0x40 ^ (p.due - 1) ≤ 0xD800 ∨
    0xE000 ≤ (p.value * 0x40 + (p.low - 0x80)) * 0x40 ^ (p.due - 1)

/-- A character that a byte begins is sound. -/
lemma isSound_ofByte {b : UInt8} {p : Begun} (h : Start.ofByte b = .begun p) : p.IsSound := by
  obtain ⟨hge, hlt, rfl⟩ | ⟨hge, hlt, rfl⟩ | ⟨hge, hlt, rfl⟩ := ofByte_eq_begun h
  · exact ⟨by simp, by simp, by simp only [Nat.sub_self, Nat.pow_zero]; omega⟩
  · refine ⟨by simp, ?_, ?_⟩
    · simp only
      split <;> omega
    · simp only [Nat.add_one_sub_one, Nat.pow_one]
      split <;> split <;> omega
  · refine ⟨by simp, ?_, ?_⟩
    · simp only
      split <;> omega
    · simp only [Nat.add_one_sub_one, Nat.reducePow]
      split <;> split <;> omega

/-- A character that is continued stays sound. -/
lemma Begun.IsSound.continue {p : Begun} (h : p.IsSound) {b : UInt8}
    (hrange : p.low ≤ b.toNat ∧ b.toNat ≤ p.high) (hdue : 1 < p.due) :
    Begun.IsSound
      ⟨b :: p.read, p.value * 0x40 + (b.toNat - 0x80), p.due - 1, 0x80, 0xBF⟩ := by
  have hlow := h.low
  have hpow : 0x40 ^ (p.due - 1) = 0x40 * 0x40 ^ (p.due - 1 - 1) := by
    rw [← Nat.pow_succ']
    congr 1
    omega
  refine ⟨by simp only; omega, by simp, ?_⟩
  simp only [Nat.sub_self, Nat.add_zero]
  rcases h.scalar with hbelow | habove
  · left
    have hlast : (p.value * 0x40 + (b.toNat - 0x80)) * 0x40 + (0xBF - 0x80) + 1 =
        (p.value * 0x40 + (b.toNat - 0x80) + 1) * 0x40 := by omega
    calc ((p.value * 0x40 + (b.toNat - 0x80)) * 0x40 + (0xBF - 0x80) + 1) * 0x40 ^ (p.due - 1 - 1)
        = (p.value * 0x40 + (b.toNat - 0x80) + 1) * 0x40 ^ (p.due - 1) := by
          rw [hlast, hpow, Nat.mul_assoc]
      _ ≤ (p.value * 0x40 + (p.high - 0x80) + 1) * 0x40 ^ (p.due - 1) :=
          Nat.mul_le_mul_right _ (by omega)
      _ ≤ 0xD800 := hbelow
  · right
    calc 0xE000 ≤ (p.value * 0x40 + (p.low - 0x80)) * 0x40 ^ (p.due - 1) := habove
      _ ≤ (p.value * 0x40 + (b.toNat - 0x80)) * 0x40 ^ (p.due - 1) :=
          Nat.mul_le_mul_right _ (by omega)
      _ = (p.value * 0x40 + (b.toNat - 0x80)) * 0x40 * 0x40 ^ (p.due - 1 - 1) := by
          rw [hpow, ← Nat.mul_assoc]

/-- A number outside of the surrogates is that of a scalar value, or of no code point at all. -/
lemma isSurrogate_ofNat {n : Nat} (h : n < 0xD800 ∨ 0xE000 ≤ n) :
    (CodePoint.ofNat n).isSurrogate = false := by
  unfold CodePoint.ofNat
  split
  · simp only [CodePoint.isSurrogate, Bool.and_eq_false_iff, decide_eq_false_iff_not]
    omega
  · rfl

/-- A sound character that ends is a scalar value. -/
lemma Begun.IsSound.isSurrogate_end {p : Begun} (h : p.IsSound) {b : UInt8}
    (hrange : p.low ≤ b.toNat ∧ b.toNat ≤ p.high) (hdue : p.due ≤ 1) :
    (CodePoint.ofNat (p.value * 0x40 + (b.toNat - 0x80))).isSurrogate = false := by
  have hone : p.due = 1 := Nat.le_antisymm hdue h.due
  have hscalar := h.scalar
  have hlow := h.low
  rw [hone, Nat.sub_self, Nat.pow_zero, Nat.mul_one, Nat.mul_one] at hscalar
  apply isSurrogate_ofNat
  omega

/-- The characters that are read are scalar values. -/
lemma Reads.isSurrogate {b : Option Begun} {bytes : Bytes} {ps : List Piece} (h : Reads b bytes ps)
    (hb : ∀ p ∈ b, p.IsSound) {c : CodePoint} {width : Nat} (hc : .char c width ∈ ps) :
    c.isSurrogate = false := by
  induction h with
  | done => cases hc
  | cut => simp at hc
  | whole hx hrest ih =>
    rcases List.mem_cons.mp hc with hfirst | hmem
    · cases hfirst
      obtain ⟨hlt, rfl⟩ := ofByte_eq_whole hx
      exact isSurrogate_ofNat (by omega)
    · exact ih (by simp) hmem
  | begun hx hrest ih => exact ih (by simpa using isSound_ofByte hx) hc
  | wrong hx hrest ih =>
    rcases List.mem_cons.mp hc with hfirst | hmem
    · cases hfirst
    · exact ih (by simp) hmem
  | @next p _ _ _ hrange hdue hrest ih =>
    have hp : p.IsSound := hb p rfl
    exact ih (by simpa using hp.continue hrange hdue) hc
  | @last p _ _ _ hrange hdue hrest ih =>
    have hp : p.IsSound := hb p rfl
    rcases List.mem_cons.mp hc with hfirst | hmem
    · injection hfirst with hchar hwidth
      rw [hchar]
      exact hp.isSurrogate_end hrange hdue
    · exact ih (by simp) hmem
  | anew hrange hrest ih =>
    rcases List.mem_cons.mp hc with hfirst | hmem
    · cases hfirst
    · exact ih (by simp) hmem

/-- The characters of a decoded text are those of its pieces. -/
lemma mem_of_charactersAfter {before t : Text} {position : Nat} {ps : List Piece}
    (h : charactersAfter before position ps = .ok t) {c : CodePoint} (hc : c ∈ t) :
    c ∈ before ∨ ∃ width, Piece.char c width ∈ ps := by
  induction ps generalizing before position with
  | nil =>
    rw [charactersAfter, Except.ok.injEq] at h
    subst h
    exact Or.inl (List.mem_reverse.mp hc)
  | cons p ps ih =>
    cases p with
    | fault reason bytes =>
      rw [charactersAfter] at h
      cases h
    | char d width =>
      rw [charactersAfter] at h
      rcases ih h with hbefore | ⟨n, hn⟩
      · rcases List.mem_cons.mp hbefore with rfl | hbefore
        · exact Or.inr ⟨width, List.mem_cons_self⟩
        · exact Or.inl hbefore
      · exact Or.inr ⟨n, List.mem_cons_of_mem _ hn⟩

/-- A decoded text holds no surrogates. -/
theorem isScalar_of_decode {bytes : Bytes} {t : Text} (h : decode bytes = .ok t) :
    t.IsScalar := by
  intro c hc
  rcases mem_of_charactersAfter h hc with hnil | ⟨width, hmem⟩
  · cases hnil
  · exact (reads_piecesAfter none bytes).isSurrogate (by simp) hmem

/-! ## The bytes of what is read -/

/-- The last bytes that spell a number, so many of them; each holds six bits. -/
def continuation : Nat → Nat → Bytes
  | 0, _ => []
  | n + 1, v => UInt8.ofNat (0x80 + v / 0x40 ^ n % 0x40) :: continuation n v

/-- The bytes that have been read spell the beginning of every number that the character can have. -/
structure Begun.IsSpelled (p : Begun) : Prop extends p.IsSound where
  /-- A continuation byte has at most this value. -/
  high : p.high ≤ 0xBF
  /-- None of the bytes that have been read is a character. -/
  read : ∀ x ∈ p.read, 0x80 ≤ x.toNat
  /-- The numbers that the character can have are spelled so. -/
  spells : ∀ v, v / 0x40 ^ p.due = p.value → p.low ≤ 0x80 + v / 0x40 ^ (p.due - 1) % 0x40 →
    0x80 + v / 0x40 ^ (p.due - 1) % 0x40 ≤ p.high →
    v < 0x110000 ∧ encodeNat v = p.read.reverse ++ continuation p.due v

/-- A character that a byte begins is spelled by it. The cases are the lengths of the spelling. -/
lemma isSpelled_ofByte {b : UInt8} {p : Begun} (h : Start.ofByte b = .begun p) : p.IsSpelled := by
  have hsound := isSound_ofByte h
  have hb : UInt8.ofNat b.toNat = b := UInt8.ofNat_toNat
  obtain ⟨hge, hlt, rfl⟩ | ⟨hge, hlt, rfl⟩ | ⟨hge, hlt, rfl⟩ := ofByte_eq_begun h
  · refine ⟨hsound, by simp, by simp; omega, fun v hv hlow hhigh => ?_⟩
    simp only [Nat.pow_one, Nat.sub_self, Nat.pow_zero, Nat.div_one] at hv hlow hhigh
    have hfirst : 0xC0 + v / 0x40 = b.toNat := by omega
    refine ⟨by omega, ?_⟩
    rw [encodeNat, if_neg (by omega), if_pos (by omega), hfirst, hb]
    simp [continuation]
  · refine ⟨hsound, by simp only; split <;> omega, by simp; omega, fun v hv hlow hhigh => ?_⟩
    simp only [Nat.add_one_sub_one, Nat.pow_one, Nat.reducePow] at hv hlow hhigh
    have hfirst : 0xE0 + v / 0x1000 = b.toNat := by omega
    have hleast : 0x800 ≤ v := by
      split at hlow <;> omega
    refine ⟨by omega, ?_⟩
    rw [encodeNat, if_neg (by omega), if_neg (by omega), if_pos (by omega), hfirst, hb]
    simp [continuation]
  · refine ⟨hsound, by simp only; split <;> omega, by simp; omega, fun v hv hlow hhigh => ?_⟩
    simp only [Nat.add_one_sub_one, Nat.reducePow] at hv hlow hhigh
    have hfirst : 0xF0 + v / 0x40000 = b.toNat := by omega
    have hleast : 0x10000 ≤ v := by
      split at hlow <;> omega
    have hgreatest : v < 0x110000 := by
      split at hhigh <;> omega
    refine ⟨hgreatest, ?_⟩
    rw [encodeNat, if_neg (by omega), if_neg (by omega), if_neg (by omega), hfirst, hb]
    simp [continuation]

/-- A byte that continues a character, as one that holds six bits. -/
lemma div_and_mod_of_continue {p : Begun} (hp : p.IsSpelled) {x : UInt8}
    (hrange : p.low ≤ x.toNat ∧ x.toNat ≤ p.high) {v n : Nat}
    (hv : v / 0x40 ^ n = p.value * 0x40 + (x.toNat - 0x80)) :
    v / 0x40 ^ (n + 1) = p.value ∧ 0x80 + v / 0x40 ^ n % 0x40 = x.toNat := by
  have hlow := hp.low
  have hhigh := hp.high
  have hdiv : v / 0x40 ^ (n + 1) = v / 0x40 ^ n / 0x40 := by
    rw [Nat.pow_succ, Nat.div_div_eq_div_mul]
  rw [hdiv, hv]
  omega

/-- A character that is continued is spelled by one byte more. -/
lemma Begun.IsSpelled.continue {p : Begun} (h : p.IsSpelled) {b : UInt8}
    (hrange : p.low ≤ b.toNat ∧ b.toNat ≤ p.high) (hdue : 1 < p.due) :
    Begun.IsSpelled
      ⟨b :: p.read, p.value * 0x40 + (b.toNat - 0x80), p.due - 1, 0x80, 0xBF⟩ := by
  have hlow := h.low
  have hb : UInt8.ofNat b.toNat = b := UInt8.ofNat_toNat
  obtain ⟨n, hn⟩ : ∃ n, p.due = n + 1 := ⟨p.due - 1, by omega⟩
  refine ⟨h.toIsSound.continue hrange hdue, by simp, ?_, fun v hv _ _ => ?_⟩
  · intro x hx
    rcases List.mem_cons.mp hx with rfl | hx
    · omega
    · exact h.read x hx
  · simp only [hn, Nat.add_one_sub_one] at hv ⊢
    obtain ⟨hvalue, hbyte⟩ := div_and_mod_of_continue h hrange hv
    have hspells := h.spells v
    rw [hn, Nat.add_one_sub_one, hbyte] at hspells
    obtain ⟨hlt, hencode⟩ := hspells hvalue hrange.1 hrange.2
    refine ⟨hlt, ?_⟩
    rw [hencode, continuation, hbyte, hb, List.reverse_cons, List.append_assoc]
    rfl

/-- A character that ends is spelled by the bytes that have been read for it. -/
lemma Begun.IsSpelled.encode_end {p : Begun} (h : p.IsSpelled) {b : UInt8}
    (hrange : p.low ≤ b.toNat ∧ b.toNat ≤ p.high) (hdue : p.due ≤ 1) :
    encodeNat (CodePoint.ofNat (p.value * 0x40 + (b.toNat - 0x80))).val =
      p.read.reverse ++ [b] := by
  have hone : p.due = 0 + 1 := Nat.le_antisymm hdue h.due
  have hb : UInt8.ofNat b.toNat = b := UInt8.ofNat_toNat
  generalize hv : p.value * 0x40 + (b.toNat - 0x80) = v
  have hdiv : v / 0x40 ^ 0 = p.value * 0x40 + (b.toNat - 0x80) := by
    rw [Nat.pow_zero, Nat.div_one, hv]
  obtain ⟨hvalue, hbyte⟩ := div_and_mod_of_continue h hrange hdiv
  have hspells := h.spells v
  rw [hone, Nat.add_one_sub_one, hbyte] at hspells
  obtain ⟨hlt, hencode⟩ := hspells hvalue hrange.1 hrange.2
  rw [CodePoint.ofNat, dif_pos hlt, hencode, continuation, hbyte, hb]
  rfl

/-- A byte that is a character spells it. -/
lemma encodeNat_of_whole {x : UInt8} {c : CodePoint} (h : Start.ofByte x = .whole c) :
    encodeNat c.val = [x] := by
  obtain ⟨hlt, rfl⟩ := ofByte_eq_whole h
  have hx : UInt8.ofNat x.toNat = x := UInt8.ofNat_toNat
  rw [CodePoint.ofNat, dif_pos (by omega), encodeNat, if_pos hlt, hx]

/-- A byte that begins a character is the first one that is read. -/
lemma read_ofByte {x : UInt8} {p : Begun} (h : Start.ofByte x = .begun p) : p.read = [x] := by
  obtain ⟨-, -, rfl⟩ | ⟨-, -, rfl⟩ | ⟨-, -, rfl⟩ := ofByte_eq_begun h
  · rfl
  · rfl
  · rfl

/-- A byte that begins nothing is no character. -/
lemma le_of_wrong {x : UInt8} (h : Start.ofByte x = .none) : 0x80 ≤ x.toNat := by
  rcases Nat.lt_or_ge x.toNat 0x80 with hlt | hge
  · rw [ofByte_ascii hlt] at h
    cases h
  · exact hge

/-- The bytes that spell a piece. -/
def Piece.bytes : Piece → Bytes
  | .char c _ => encodeNat c.val
  | .fault _ faulty => faulty

/-- No byte is lost in reading: each character is spelled by the bytes that were read for it. -/
lemma Reads.bytes_eq {b : Option Begun} {bytes : Bytes} {ps : List Piece} (h : Reads b bytes ps)
    (hb : ∀ p ∈ b, p.IsSpelled) :
    ps.flatMap Piece.bytes = (b.elim [] fun p => p.read.reverse) ++ bytes := by
  induction h with
  | done => rfl
  | cut => simp [Piece.bytes]
  | whole hx hrest ih =>
    rw [List.flatMap_cons, ih (by simp), Piece.bytes, encodeNat_of_whole hx]
    rfl
  | begun hx hrest ih =>
    rw [ih (by simpa using isSpelled_ofByte hx), Option.elim_some, read_ofByte hx]
    rfl
  | wrong hx hrest ih =>
    rw [List.flatMap_cons, ih (by simp)]
    rfl
  | @next p _ _ _ hrange hdue hrest ih =>
    have hp : p.IsSpelled := hb p rfl
    rw [ih (by simpa using hp.continue hrange hdue)]
    simp
  | @last p _ _ _ hrange hdue hrest ih =>
    have hp : p.IsSpelled := hb p rfl
    rw [List.flatMap_cons, ih (by simp), Piece.bytes, hp.encode_end hrange hdue]
    simp
  | anew hrange hrest ih =>
    rw [List.flatMap_cons, ih (by simp)]
    rfl

/-- What is faulty is no character. -/
lemma Reads.le_of_fault {b : Option Begun} {bytes : Bytes} {ps : List Piece} (h : Reads b bytes ps)
    (hb : ∀ p ∈ b, p.IsSpelled) {reason : Reason} {faulty : Bytes}
    (hfault : .fault reason faulty ∈ ps) {x : UInt8} (hx : x ∈ faulty) : 0x80 ≤ x.toNat := by
  induction h with
  | done => cases hfault
  | @cut p =>
    cases List.mem_singleton.mp hfault
    exact (hb p rfl).read x (List.mem_reverse.mp hx)
  | whole hstart hrest ih =>
    rcases List.mem_cons.mp hfault with hfirst | hmem
    · cases hfirst
    · exact ih (by simp) hmem
  | begun hstart hrest ih => exact ih (by simpa using isSpelled_ofByte hstart) hfault
  | wrong hstart hrest ih =>
    rcases List.mem_cons.mp hfault with hfirst | hmem
    · cases hfirst
      rw [List.mem_singleton.mp hx]
      exact le_of_wrong hstart
    · exact ih (by simp) hmem
  | @next p _ _ _ hrange hdue hrest ih =>
    have hp : p.IsSpelled := hb p rfl
    exact ih (by simpa using hp.continue hrange hdue) hfault
  | last hrange hdue hrest ih =>
    rcases List.mem_cons.mp hfault with hfirst | hmem
    · cases hfirst
    · exact ih (by simp) hmem
  | @anew p _ _ _ hrange hrest ih =>
    rcases List.mem_cons.mp hfault with hfirst | hmem
    · cases hfirst
      exact (hb p rfl).read x (List.mem_reverse.mp hx)
    · exact ih (by simp) hmem

/-- The bytes are those that spell their pieces. -/
theorem bytes_pieces (bytes : Bytes) : (pieces bytes).flatMap Piece.bytes = bytes :=
  (reads_piecesAfter none bytes).bytes_eq (by simp)

/-! ## Encoding -/

/-- No code point of the text satisfies `bad` if there is no run of them. -/
lemma firstRun_eq_none_iff {bad : CodePoint → Bool} {position : Nat} {t : Text} :
    firstRun bad position t = none ↔ ∀ c ∈ t, bad c = false := by
  induction t generalizing position with
  | nil => simp [firstRun]
  | cons c t ih =>
    by_cases hc : bad c = true
    · simp [firstRun, hc]
    · simp [firstRun, hc, ih]

/-- A text without surrogates can be encoded. -/
lemma encode_eq_ok {t : Text} (ht : t.IsScalar) : encode t = .ok (encodeAll t) := by
  rw [encode, firstRun_eq_none_iff.mpr ht]

/-- A text with surrogates is not encoded. -/
lemma exists_encode_eq_error {t : Text} (ht : ¬ t.IsScalar) : ∃ run, encode t = .error run := by
  cases hrun : firstRun CodePoint.isSurrogate 0 t with
  | none => exact absurd (firstRun_eq_none_iff.mp hrun) ht
  | some run => exact ⟨run, by rw [encode, hrun]⟩

end Utf8

end EditorDocs
