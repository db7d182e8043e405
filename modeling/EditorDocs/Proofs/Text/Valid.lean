import EditorDocs.Proofs.Text.Utf8
import Mathlib.Data.List.Basic

/-!
# Bytes that spell texts

Bytes are valid if they spell a text without surrogates, which is so if they can be decoded
(`Utf8.isValid_iff_decode`).  Valid bytes one after the other are valid, and the other way round valid
bytes can be cut before a byte that continues no character (`Utf8.IsValid.cut`), and behind a character
at their start (`Utf8.IsValid.of_encodeNat_append`): a character is never the beginning of another one.
-/

namespace EditorDocs.Utf8

/-- The bytes spell a text without surrogates. -/
def IsValid (bytes : Bytes) : Prop := ∃ t : Text, t.IsScalar ∧ encodeAll t = bytes

/-! ## Decoding -/

/-- The characters that are decoded are spelled by the pieces. -/
lemma encodeAll_of_charactersAfter {before t : Text} {position : Nat} {ps : List Piece}
    (h : charactersAfter before position ps = .ok t) :
    encodeAll t = encodeAll before.reverse ++ ps.flatMap Piece.bytes := by
  induction ps generalizing before position with
  | nil =>
    cases h
    exact (List.append_nil _).symm
  | cons p ps ih =>
    cases p with
    | fault reason bytes => cases h
    | char c width =>
      rw [charactersAfter] at h
      rw [ih h, List.reverse_cons, encodeAll, encodeAll, List.flatMap_append, List.append_assoc,
        List.flatMap_singleton, List.flatMap_cons, Piece.bytes]

/-- What is decoded is spelled by the bytes. -/
theorem encodeAll_of_decode {bytes : Bytes} {t : Text} (h : decode bytes = .ok t) :
    encodeAll t = bytes := by
  have hspelled := encodeAll_of_charactersAfter h
  rwa [bytes_pieces] at hspelled

/-- Bytes are valid if and only if they can be decoded. -/
theorem isValid_iff_decode {bytes : Bytes} : IsValid bytes ↔ ∃ t, decode bytes = .ok t := by
  constructor
  · rintro ⟨t, hscalar, rfl⟩
    exact ⟨t, decode_encodeAll hscalar⟩
  · rintro ⟨t, h⟩
    exact ⟨t, isScalar_of_decode h, encodeAll_of_decode h⟩

/-! ## Joining -/

/-- Valid bytes one after the other are valid. -/
lemma IsValid.append {a b : Bytes} (ha : IsValid a) (hb : IsValid b) : IsValid (a ++ b) := by
  obtain ⟨t, ht, rfl⟩ := ha
  obtain ⟨u, hu, rfl⟩ := hb
  refine ⟨t ++ u, fun c hc => ?_, List.flatMap_append⟩
  rcases List.mem_append.mp hc with h | h
  · exact ht c h
  · exact hu c h

/-- The bytes of a scalar value are valid. -/
lemma isValid_encodeNat {c : CodePoint} (hc : c.isSurrogate = false) : IsValid (encodeNat c.val) :=
  ⟨[c], by simpa [Text.IsScalar] using hc, by simp [encodeAll]⟩

/-- Bytes of ASCII are valid. -/
lemma isValid_ascii {bytes : Bytes} (h : ∀ x ∈ bytes, x.toNat < 0x80) : IsValid bytes := by
  induction bytes with
  | nil => exact ⟨[], List.forall_mem_nil _, rfl⟩
  | cons x rest ih =>
    have hx := h x List.mem_cons_self
    have hone : IsValid [x] := by
      rw [← encodeNat_of_whole (ofByte_ascii hx)]
      exact isValid_encodeNat (isSurrogate_ofNat (by omega))
    exact hone.append (ih fun y hy => h y (List.mem_cons_of_mem x hy))

/-! ## Cutting -/

/-- The byte continues no character. -/
def IsStart (x : UInt8) : Prop := x.toNat < 0x80 ∨ 0xC0 ≤ x.toNat

/-- A character begins with one byte that continues none, and all others continue it. -/
lemma exists_encodeNat_eq {n : Nat} (h : n < 0x110000) : ∃ first rest,
    encodeNat n = first :: rest ∧ IsStart first ∧ ∀ x ∈ rest, ¬ IsStart x := by
  have hlater : ∀ m, ¬ IsStart (UInt8.ofNat (0x80 + m % 0x40)) := by
    intro m
    rw [IsStart, toNat_ofNat (by omega)]
    omega
  unfold encodeNat
  split
  · refine ⟨_, [], rfl, Or.inl ?_, List.forall_mem_nil _⟩
    rw [toNat_ofNat (by omega)]
    omega
  split
  · refine ⟨_, _, rfl, Or.inr ?_, List.forall_mem_singleton.mpr (hlater _)⟩
    rw [toNat_ofNat (by omega)]
    omega
  split
  · refine ⟨_, _, rfl, Or.inr ?_, List.forall_mem_cons.mpr ⟨hlater _, List.forall_mem_singleton.mpr
      (hlater _)⟩⟩
    rw [toNat_ofNat (by omega)]
    omega
  · refine ⟨_, _, rfl, Or.inr ?_, List.forall_mem_cons.mpr ⟨hlater _, List.forall_mem_cons.mpr
      ⟨hlater _, List.forall_mem_singleton.mpr (hlater _)⟩⟩⟩
    rw [toNat_ofNat (by omega)]
    omega

/-- Valid bytes can be cut before a byte that continues no character. -/
theorem IsValid.cut {a b : Bytes} {x : UInt8} (hx : IsStart x) (h : IsValid (a ++ x :: b)) :
    IsValid a ∧ IsValid (x :: b) := by
  obtain ⟨t, hscalar, ht⟩ := h
  -- on the text, of which a character is spelled before the cut or stands behind it
  induction t generalizing a with
  | nil => cases a <;> cases ht
  | cons c t ih =>
    have hc := hscalar c List.mem_cons_self
    have hrest : Text.IsScalar t := fun d hd => hscalar d (List.mem_cons_of_mem c hd)
    have hall : encodeNat c.val ++ encodeAll t = a ++ x :: b := by
      rw [← ht, encodeAll, encodeAll, List.flatMap_cons]
    rcases List.append_eq_append_iff.mp hall with ⟨m, rfl, hm⟩ | ⟨m, hm, hbehind⟩
    · obtain ⟨hvalid, hlater⟩ := ih hrest hm
      exact ⟨(isValid_encodeNat hc).append hvalid, hlater⟩
    · cases m with
      | nil =>
        rw [List.append_nil] at hm
        refine ⟨by rw [← hm]; exact isValid_encodeNat hc, t, hrest, ?_⟩
        rw [hbehind]
        rfl
      | cons y m =>
        obtain ⟨rfl, -⟩ := List.cons.inj hbehind
        obtain ⟨first, rest, hfirst, -, hlater⟩ := exists_encodeNat_eq c.isLt
        cases a with
        | nil => exact ⟨⟨[], List.forall_mem_nil _, rfl⟩, c :: t, hscalar, ht⟩
        | cons z a =>
          rw [hfirst] at hm
          obtain ⟨-, hm⟩ := List.cons.inj hm
          refine absurd hx (hlater x ?_)
          rw [hm]
          exact List.mem_append_right a List.mem_cons_self

/-- Valid bytes that begin with a character are valid behind it. -/
theorem IsValid.of_encodeNat_append {c : CodePoint} (hc : c.isSurrogate = false) {b : Bytes}
    (h : IsValid (encodeNat c.val ++ b)) : IsValid b := by
  obtain ⟨t, hscalar, ht⟩ := h
  cases t with
  | nil =>
    obtain ⟨first, rest, hfirst, -⟩ := exists_encodeNat_eq c.isLt
    rw [hfirst] at ht
    cases ht
  | cons d t =>
    have hrest : Text.IsScalar t := fun e he => hscalar e (List.mem_cons_of_mem d he)
    have hpieces : Piece.char c (encodeNat c.val).length :: pieces b =
        .char d (encodeNat d.val).length :: pieces (encodeAll t) := by
      have hleft : pieces (encodeNat c.val ++ b) = .char c (encodeNat c.val).length :: pieces b := by
        rw [pieces, piecesAfter_encodeNat hc, piecesAfter_eq]
        rfl
      rw [← hleft, ← ht, pieces_encodeAll hscalar, pieces_encodeAll hrest]
      rfl
    refine ⟨t, hrest, ?_⟩
    rw [← bytes_pieces b, (List.cons.inj hpieces).2, bytes_pieces]

end EditorDocs.Utf8
