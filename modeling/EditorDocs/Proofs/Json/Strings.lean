import EditorDocs.Json.Document
import EditorDocs.Json.Writer
import EditorDocs.Proofs.Text.Utf8

/-!
# Strings in documents

A string is written with escapes for the quote, the backslash and the controls, and everything else
as it is.  The reader resolves exactly these escapes, so it gives back every text without surrogates
(`Document.string_quote`).  The escapes are read one character at a time, whatever follows.

Values that are read as texts are the strings of these texts (`mapM_text?_eq_some_iff`).
-/

namespace EditorDocs

namespace Utf8

/-- The bytes of joined texts are the joined bytes. -/
lemma encodeAll_append (a b : Text) : encodeAll (a ++ b) = encodeAll a ++ encodeAll b := by
  simp [encodeAll]

/-- An empty text has no bytes. -/
lemma encodeAll_nil : encodeAll [] = [] := rfl

/-- The bytes of a text are those of its characters. -/
lemma encodeAll_cons (c : CodePoint) (t : Text) :
    encodeAll (c :: t) = encodeNat c.val ++ encodeAll t := by
  simp [encodeAll]

end Utf8

namespace Text

/-- Four hexadecimal digits spell a number that has no more. -/
lemma ofHex_four {n : Nat} (h : n < 0x10000) :
    ofHex 4 n =
      [n / 0x1000, n / 0x100 % 16, n / 0x10 % 16, n % 16].map CodePoint.ofHexDigit := by
  have hzero : CodePoint.ofHexDigit 0 = CodePoint.ofChar '0' := by decide
  unfold ofHex
  by_cases h1 : n < 16
  · have hd : reversedDigits 16 n = [n] := by
      rw [reversedDigits, dif_pos (Or.inl h1)]
    have e1 : n / 0x1000 = 0 := by omega
    have e2 : n / 0x100 % 16 = 0 := by omega
    have e3 : n / 0x10 % 16 = 0 := by omega
    have e4 : n % 16 = n := by omega
    rw [hd, e1, e2, e3, e4]
    simp [hzero, List.replicate]
  by_cases h2 : n < 0x100
  · have hd : reversedDigits 16 n = [n % 16, n / 16] := by
      rw [reversedDigits, dif_neg (by omega), reversedDigits, dif_pos (Or.inl (by omega))]
    have e1 : n / 0x1000 = 0 := by omega
    have e2 : n / 0x100 % 16 = 0 := by omega
    have e3 : n / 0x10 % 16 = n / 16 := by omega
    rw [hd, e1, e2, e3]
    simp [hzero, List.replicate]
  by_cases h3 : n < 0x1000
  · have hd : reversedDigits 16 n = [n % 16, n / 16 % 16, n / 16 / 16] := by
      rw [reversedDigits, dif_neg (by omega), reversedDigits, dif_neg (by omega),
        reversedDigits, dif_pos (Or.inl (by omega))]
    have e1 : n / 0x1000 = 0 := by omega
    have e2 : n / 0x100 % 16 = n / 16 / 16 := by omega
    rw [hd, e1, e2]
    simp [hzero]
  · have hd : reversedDigits 16 n =
        [n % 16, n / 16 % 16, n / 16 / 16 % 16, n / 16 / 16 / 16] := by
      rw [reversedDigits, dif_neg (by omega), reversedDigits, dif_neg (by omega),
        reversedDigits, dif_neg (by omega), reversedDigits, dif_pos (Or.inl (by omega))]
    have e1 : n / 0x1000 = n / 16 / 16 / 16 := by omega
    have e2 : n / 0x100 % 16 = n / 16 / 16 % 16 := by omega
    rw [hd, e1, e2]
    simp

end Text

namespace Json.Document

/-! ## Escapes -/

/-- The byte of a hexadecimal digit is read as the digit. -/
lemma hexValue?_ofHexDigit {d : Nat} (h : d < 16) :
    ∃ b, Utf8.encodeNat (CodePoint.ofHexDigit d).val = [b] ∧
      (ascii b).hexValue? = some d := by
  have hall : ∀ d : Fin 16, ∃ b, Utf8.encodeNat (CodePoint.ofHexDigit d).val = [b] ∧
      (ascii b).hexValue? = some d.val := by
    intro d
    refine ⟨UInt8.ofNat (CodePoint.ofHexDigit d).val, ?_, ?_⟩ <;> revert d <;> decide
  exact hall ⟨d, h⟩

/-- Four digits are read as the number that they spell. -/
lemma hexNumber_ofHex {n : Nat} (h : n < 0x10000) (after : Bytes) :
    ∃ a b c d, Utf8.encodeAll (Text.ofHex 4 n) = [a, b, c, d] ∧
      hexNumber 0 after [a, b, c, d] = .ok n := by
  obtain ⟨a, ha, hva⟩ := hexValue?_ofHexDigit (d := n / 0x1000) (by omega)
  obtain ⟨b, hb, hvb⟩ := hexValue?_ofHexDigit (d := n / 0x100 % 16) (by omega)
  obtain ⟨c, hc, hvc⟩ := hexValue?_ofHexDigit (d := n / 0x10 % 16) (by omega)
  obtain ⟨d, hd, hvd⟩ := hexValue?_ofHexDigit (d := n % 16) (by omega)
  refine ⟨a, b, c, d, ?_, ?_⟩
  · simp [Text.ofHex_four h, Utf8.encodeAll, ha, hb, hc, hd]
  · simp only [hexNumber, hva, hvb, hvc, hvd, Except.ok.injEq]
    omega

/-- The escape of a unit that is no surrogate is resolved. -/
lemma escape_unit {n : Nat} (h : n < 0xD800) (rest : Bytes) :
    ∃ digits, Utf8.encodeAll (escapeUnit n) = 0x5C :: digits ∧
      escape (digits ++ rest) = .ok (Utf8.encodeNat n, rest) := by
  obtain ⟨a, b, c, d, hspell, hread⟩ := hexNumber_ofHex (n := n) (by omega) rest
  refine ⟨[0x75, a, b, c, d], ?_, ?_⟩
  · rw [escapeUnit, Utf8.encodeAll_append, hspell]
    rfl
  · have hletter : letterEscape? 0x75 = none := by decide
    simp only [List.cons_append, List.nil_append, escape, hletter, if_true, unitEscape, hread,
      bind, Except.bind]
    rw [if_neg (by omega), if_neg (by omega)]
    rfl

/-! ## Strings -/

/-- The character is written as it is. -/
def IsPlain (c : CodePoint) : Prop := c.val ≠ 0x22 ∧ c.val ≠ 0x5C ∧ 0x20 ≤ c.val

/-- An escape of a character's own holds no surrogates and is one that the reader knows. -/
lemma shortEscape?_eq_some {c : CodePoint} {t : Text} (h : shortEscape? c = some t) :
    t.IsScalar ∧ ∃ e x, Utf8.encodeAll t = [0x5C, e] ∧ letterEscape? e = some x ∧
      Utf8.encodeNat c.val = [x] := by
  unfold shortEscape? at h
  split at h
  · rename_i hc
    cases h
    exact ⟨by decide, 0x22, 0x22, by decide, by decide, by rw [hc]; decide⟩
  split at h
  · rename_i hc
    cases h
    exact ⟨by decide, 0x5C, 0x5C, by decide, by decide, by rw [hc]; decide⟩
  split at h
  · rename_i hc
    cases h
    exact ⟨by decide, 0x6E, 0x0A, by decide, by decide, by rw [hc]; decide⟩
  split at h
  · rename_i hc
    cases h
    exact ⟨by decide, 0x72, 0x0D, by decide, by decide, by rw [hc]; decide⟩
  split at h
  · rename_i hc
    cases h
    exact ⟨by decide, 0x74, 0x09, by decide, by decide, by rw [hc]; decide⟩
  split at h
  · rename_i hc
    cases h
    exact ⟨by decide, 0x66, 0x0C, by decide, by decide, by rw [hc]; decide⟩
  split at h
  · rename_i hc
    cases h
    exact ⟨by decide, 0x62, 0x08, by decide, by decide, by rw [hc]; decide⟩
  · cases h

/-- A character is written as it is, or as an escape that stands for it. -/
lemma escapeOne_cases (c : CodePoint) :
    (IsPlain c ∧ escapeOne false c = [c]) ∨
      ∃ bytes, Utf8.encodeAll (escapeOne false c) = 0x5C :: bytes ∧
        ∀ rest, escape (bytes ++ rest) = .ok (Utf8.encodeNat c.val, rest) := by
  unfold escapeOne
  cases hshort : shortEscape? c with
  | some t =>
    obtain ⟨-, e, x, hspell, hletter, hc⟩ := shortEscape?_eq_some hshort
    exact Or.inr ⟨[e], hspell, fun rest => by simp [escape, hletter, hc]⟩
  | none =>
    by_cases hcontrol : c.val < 0x20
    · simp only [hcontrol, if_true]
      obtain ⟨bytes, hspell, -⟩ := escape_unit (n := c.val) (by omega) []
      refine Or.inr ⟨bytes, hspell, fun rest => ?_⟩
      obtain ⟨bytes', hspell', hread⟩ := escape_unit (n := c.val) (by omega) rest
      rw [hspell, List.cons.injEq] at hspell'
      rw [hspell'.2, hread]
    · left
      simp only [hcontrol, if_false, Bool.not_false, Bool.true_or, if_true, and_true]
      refine ⟨?_, ?_, by omega⟩
      · intro hc
        simp [shortEscape?, hc] at hshort
      · intro hc
        simp [shortEscape?, hc] at hshort

/-- Bytes that need no escape are read as they are. -/
lemma stringAfter_plain {bs : Bytes} (h : ∀ b ∈ bs, b ≠ 0x22 ∧ b ≠ 0x5C ∧ ¬ b < 0x20)
    (before rounds rest : Bytes) (hrounds : bs.length ≤ rounds.length) :
    stringAfter before rounds (bs ++ rest) =
      stringAfter (bs.reverse ++ before) (rounds.drop bs.length) rest := by
  induction bs generalizing before rounds with
  | nil => rfl
  | cons b bs ih =>
    obtain ⟨hquote, hslash, hcontrol⟩ := h b List.mem_cons_self
    obtain ⟨r, rounds, rfl⟩ := List.exists_cons_of_length_pos (l := rounds) (by
      simp only [List.length_cons] at hrounds
      omega)
    rw [List.cons_append, stringAfter, if_neg hquote, if_neg hslash, if_neg hcontrol,
      ih (fun d hd => h d (List.mem_cons_of_mem b hd)) _ _ (by simpa using hrounds)]
    simp

/-- The bytes of a character that is written as it is need no escape. -/
lemma plain_of_mem_encodeNat {c : CodePoint} (hc : IsPlain c) {b : UInt8}
    (hb : b ∈ Utf8.encodeNat c.val) : b ≠ 0x22 ∧ b ≠ 0x5C ∧ ¬ b < 0x20 := by
  obtain ⟨hquote, hslash, hcontrol⟩ := hc
  have hnat : b.toNat ≠ 0x22 ∧ b.toNat ≠ 0x5C ∧ 0x20 ≤ b.toNat := by
    by_cases hascii : c.val < 0x80
    · rw [Utf8.encodeNat, if_pos hascii, List.mem_singleton] at hb
      rw [hb, Utf8.toNat_ofNat (by omega)]
      exact ⟨hquote, hslash, hcontrol⟩
    · have := Utf8.le_of_mem_encodeNat (by omega) c.isLt hb
      omega
  refine ⟨?_, ?_, ?_⟩
  · rintro rfl
    exact hnat.1 rfl
  · rintro rfl
    exact hnat.2.1 rfl
  · intro hlt
    have hlt' : b.toNat < 0x20 := hlt
    omega

/-- The characters of a text are read one by one. The rounds that are left suffice for what
follows. -/
lemma stringAfter_escaped {t : Text} (before rounds rest : Bytes)
    (hrounds : (Utf8.encodeAll (t.flatMap (escapeOne false))).length ≤ rounds.length) :
    ∃ rounds', rounds.length ≤
        rounds'.length + (Utf8.encodeAll (t.flatMap (escapeOne false))).length ∧
      stringAfter before rounds (Utf8.encodeAll (t.flatMap (escapeOne false)) ++ rest) =
        stringAfter ((Utf8.encodeAll t).reverse ++ before) rounds' rest := by
  induction t generalizing before rounds with
  | nil => exact ⟨rounds, by simp [Utf8.encodeAll], rfl⟩
  | cons c t ih =>
    rw [List.flatMap_cons, Utf8.encodeAll_append, List.length_append] at hrounds
    rw [List.flatMap_cons, Utf8.encodeAll_append, List.length_append, List.append_assoc,
      Utf8.encodeAll_cons, List.reverse_append, List.append_assoc]
    rcases escapeOne_cases c with ⟨hplain, hwritten⟩ | ⟨bytes, hspell, hread⟩
    · have hone : Utf8.encodeAll (escapeOne false c) = Utf8.encodeNat c.val := by
        rw [hwritten]
        simp [Utf8.encodeAll]
      rw [hone] at hrounds ⊢
      rw [stringAfter_plain (fun b hb => plain_of_mem_encodeNat hplain hb) _ _ _ (by omega)]
      obtain ⟨rounds', hlen, hrest⟩ := ih ((Utf8.encodeNat c.val).reverse ++ before)
        (rounds.drop (Utf8.encodeNat c.val).length) (by rw [List.length_drop]; omega)
      rw [List.length_drop] at hlen
      exact ⟨rounds', by omega, hrest⟩
    · rw [hspell] at hrounds ⊢
      simp only [List.length_cons] at hrounds ⊢
      obtain ⟨r, rounds, rfl⟩ := List.exists_cons_of_length_pos (l := rounds) (by omega)
      simp only [List.length_cons] at hrounds ⊢
      rw [List.cons_append, stringAfter, if_neg (by decide), if_pos rfl, hread]
      obtain ⟨rounds', hlen, hrest⟩ := ih ((Utf8.encodeNat c.val).reverse ++ before) rounds
        (by omega)
      exact ⟨rounds', by omega, hrest⟩

/-- A string that was written between its quotes is read, whatever follows. -/
theorem string_quote {t : Text} (ht : t.IsScalar) (rest : Bytes) :
    ∃ bytes, Utf8.encodeAll (quote false t) = 0x22 :: bytes ∧
      string (bytes ++ rest) = .ok (t, rest) := by
  refine ⟨Utf8.encodeAll (t.flatMap (escapeOne false)) ++ [0x22], ?_, ?_⟩
  · rw [quote, Utf8.encodeAll_append, Utf8.encodeAll_append]
    rfl
  · obtain ⟨rounds', hlen, hread⟩ := stringAfter_escaped (t := t) []
      (Utf8.encodeAll (t.flatMap (escapeOne false)) ++ [0x22] ++ rest) (0x22 :: rest)
      (by simp only [List.length_append]; omega)
    obtain ⟨r, rounds, rfl⟩ := List.exists_cons_of_length_pos (l := rounds') (by
      simp only [List.length_append, List.length_cons] at hlen
      omega)
    have hquote : stringAfter ((Utf8.encodeAll t).reverse ++ []) (r :: rounds) (0x22 :: rest) =
        .ok (Utf8.encodeAll t, rest) := by
      rw [stringAfter, if_pos rfl]
      simp
    rw [hquote] at hread
    rw [string, List.append_assoc, List.singleton_append]
    rw [List.append_assoc, List.singleton_append] at hread
    simp only [hread, bind, Except.bind, Utf8.decode_encodeAll ht]
    rfl

end Json.Document

/-! ## Lists of strings -/

/-- Values are texts if reading them as such gives these texts. -/
lemma Json.mapM_text?_eq_some_iff {items : List Value} {args : List Text} :
    items.mapM Json.Value.text? = some args ↔ items = args.map .string := by
  induction items generalizing args with
  | nil =>
    rw [List.mapM_nil]
    cases args <;> simp
  | cons item rest ih =>
    have hcons : (item :: rest).mapM Json.Value.text? = some args ↔
        ∃ t, item = .string t ∧ ∃ ts, rest.mapM Json.Value.text? = some ts ∧ args = t :: ts := by
      rw [List.mapM_cons]
      cases item with
      | string t =>
        show (rest.mapM Json.Value.text?).bind (fun ts => some (t :: ts)) = some args ↔ _
        rw [Option.bind_eq_some_iff]
        constructor
        · rintro ⟨ts, hts, ⟨⟩⟩
          exact ⟨t, rfl, ts, hts, rfl⟩
        · rintro ⟨t', ⟨⟩, ts, hts, rfl⟩
          exact ⟨ts, hts, rfl⟩
      | _ => simp [Json.Value.text?]
    rw [hcons]
    constructor
    · rintro ⟨t, rfl, ts, hts, rfl⟩
      rw [ih.mp hts]
      rfl
    · intro h
      cases args with
      | nil => cases h
      | cons t ts =>
        obtain ⟨hitem, hrest⟩ := List.cons.inj h
        exact ⟨t, hitem, ts, ih.mpr hrest, rfl⟩

end EditorDocs
