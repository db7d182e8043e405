import EditorDocs.Proofs.Json.Document
import EditorDocs.Proofs.Json.Meaning
import EditorDocs.Proofs.Json.Valid

/-!
# The parts of a document are read

Words, numbers and strings are read from their bytes as what they mean, whatever follows.  A number has
no end of its own, so that it must not go on in what follows (`Document.Follows`); a word and a string
end by themselves.

A number is read part by part, and each part makes sure that the one before it ends
(`Document.exponent_encodeAll`, `Document.fraction_encodeAll`, `Document.whole_encodeAll`).  A string is
read escape by escape.  What the escapes are resolved to is put together from the bytes of characters,
and is UTF-8 as long as no half of a surrogate pair stands by itself.
-/

namespace EditorDocs.Json.Document

variable {r : Reader}

/-! ## Bytes -/

/-- A character of ASCII is one byte. -/
lemma encodeNat_ascii {n : Nat} (h : n < 0x80) : Utf8.encodeNat n = [UInt8.ofNat n] := by
  rw [Utf8.encodeNat, if_pos h]

/-- The bytes of white space are blanks. -/
lemma encodeAll_gap {gap : Text} (h : IsGap gap) :
    ∀ b ∈ Utf8.encodeAll gap, b = 0x20 ∨ b = 0x09 ∨ b = 0x0A ∨ b = 0x0D := by
  intro b hb
  obtain ⟨c, hc, hb⟩ := List.mem_flatMap.mp hb
  rw [encodeNat_ascii (by have := h c hc; omega), List.mem_singleton] at hb
  rcases h c hc with hval | hval | hval | hval <;> simp [hb, hval]

/-- White space is skipped. -/
lemma skip_gap {gap : Text} (h : IsGap gap) (bs : Bytes) :
    skip (Utf8.encodeAll gap ++ bs) = skip bs := by
  refine List.dropWhile_append_of_pos fun b hb => ?_
  rcases encodeAll_gap h b hb with rfl | rfl | rfl | rfl <;> rfl

/-- No number goes on in the bytes. -/
def Follows (rest : Bytes) : Prop :=
  ∀ b ∈ rest.head?, isDigit b = false ∧ b ≠ 0x2E ∧ b ≠ 0x65 ∧ b ≠ 0x45

/-- No number goes on in white space. -/
lemma Follows.gap {gap : Text} (h : IsGap gap) {rest : Bytes} (hrest : Follows rest) :
    Follows (Utf8.encodeAll gap ++ rest) := by
  cases hbytes : Utf8.encodeAll gap with
  | nil => exact hrest
  | cons b bytes =>
    intro b' hb'
    obtain rfl : b = b' := Option.some.inj hb'
    rcases encodeAll_gap h b (hbytes ▸ List.mem_cons_self) with rfl | rfl | rfl | rfl <;> decide

/-! ## Words -/

/-- A word is read where it is spelled. -/
lemma word_append {spelling bytes : Bytes} (h : spelling = bytes) (v : Value) (rest : Bytes) :
    word v spelling (bytes ++ rest) = .ok (v, rest) := by
  subst h
  induction spelling with
  | nil => rfl
  | cons s spelling ih => rw [List.cons_append, word, if_pos rfl, ih]

/-- What the reader finds at the start of a value: no blank and no end of a container. -/
structure IsStart (b : UInt8) : Prop where
  /-- It is no blank. -/
  noGap : isGap b = false
  /-- It is no end of a list. -/
  noBracket : b ≠ 0x5D
  /-- It is no end of an object. -/
  noBrace : b ≠ 0x7D

/-- The words are read. -/
lemma valueWith_word {t : Text} {v : Value} (h : (t, v) ∈ literals) (item : ItemReader) (rest : Bytes) :
    ∃ b bytes, Utf8.encodeAll t = b :: bytes ∧ IsStart b ∧
      valueWith r item (b :: bytes ++ rest) = .ok (v, rest) := by
  simp only [literals, List.mem_cons, Prod.mk.injEq, List.not_mem_nil, or_false] at h
  rcases h with ⟨rfl, rfl⟩ | ⟨rfl, rfl⟩ | ⟨rfl, rfl⟩
  · have hspelled : spelled "null" = [0x6E, 0x75, 0x6C, 0x6C] := by decide +kernel
    refine ⟨0x6E, [0x75, 0x6C, 0x6C], by decide, ⟨by decide, by decide, by decide⟩, ?_⟩
    exact word_append hspelled .null rest
  · have hspelled : spelled "true" = [0x74, 0x72, 0x75, 0x65] := by decide +kernel
    refine ⟨0x74, [0x72, 0x75, 0x65], by decide, ⟨by decide, by decide, by decide⟩, ?_⟩
    exact word_append hspelled (.bool true) rest
  · have hspelled : spelled "false" = [0x66, 0x61, 0x6C, 0x73, 0x65] := by decide +kernel
    refine ⟨0x66, [0x61, 0x6C, 0x73, 0x65], by decide, ⟨by decide, by decide, by decide⟩, ?_⟩
    exact word_append hspelled (.bool false) rest

/-! ## Numbers -/

/-- The bytes of decimal digits are decimal digits, which stand for these. -/
lemma bytes_of_digits {ds : Text} (h : ∀ c ∈ ds, c.isDigit = true) :
    (∀ b ∈ Utf8.encodeAll ds, isDigit b = true) ∧ (Utf8.encodeAll ds).map ascii = ds := by
  have hone : ∀ c : CodePoint, c.isDigit = true →
      ∃ b, Utf8.encodeNat c.val = [b] ∧ isDigit b = true ∧ ascii b = c := by
    intro c hc
    have hrange : 0x30 ≤ c.val ∧ c.val ≤ 0x39 := by simpa [CodePoint.isDigit] using hc
    have hn : (UInt8.ofNat c.val).toNat = c.val := Utf8.toNat_ofNat (by omega)
    refine ⟨_, encodeNat_ascii (by omega), ?_, ?_⟩
    · simp only [isDigit, Bool.and_eq_true, decide_eq_true_eq, UInt8.le_iff_toNat_le, hn]
      exact hrange
    · rw [ascii, hn, CodePoint.ofNat_val]
  induction ds with
  | nil => exact ⟨by simp [Utf8.encodeAll], rfl⟩
  | cons c ds ih =>
    obtain ⟨hc, hds⟩ := List.forall_mem_cons.mp h
    obtain ⟨b, hb, hdigit, hascii⟩ := hone c hc
    obtain ⟨hbytes, hmap⟩ := ih hds
    rw [Utf8.encodeAll_cons, hb, List.singleton_append]
    exact ⟨List.forall_mem_cons.mpr ⟨hdigit, hbytes⟩, by rw [List.map_cons, hascii, hmap]⟩

/-- A digit is no other byte than a digit. -/
lemma ne_of_isDigit {d x : UInt8} (hd : isDigit d = true) (hx : isDigit x = false) : d ≠ x := by
  rintro rfl
  rw [hd] at hx
  cases hx

/-- Digits begin with one in bytes, too. -/
lemma exists_digit {ds : Text} (h : IsDigits ds) :
    ∃ b bytes, Utf8.encodeAll ds = b :: bytes ∧ isDigit b = true := by
  obtain ⟨hbytes, hmap⟩ := bytes_of_digits h.digits
  obtain ⟨b, bytes, hcons⟩ : ∃ b bytes, Utf8.encodeAll ds = b :: bytes := by
    refine List.exists_cons_of_ne_nil fun hnil => h.nonempty ?_
    rw [← hmap, hnil]
    rfl
  exact ⟨b, bytes, hcons, hbytes b (hcons ▸ List.mem_cons_self)⟩

/-- Digits are read up to where they end. -/
lemma digits_encodeAll {ds : Text} (h : IsDigits ds) {rest : Bytes}
    (hrest : ∀ b ∈ rest.head?, isDigit b = false) :
    digits (Utf8.encodeAll ds ++ rest) = .ok (ds, rest) := by
  obtain ⟨hbytes, hmap⟩ := bytes_of_digits h.digits
  have hspan : (Utf8.encodeAll ds ++ rest).span isDigit = (Utf8.encodeAll ds, rest) := by
    rw [List.span_eq_takeWhile_dropWhile, List.takeWhile_append_of_pos hbytes,
      List.dropWhile_append_of_pos hbytes]
    cases rest with
    | nil => simp
    | cons b rest =>
      have hb : isDigit b = false := hrest b rfl
      rw [List.takeWhile_cons_of_neg (by simp [hb]), List.dropWhile_cons_of_neg (by simp [hb]),
        List.append_nil]
  obtain ⟨b, bytes, hcons, -⟩ := exists_digit h
  rw [digits, hspan, hcons]
  rw [hcons] at hmap
  simp only [hmap]

/-- The digits before the point are read. -/
lemma whole_encodeAll {before : Nat} {ds : Text} (h : IsWhole ds)
    (hlimit : before + ds.length ≤ wholeLimit) {rest : Bytes}
    (hrest : ∀ b ∈ rest.head?, isDigit b = false) :
    whole before (Utf8.encodeAll ds ++ rest) = .ok (ds, rest) := by
  have hdigits := digits_encodeAll h.toIsDigits hrest
  unfold whole
  simp only [hdigits, bind, Except.bind]
  split
  · rename_i z c behind
    have hzero : z.val ≠ 0x30 := by
      intro hz
      have hhead : z = ('0' : CodePoint) := by
        rw [← CodePoint.ofNat_val z, hz]
        rfl
      exact absurd (h.plain (congrArg some hhead)) (by rw [hhead]; simp [Text.ofString])
    rw [if_neg hzero, if_neg (Nat.not_lt.mpr hlimit)]
    rfl
  · rfl

/-- No fraction begins in the bytes. -/
def EndsFraction (rest : Bytes) : Prop := ∀ b ∈ rest.head?, isDigit b = false ∧ b ≠ 0x2E

/-- The exponent is read, and no fraction begins with it. -/
lemma exponent_encodeAll {e : Text} {ex : Option (Bool × Text)} (h : ExponentMeans e ex)
    {rest : Bytes} (hrest : Follows rest) :
    exponent (Utf8.encodeAll e ++ rest) = .ok (ex, rest) ∧
      EndsFraction (Utf8.encodeAll e ++ rest) := by
  cases h with
  | none =>
    refine ⟨?_, fun b hb => ⟨(hrest b hb).1, (hrest b hb).2.1⟩⟩
    cases rest with
    | nil => rfl
    | cons b rest =>
      obtain ⟨-, -, hsmall, hlarge⟩ := hrest b rfl
      exact if_neg (not_or.mpr ⟨hsmall, hlarge⟩)
  | @some letter sign ds hletter hsign h =>
    have hdigits := digits_encodeAll h fun b hb => (hrest b hb).1
    have hletter : ∃ b, Utf8.encodeNat letter.val = [b] ∧ (b = 0x65 ∨ b = 0x45) := by
      rcases hletter with rfl | rfl
      · exact ⟨0x65, by decide, by decide⟩
      · exact ⟨0x45, by decide, by decide⟩
    obtain ⟨b, hb, hmark⟩ := hletter
    rw [Utf8.encodeAll_cons, hb, Utf8.encodeAll_append, List.singleton_append, List.cons_append]
    refine ⟨?_, fun b' hb' => ?_⟩
    · rw [exponent.eq_def]
      simp only
      rw [if_pos hmark]
      rcases hsign with rfl | rfl | rfl
      · -- without a sign the digits stand right there
        obtain ⟨d, bytes, hcons, hd⟩ := exists_digit h
        have hminus : d ≠ 0x2D := ne_of_isDigit hd rfl
        have hplus : d ≠ 0x2B := ne_of_isDigit hd rfl
        rw [hcons, List.cons_append] at hdigits
        have hnil : Utf8.encodeAll [] = [] := rfl
        simp only [hnil, List.nil_append, hcons, List.cons_append, if_neg hminus, if_neg hplus,
          hdigits]
        rfl
      · have hplus : Utf8.encodeAll "+" = [0x2B] := by decide
        rw [hplus, List.singleton_append, List.cons_append]
        exact congrArg (Except.map _) hdigits
      · have hminus : Utf8.encodeAll "-" = [0x2D] := by decide
        rw [hminus, List.singleton_append, List.cons_append]
        exact congrArg (Except.map _) hdigits
    · obtain rfl : b = b' := Option.some.inj hb'
      rcases hmark with rfl | rfl <;> decide

/-- The fraction is read, and no digit begins with it. -/
lemma fraction_encodeAll {f : Text} {fr : Option Text} (h : FractionMeans f fr) {rest : Bytes}
    (hrest : EndsFraction rest) :
    fraction (Utf8.encodeAll f ++ rest) = .ok (fr, rest) ∧
      ∀ b ∈ (Utf8.encodeAll f ++ rest).head?, isDigit b = false := by
  cases h with
  | none =>
    refine ⟨?_, fun b hb => (hrest b hb).1⟩
    cases rest with
    | nil => rfl
    | cons b rest => exact if_neg (hrest b rfl).2
  | @some ds h =>
    have hpoint : Utf8.encodeNat ('.' : CodePoint).val = [0x2E] := by decide
    have hdigits := digits_encodeAll h fun b hb => (hrest b hb).1
    rw [Utf8.encodeAll_cons, hpoint, List.singleton_append, List.cons_append]
    refine ⟨?_, fun b hb => ?_⟩
    · rw [fraction, if_pos rfl, hdigits]
      rfl
    · obtain rfl : 0x2E = b := Option.some.inj hb
      rfl

/-- A number is read behind its sign. -/
lemma number_encodeAll {whole f e : Text} {fr : Option Text} {ex : Option (Bool × Text)}
    (hwhole : IsWhole whole) {negative : Bool}
    (hlimit : signLength r negative + whole.length ≤ wholeLimit) (hf : FractionMeans f fr)
    (he : ExponentMeans e ex) {rest : Bytes} (hrest : Follows rest) :
    number r negative (Utf8.encodeAll (whole ++ f ++ e) ++ rest) =
      .ok (Numeral.value ⟨negative, whole, fr, ex⟩, rest) := by
  obtain ⟨hexponent, hends⟩ := exponent_encodeAll he hrest
  obtain ⟨hfraction, hstop⟩ := fraction_encodeAll hf hends
  have hdigits := whole_encodeAll hwhole hlimit hstop
  rw [Utf8.encodeAll_append, Utf8.encodeAll_append, List.append_assoc, List.append_assoc, number]
  simp only [hdigits, hfraction, hexponent, bind, Except.bind]
  rfl

/-- What begins with a digit is read as a number. -/
lemma valueWith_digit {d : UInt8} (hd : isDigit d = true) (item : ItemReader) (bs : Bytes) :
    valueWith r item (d :: bs) = number r false (d :: bs) := by
  have hne : ∀ x : UInt8, isDigit x = false → d ≠ x := fun x => ne_of_isDigit hd
  rw [valueWith.eq_def]
  simp only [hne 0x22 rfl, hne 0x5B rfl, hne 0x7B rfl, hne 0x6E rfl, hne 0x74 rfl, hne 0x66 rfl,
    hne 0x4E rfl, hne 0x49 rfl, hne 0x2D rfl, hd, if_false, if_true]

/-- What begins with a minus sign and a digit is read as a number. -/
lemma valueWith_minus {d : UInt8} (hd : isDigit d = true) (item : ItemReader) (bs : Bytes) :
    valueWith r item (0x2D :: d :: bs) = number r true (d :: bs) := by
  exact if_neg (ne_of_isDigit hd rfl)

/-- A number is read, with its sign or without one. -/
lemma valueWith_number {t : Text} {v : Value} (h : NumberMeans wholeLimit r.countsSign t v) :
    ∃ b bytes, Utf8.encodeAll t = b :: bytes ∧ IsStart b ∧
      ∀ (item : ItemReader) {rest : Bytes}, Follows rest →
        valueWith r item (b :: bytes ++ rest) = .ok (v, rest) := by
  cases h with
  | @intro sign whole f e fr ex hsign hwhole hlimit hf he =>
    obtain ⟨d, first, hfirst, hd⟩ := exists_digit hwhole.toIsDigits
    have hcons : Utf8.encodeAll (whole ++ f ++ e) = d :: (first ++ Utf8.encodeAll (f ++ e)) := by
      rw [List.append_assoc, Utf8.encodeAll_append, hfirst, List.cons_append]
    have hnumber : ∀ {negative} {rest : Bytes}, signLength r negative + whole.length ≤ wholeLimit →
        Follows rest → number r negative (d :: (first ++ Utf8.encodeAll (f ++ e)) ++ rest) =
          .ok (Numeral.value ⟨negative, whole, fr, ex⟩, rest) := fun hlength hrest => by
      rw [← hcons]
      exact number_encodeAll hwhole hlength hf he hrest
    rcases hsign with rfl | rfl
    · have hgap : isGap d = false := by
        simp [isGap, ne_of_isDigit hd (x := 0x20) rfl, ne_of_isDigit hd (x := 0x09) rfl,
          ne_of_isDigit hd (x := 0x0A) rfl, ne_of_isDigit hd (x := 0x0D) rfl]
      refine ⟨d, _, hcons, ⟨hgap, ne_of_isDigit hd rfl, ne_of_isDigit hd rfl⟩,
        fun item rest hrest => ?_⟩
      have hlength : signLength r false + whole.length ≤ wholeLimit := by
        simpa [signLength] using hlimit
      rw [List.cons_append, valueWith_digit hd, ← List.cons_append, hnumber hlength hrest]
      rfl
    · refine ⟨0x2D, d :: (first ++ Utf8.encodeAll (f ++ e)), ?_, ⟨by decide, by decide, by decide⟩,
        fun item rest hrest => ?_⟩
      · have hminus : Utf8.encodeAll "-" = [0x2D] := by decide
        have hsigned : ("-" : Text) ++ whole ++ f ++ e = ("-" : Text) ++ (whole ++ f ++ e) := by simp
        rw [hsigned, Utf8.encodeAll_append, hminus, hcons]
        rfl
      · have hlength : signLength r true + whole.length ≤ wholeLimit := hlimit
        rw [List.cons_append, List.cons_append, valueWith_minus hd, ← List.cons_append,
          hnumber hlength hrest]
        rfl

/-! ## Strings -/

/-- A hexadecimal digit is one byte, which is read as it. -/
lemma exists_hexByte {c : CodePoint} {n : Nat} (h : c.hexValue? = some n) :
    ∃ b, Utf8.encodeNat c.val = [b] ∧ (ascii b).hexValue? = some n := by
  have hascii := Line.lt_of_hexValue? h
  refine ⟨_, encodeNat_ascii hascii, ?_⟩
  rw [ascii, Utf8.toNat_ofNat (by omega), CodePoint.ofNat_val, h]

/-- Four digits are four bytes, which are read as the number that the digits spell. -/
lemma exists_hexBytes {digits : Text} {n : Nat} (h : SpellsUnit digits n) :
    n < 0x10000 ∧ ∃ a b c d, Utf8.encodeAll digits = [a, b, c, d] ∧
      ∀ after, hexNumber 0 after [a, b, c, d] = .ok n := by
  cases h with
  | intro ha hb hc hd =>
    obtain ⟨a, hva, hra⟩ := exists_hexByte ha
    obtain ⟨b, hvb, hrb⟩ := exists_hexByte hb
    obtain ⟨c, hvc, hrc⟩ := exists_hexByte hc
    obtain ⟨d, hvd, hrd⟩ := exists_hexByte hd
    have hi := lt_of_hexValue?_eq ha
    have hj := lt_of_hexValue?_eq hb
    have hk := lt_of_hexValue?_eq hc
    have hl := lt_of_hexValue?_eq hd
    refine ⟨by omega, a, b, c, d, by simp [Utf8.encodeAll, hva, hvb, hvc, hvd], fun after => ?_⟩
    simp only [hexNumber, hra, hrb, hrc, hrd, Nat.zero_mul, Nat.zero_add]

/-- The bytes are an escape for these ones: a backslash and what is resolved behind it. -/
def Resolves (raw content : Bytes) : Prop :=
  ∃ escaped, raw = 0x5C :: escaped ∧ ∀ rest, escape (escaped ++ rest) = .ok (content, rest)

/-- The escape of a letter is resolved. -/
lemma resolves_letter {e c : CodePoint} (h : (e, c) ∈ escapeLetters) :
    Resolves (Utf8.encodeAll (("\\" : Text) ++ [e])) (Utf8.encodeNat c.val) := by
  have hall : ∀ p ∈ escapeLetters,
      Utf8.encodeAll (("\\" : Text) ++ [p.1]) = [0x5C, UInt8.ofNat p.1.val] ∧
        letterEscape? (UInt8.ofNat p.1.val) = some (UInt8.ofNat p.2.val) ∧
        Utf8.encodeNat p.2.val = [UInt8.ofNat p.2.val] := by
    decide
  obtain ⟨hspell, hletter, hchar⟩ := hall _ h
  refine ⟨_, hspell, fun rest => ?_⟩
  simp only [List.singleton_append, escape, hletter, hchar]

/-- The bytes behind a backslash and its letter. -/
lemma encodeAll_unit (digits : Text) :
    Utf8.encodeAll (("\\u" : Text) ++ digits) = 0x5C :: 0x75 :: Utf8.encodeAll digits := by
  rw [Utf8.encodeAll_append]
  have hu : Utf8.encodeAll "\\u" = [0x5C, 0x75] := by decide
  rw [hu]
  rfl

/-- The number of a character is that of the character. -/
lemma val_ofNat {n : Nat} (h : n < 0x110000) : (CodePoint.ofNat n).val = n := by
  rw [CodePoint.ofNat, dif_pos h]

/-- The escape of a number is resolved. -/
lemma resolves_unit {digits : Text} {n : Nat} (h : SpellsUnit digits n)
    (hn : n < 0xD800 ∨ 0xE000 ≤ n) :
    Resolves (Utf8.encodeAll (("\\u" : Text) ++ digits)) (Utf8.encodeNat (CodePoint.ofNat n).val) := by
  obtain ⟨hlt, a, b, c, d, hbytes, hread⟩ := exists_hexBytes h
  have hletter : letterEscape? 0x75 = none := by decide
  refine ⟨_, encodeAll_unit digits, fun rest => ?_⟩
  rw [hbytes, val_ofNat (by omega)]
  simp only [List.cons_append, List.nil_append, escape, hletter, if_true, unitEscape, hread, bind,
    Except.bind]
  rw [if_neg (by omega), if_neg (by omega)]
  rfl

/-- The escape of a surrogate pair is resolved. -/
lemma resolves_pair {digits digits' : Text} {high low : Nat} (h : SpellsUnit digits high)
    (h' : SpellsUnit digits' low) (hhigh : 0xD800 ≤ high ∧ high < 0xDC00)
    (hlow : 0xDC00 ≤ low ∧ low < 0xE000) :
    Resolves (Utf8.encodeAll (("\\u" : Text) ++ digits ++ (("\\u" : Text) ++ digits')))
      (Utf8.encodeNat (CodePoint.ofNat (0x10000 + (high - 0xD800) * 0x400 + (low - 0xDC00))).val) := by
  obtain ⟨-, a, b, c, d, hbytes, hread⟩ := exists_hexBytes h
  obtain ⟨-, a', b', c', d', hbytes', hread'⟩ := exists_hexBytes h'
  have hletter : letterEscape? 0x75 = none := by decide
  refine ⟨_, by rw [Utf8.encodeAll_append, encodeAll_unit, encodeAll_unit, List.cons_append],
    fun rest => ?_⟩
  rw [hbytes, hbytes', val_ofNat (by omega)]
  simp only [List.cons_append, List.nil_append, escape, hletter, if_true, unitEscape, hread, bind,
    Except.bind]
  rw [if_neg (by omega), if_pos hhigh]
  simp only [secondHalf, if_true, hread', bind, Except.bind]
  rw [if_pos hlow]
  rfl

/-- An escape that is resolved is read in one round. -/
lemma Resolves.stringAfter {raw content : Bytes} (h : Resolves raw content) (before rest : Bytes)
    {rounds : Bytes} (hrounds : raw.length ≤ rounds.length) :
    ∃ rounds', rounds.length ≤ rounds'.length + raw.length ∧
      stringAfter before rounds (raw ++ rest) = stringAfter (content.reverse ++ before) rounds' rest := by
  obtain ⟨escaped, rfl, hread⟩ := h
  obtain ⟨r, rounds, rfl⟩ := List.exists_cons_of_length_pos (l := rounds) (by
    rw [List.length_cons] at hrounds
    omega)
  refine ⟨rounds, by simp only [List.length_cons]; omega, ?_⟩
  rw [List.cons_append, Document.stringAfter, if_neg (by decide), if_pos rfl, hread]
  rfl

/-- What spells a text is read as the text, up to the closing quote. -/
lemma stringAfter_spells {t s : Text} (h : Spells false t s) (before rest : Bytes) {rounds : Bytes}
    (hrounds : (Utf8.encodeAll t).length < rounds.length) :
    stringAfter before rounds (Utf8.encodeAll t ++ 0x22 :: rest) =
      .ok (before.reverse ++ Utf8.encodeAll s, rest) := by
  -- every escape is one round
  have hescape : ∀ {raw t s : Text} {c : CodePoint},
      Resolves (Utf8.encodeAll raw) (Utf8.encodeNat c.val) →
      (∀ (before : Bytes) {rounds : Bytes}, (Utf8.encodeAll t).length < rounds.length →
        Document.stringAfter before rounds (Utf8.encodeAll t ++ 0x22 :: rest) =
          .ok (before.reverse ++ Utf8.encodeAll s, rest)) →
      ∀ (before : Bytes) {rounds : Bytes}, (Utf8.encodeAll (raw ++ t)).length < rounds.length →
        Document.stringAfter before rounds (Utf8.encodeAll (raw ++ t) ++ 0x22 :: rest) =
          .ok (before.reverse ++ Utf8.encodeAll (c :: s), rest) := by
    intro raw t s c hresolves ih before rounds hrounds
    rw [Utf8.encodeAll_append, List.length_append] at hrounds
    have hraw : (Utf8.encodeAll raw).length ≤ rounds.length := by omega
    obtain ⟨rounds', hlength, hread⟩ := hresolves.stringAfter before
      (Utf8.encodeAll t ++ 0x22 :: rest) hraw
    rw [Utf8.encodeAll_append, List.append_assoc, hread, ih _ (by omega), Utf8.encodeAll_cons]
    simp
  induction h generalizing before rounds with
  | nil =>
    obtain ⟨r, rounds, rfl⟩ := List.exists_cons_of_length_pos hrounds
    simp [Utf8.encodeAll, Document.stringAfter]
  | @plain c t s h _ ih =>
    rw [Utf8.encodeAll_cons, List.length_append] at hrounds
    have hplain : IsPlain c := ⟨h.2.1, h.2.2, h.1⟩
    rw [Utf8.encodeAll_cons, List.append_assoc,
      stringAfter_plain (fun b hb => plain_of_mem_encodeNat hplain hb) _ _ _ (by omega),
      ih _ (by rw [List.length_drop]; omega), Utf8.encodeAll_cons]
    simp
  | letter h _ ih => exact hescape (resolves_letter h) (fun before => ih before) before hrounds
  | unit h hn _ ih => exact hescape (resolves_unit h hn) (fun before => ih before) before hrounds
  | @pair digits digits' t s high low h h' hhigh hlow _ ih =>
    have hmoved : ("\\u" : Text) ++ digits ++ (("\\u" : Text) ++ digits' ++ t) =
        ("\\u" : Text) ++ digits ++ (("\\u" : Text) ++ digits') ++ t := by simp
    rw [hmoved] at hrounds ⊢
    exact hescape (resolves_pair h h' hhigh hlow) (fun before => ih before) before hrounds
  | half hlone => cases hlone

/-- What is spelled without halves of surrogate pairs holds no surrogates. -/
lemma isScalar_of_spells {t s : Text} (h : Spells false t s) (ht : t.IsScalar) : s.IsScalar := by
  induction h with
  | nil => exact List.forall_mem_nil _
  | plain _ _ ih =>
    obtain ⟨hc, ht⟩ := List.forall_mem_cons.mp ht
    exact List.forall_mem_cons.mpr ⟨hc, ih ht⟩
  | letter h _ ih =>
    have hall : ∀ p ∈ escapeLetters, p.2.isSurrogate = false := by decide
    exact List.forall_mem_cons.mpr ⟨hall _ h, ih (List.forall_mem_append.mp ht).2⟩
  | unit _ hn _ ih =>
    exact List.forall_mem_cons.mpr ⟨Utf8.isSurrogate_ofNat hn, ih (List.forall_mem_append.mp ht).2⟩
  | pair _ _ _ _ _ ih =>
    have hrest := (List.forall_mem_append.mp (List.forall_mem_append.mp ht).2).2
    exact List.forall_mem_cons.mpr ⟨Utf8.isSurrogate_ofNat (Or.inr (by omega)), ih hrest⟩
  | half hlone => cases hlone

/-- A string is read as the text that it means. -/
lemma string_means {t s : Text} (h : StringMeans false t s) (ht : t.IsScalar) :
    ∃ bytes, Utf8.encodeAll t = 0x22 :: bytes ∧
      ∀ rest, string (bytes ++ rest) = .ok (s, rest) := by
  cases h with
  | @intro body s h =>
    have hquote : Utf8.encodeAll "\"" = [0x22] := by decide
    refine ⟨Utf8.encodeAll body ++ [0x22], ?_, fun rest => ?_⟩
    · rw [Utf8.encodeAll_append, Utf8.encodeAll_append, hquote]
      rfl
    · have hbody : body.IsScalar := fun c hc => ht c (by simp [hc])
      rw [List.append_assoc, List.singleton_append, string,
        stringAfter_spells h [] rest (by simp)]
      simp only [bind, Except.bind, List.reverse_nil, List.nil_append,
        Utf8.decode_encodeAll (isScalar_of_spells h hbody)]
      rfl

end EditorDocs.Json.Document
