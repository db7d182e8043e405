import EditorDocs.Proofs.Json.Outside
import EditorDocs.Proofs.Json.Document
import EditorDocs.Proofs.Text.Valid

/-!
# Documents are UTF-8

Bytes that are read as a document spell a text (`Json.isValid_of_readDocument`).  The reader does not
look at this as such: it takes bytes of ASCII outside of strings, and holds a string against UTF-8 after
its escapes have been resolved.  What an escape stands for is a character as a whole, so the bytes
between escapes are valid if the string is (`Json.Document.StandsFor.escape`).

Each reader takes valid bytes from the start of the input, and this composes
(`Json.Document.Takes.trans`).
-/

namespace EditorDocs.Json

namespace Document

open Utf8 (IsValid)

/-! ## Strings -/

/-- The bytes are valid if those that they stand for are, wherever they stand. -/
def StandsFor (raw content : Bytes) : Prop := ∀ before, IsValid (before ++ content) →
  IsValid (before ++ raw)

/-- A byte that is no escape stands for itself. -/
lemma StandsFor.byte {raw content : Bytes} (h : StandsFor raw content) (b : UInt8) :
    StandsFor (b :: raw) (b :: content) := by
  intro before hvalid
  have hmoved := h (before ++ [b]) (by simpa using hvalid)
  simpa using hmoved

/-- An escape stands for a character as a whole. -/
lemma StandsFor.escape {raw content : Bytes} (h : StandsFor raw content) {escaped : Bytes}
    (hascii : ∀ x ∈ escaped, x.toNat < 0x80) {c : CodePoint} (hc : c.isSurrogate = false) :
    StandsFor (escaped ++ raw) (Utf8.encodeNat c.val ++ content) := by
  intro before hvalid
  obtain ⟨first, rest, hfirst, hstart, -⟩ := Utf8.exists_encodeNat_eq c.isLt
  rw [hfirst] at hvalid
  obtain ⟨hbefore, hbehind⟩ := IsValid.cut hstart hvalid
  have hchar : IsValid (Utf8.encodeNat c.val ++ content) := by
    rw [hfirst]
    exact hbehind
  have hraw := h [] (IsValid.of_encodeNat_append hc hchar)
  exact hbefore.append ((Utf8.isValid_ascii hascii).append hraw)

/-- A hexadecimal digit is less than sixteen. -/
lemma lt_of_hexValue?_eq {c : CodePoint} {d : Nat} (h : c.hexValue? = some d) : d < 16 := by
  unfold CodePoint.hexValue? CodePoint.isDigit at h
  simp only [Bool.and_eq_true, decide_eq_true_eq] at h
  repeat' split at h
  all_goals first
    | (cases h; omega)
    | cases h

/-- A byte as a character has its number. -/
@[simp] lemma val_ascii (b : UInt8) : (ascii b).val = b.toNat := by
  have hlt := b.toNat_lt
  rw [ascii, CodePoint.ofNat, dif_pos (by omega)]

/-- Hexadecimal digits are bytes of ASCII, and spell a number below the power of sixteen. -/
lemma hexNumber_eq_ok {n m : Nat} {after bs : Bytes} (h : hexNumber n after bs = .ok m) :
    (∀ b ∈ bs, b.toNat < 0x80) ∧ m < (n + 1) * 16 ^ bs.length := by
  induction bs generalizing n with
  | nil =>
    cases h
    exact ⟨List.forall_mem_nil _, by simp⟩
  | cons b bs ih =>
    rw [hexNumber] at h
    split at h
    · rename_i d hd
      obtain ⟨hascii, hlt⟩ := ih h
      have hb := Line.lt_of_hexValue? hd
      have hd16 := lt_of_hexValue?_eq hd
      rw [val_ascii] at hb
      refine ⟨List.forall_mem_cons.mpr ⟨hb, hascii⟩, Nat.lt_of_lt_of_le hlt ?_⟩
      calc (n * 16 + d + 1) * 16 ^ bs.length
          ≤ ((n + 1) * 16) * 16 ^ bs.length := Nat.mul_le_mul_right _ (by omega)
        _ = (n + 1) * 16 ^ (b :: bs).length := by
          rw [List.length_cons, Nat.pow_succ', Nat.mul_assoc]
    · cases h

/-- The bytes were taken as an escape of a character. -/
def IsEscape (bs content rest : Bytes) : Prop := ∃ (escaped : Bytes) (c : CodePoint),
  bs = escaped ++ rest ∧ (∀ x ∈ escaped, x.toNat < 0x80) ∧ c.isSurrogate = false ∧
    content = Utf8.encodeNat c.val

/-- A number outside of the surrogates is that of a character. -/
lemma exists_char {n : Nat} (hlt : n < 0x110000) (h : n < 0xD800 ∨ 0xE000 ≤ n) :
    ∃ c : CodePoint, c.isSurrogate = false ∧ Utf8.encodeNat n = Utf8.encodeNat c.val := by
  refine ⟨CodePoint.ofNat n, Utf8.isSurrogate_ofNat h, ?_⟩
  rw [CodePoint.ofNat, dif_pos hlt]

/-- The second half of a pair is escaped, and completes a character. -/
lemma isEscape_secondHalf {high : Nat} (hhigh : 0xD800 ≤ high ∧ high < 0xDC00)
    {bs content rest : Bytes} (h : secondHalf high bs = .ok (content, rest)) :
    IsEscape bs content rest := by
  unfold secondHalf at h
  split at h
  · rename_i s u after
    split at h
    swap
    · cases h
    rename_i hs
    split at h
    swap
    · cases h
    rename_i hu
    split at h
    · rename_i l1 l2 l3 l4 behind
      obtain ⟨low, hlow, h⟩ := Result.of_bind h
      split at h
      · rename_i hpair
        obtain ⟨hcontent, hrest⟩ := Prod.mk.inj (Except.ok.inj h)
        obtain ⟨hdigits, -⟩ := hexNumber_eq_ok hlow
        let n := 0x10000 + (high - 0xD800) * 0x400 + (low - 0xDC00)
        obtain ⟨c, hc, hchar⟩ := exists_char (n := n) (by omega) (by omega)
        refine ⟨[s, u, l1, l2, l3, l4], c, by rw [hrest]; rfl, ?_, hc, hcontent.symm.trans hchar⟩
        rw [hs, hu]
        exact List.forall_mem_cons.mpr ⟨by decide, List.forall_mem_cons.mpr ⟨by decide, hdigits⟩⟩
      · cases h
    · cases h
  · split at h <;> cases h
  · cases h

/-- A unit is escaped: it is a character, or the first half of a pair. -/
lemma isEscape_unitEscape {bs content rest : Bytes} (h : unitEscape bs = .ok (content, rest)) :
    IsEscape bs content rest := by
  unfold unitEscape at h
  split at h
  · rename_i h1 h2 h3 h4 behind
    obtain ⟨n, hn, h⟩ := Result.of_bind h
    obtain ⟨hdigits, hlt⟩ := hexNumber_eq_ok hn
    simp only [List.length_cons, List.length_nil] at hlt
    split at h
    · cases h
    split at h
    · rename_i hhigh
      obtain ⟨escaped, c, rfl, hascii, hc, hcontent⟩ := isEscape_secondHalf hhigh h
      refine ⟨[h1, h2, h3, h4] ++ escaped, c, rfl, ?_, hc, hcontent⟩
      intro x hx
      rcases List.mem_append.mp hx with hx | hx
      · exact hdigits x hx
      · exact hascii x hx
    · obtain ⟨hcontent, hrest⟩ := Prod.mk.inj (Except.ok.inj h)
      obtain ⟨c, hc, hchar⟩ := exists_char (n := n) (by omega) (by omega)
      exact ⟨[h1, h2, h3, h4], c, by rw [hrest]; rfl, hdigits, hc, hcontent.symm.trans hchar⟩
  · cases h

/-- A letter that is escaped is one of ASCII, and so is what it stands for. -/
lemma lt_of_letterEscape? {e x : UInt8} (h : letterEscape? e = some x) :
    e.toNat < 0x80 ∧ x.toNat < 0x80 := by
  have hletters : ∀ b : UInt8, b.toNat < 0x80 → e = b → e.toNat < 0x80 := fun b hb he => he ▸ hb
  unfold letterEscape? at h
  split at h
  · rename_i hsame
    cases h
    rcases hsame with rfl | rfl | rfl <;> decide
  -- five letters are left, which stand for controls
  repeat' split at h
  all_goals first
    | (rename_i he; cases h; exact ⟨hletters _ (by decide) he, by decide⟩)
    | cases h

/-- An escape is taken behind its backslash. -/
lemma isEscape_escape {bs content rest : Bytes} (h : escape bs = .ok (content, rest)) :
    IsEscape bs content rest := by
  unfold escape at h
  split at h
  · cases h
  · rename_i e behind
    split at h
    · rename_i x hletter
      obtain ⟨he, hx⟩ := lt_of_letterEscape? hletter
      obtain ⟨hcontent, hrest⟩ := Prod.mk.inj (Except.ok.inj h)
      refine ⟨[e], CodePoint.ofNat x.toNat, by rw [hrest]; rfl, by simpa using he,
        Utf8.isSurrogate_ofNat (by omega), ?_⟩
      rw [← hcontent, Utf8.encodeNat_of_whole (Utf8.ofByte_ascii hx)]
    · split at h
      · rename_i hu
        obtain ⟨escaped, c, rfl, hascii, hc, hcontent⟩ := isEscape_unitEscape h
        refine ⟨e :: escaped, c, rfl, List.forall_mem_cons.mpr ⟨?_, hascii⟩, hc, hcontent⟩
        rw [hu]
        decide
      · cases h

/-- What stands before the closing quote stands for the content of the string. -/
lemma stands_of_stringAfter {before rounds bs content rest : Bytes}
    (h : stringAfter before rounds bs = .ok (content, rest)) :
    ∃ raw resolved, bs = raw ++ 0x22 :: rest ∧ content = before.reverse ++ resolved ∧
      StandsFor raw resolved := by
  induction rounds generalizing before bs with
  | nil => cases h
  | cons r rounds ih =>
    cases bs with
    | nil => cases h
    | cons b bs =>
      rw [stringAfter] at h
      split at h
      · rename_i hquote
        cases h
        exact ⟨[], [], by rw [hquote]; rfl, (List.append_nil _).symm, fun before hvalid => hvalid⟩
      split at h
      · rename_i hslash
        obtain ⟨⟨part, behind⟩, hpart, h⟩ := Result.of_bind h
        obtain ⟨escaped, c, rfl, hascii, hc, rfl⟩ := isEscape_escape hpart
        obtain ⟨raw, resolved, rfl, rfl, hstands⟩ := ih h
        refine ⟨b :: escaped ++ raw, Utf8.encodeNat c.val ++ resolved, by simp, by simp, ?_⟩
        refine hstands.escape (List.forall_mem_cons.mpr ⟨?_, hascii⟩) hc
        rw [hslash]
        decide
      split at h
      · cases h
      · obtain ⟨raw, resolved, rfl, rfl, hstands⟩ := ih h
        exact ⟨b :: raw, b :: resolved, rfl, by simp, hstands.byte b⟩

/-! ## Taking -/

/-- Valid bytes are taken from the start of the input, and the others are left. -/
def Takes (bs rest : Bytes) : Prop := ∃ raw, bs = raw ++ rest ∧ IsValid raw

/-- Nothing is taken. -/
lemma Takes.refl (bs : Bytes) : Takes bs bs := ⟨[], rfl, Utf8.isValid_ascii (List.forall_mem_nil _)⟩

/-- What is taken in two steps is taken. -/
lemma Takes.trans {bs middle rest : Bytes} (h : Takes bs middle) (h' : Takes middle rest) :
    Takes bs rest := by
  obtain ⟨raw, rfl, hraw⟩ := h
  obtain ⟨raw', rfl, hraw'⟩ := h'
  exact ⟨raw ++ raw', by rw [List.append_assoc], hraw.append hraw'⟩

/-- Bytes of ASCII are taken. -/
lemma takes_ascii {raw : Bytes} (h : ∀ x ∈ raw, x.toNat < 0x80) (rest : Bytes) :
    Takes (raw ++ rest) rest :=
  ⟨raw, rfl, Utf8.isValid_ascii h⟩

/-- A byte of ASCII is taken. -/
lemma takes_byte {b : UInt8} (h : b.toNat < 0x80) (rest : Bytes) : Takes (b :: rest) rest := by
  have hall : ∀ x ∈ [b], x.toNat < 0x80 := by simpa using h
  exact takes_ascii hall rest

/-- A mark is taken. -/
lemma takes_mark {b mark : UInt8} (hb : b = mark) (h : mark.toNat < 0x80) (rest : Bytes) :
    Takes (b :: rest) rest :=
  takes_byte (hb ▸ h) rest

/-- Bytes of a kind that is one of ASCII are taken as far as they stand together. -/
lemma takes_dropWhile {p : UInt8 → Bool} (h : ∀ x, p x = true → x.toNat < 0x80) (bs : Bytes) :
    Takes bs (bs.dropWhile p) := by
  have hall : ∀ x ∈ bs.takeWhile p, x.toNat < 0x80 := fun x hx => h x (List.mem_takeWhile_imp hx)
  have htakes := takes_ascii hall (bs.dropWhile p)
  rwa [List.takeWhile_append_dropWhile] at htakes

/-- Gaps are taken. -/
lemma takes_skip (bs : Bytes) : Takes bs (skip bs) := by
  refine takes_dropWhile (fun x hx => ?_) bs
  simp only [isGap, Bool.or_eq_true, decide_eq_true_eq] at hx
  rcases hx with ((rfl | rfl) | rfl) | rfl <;> decide

/-- A gap and a mark behind it are taken. -/
lemma takes_skip_mark {bs rest : Bytes} {mark : UInt8} (h : skip bs = mark :: rest)
    (hmark : mark.toNat < 0x80) : Takes bs rest := by
  have hskip := takes_skip bs
  rw [h] at hskip
  exact hskip.trans (takes_byte hmark rest)

/-! ## Readers -/

/-- A reader takes valid bytes for whatever it reads. -/
def ReadsValid {α : Type} (read : Bytes → Except Offence (α × Bytes)) : Prop :=
  ∀ bs v rest, read bs = .ok (v, rest) → Takes bs rest

/-- A string is taken. -/
lemma readsValid_string : ReadsValid string := by
  intro bs t rest h
  obtain ⟨⟨content, behind⟩, hcontent, h⟩ := Result.of_bind h
  obtain ⟨raw, resolved, rfl, hresolved, hstands⟩ := stands_of_stringAfter hcontent
  simp only at h
  split at h
  · rename_i t' hdecode
    cases h
    have hvalid : IsValid resolved := by
      rw [hresolved] at hdecode
      exact Utf8.isValid_iff_decode.mpr ⟨_, hdecode⟩
    have hraw : Takes (raw ++ 0x22 :: rest) (0x22 :: rest) := ⟨raw, rfl, hstands [] hvalid⟩
    exact hraw.trans (takes_byte (by decide) rest)
  · cases h

/-- Digits are taken. -/
lemma readsValid_digits : ReadsValid digits := by
  have hdigit : ∀ x : UInt8, isDigit x = true → x.toNat < 0x80 := by
    intro x hx
    simp only [isDigit, Bool.and_eq_true, decide_eq_true_eq, UInt8.le_iff_toNat_le] at hx
    exact Nat.lt_of_le_of_lt hx.2 (by decide)
  intro bs ds rest h
  have htakes := takes_dropWhile hdigit bs
  unfold digits at h
  rw [List.span_eq_takeWhile_dropWhile] at h
  split at h
  · cases h
  · cases h
  · rename_i hspan
    cases h
    rw [Prod.mk.injEq] at hspan
    rwa [hspan.2] at htakes

/-- Digits before the point are taken. -/
lemma readsValid_whole (before : Nat) : ReadsValid (whole before) := by
  intro bs ds rest h
  obtain ⟨⟨ds', behind⟩, hdigits, h⟩ := Result.of_bind h
  have htakes := readsValid_digits _ _ _ hdigits
  simp only at h
  split at h
  · split at h
    · cases h
    split at h
    · cases h
    · cases h
      exact htakes
  · cases h
    exact htakes

/-- A fraction is taken. -/
lemma readsValid_fraction : ReadsValid fraction := by
  intro bs f rest h
  unfold fraction at h
  split at h
  · rename_i b behind
    split at h
    · rename_i hpoint
      obtain ⟨⟨ds, behind'⟩, hdigits, heq⟩ := Result.of_map h
      cases heq
      exact (takes_mark hpoint (by decide) behind).trans (readsValid_digits _ _ _ hdigits)
    · cases h
      exact .refl _
  · cases h
    exact .refl _

/-- An exponent is taken. -/
lemma readsValid_exponent : ReadsValid exponent := by
  intro bs e rest h
  unfold exponent at h
  split at h
  · rename_i b behind
    split at h
    · rename_i hletter
      have hfirst : Takes (b :: behind) behind := by
        refine takes_byte ?_ behind
        rcases hletter with rfl | rfl <;> decide
      obtain ⟨⟨ds, behind'⟩, hdigits, heq⟩ := Result.of_map h
      cases heq
      refine hfirst.trans (Takes.trans ?_ (readsValid_digits _ _ _ hdigits))
      -- the digits come behind the sign if there is one
      cases behind with
      | nil => exact .refl _
      | cons s behind =>
        simp only
        split
        · exact takes_mark ‹_› (by decide) behind
        split
        · exact takes_mark ‹_› (by decide) behind
        · exact .refl _
    · cases h
      exact .refl _
  · cases h
    exact .refl _

/-- A number is taken. -/
lemma readsValid_number (r : Reader) (negative : Bool) : ReadsValid (number r negative) := by
  intro bs v rest h
  obtain ⟨⟨w, behind⟩, hw, h⟩ := Result.of_bind h
  obtain ⟨⟨f, behind'⟩, hf, h⟩ := Result.of_bind h
  obtain ⟨⟨e, behind''⟩, he, h⟩ := Result.of_bind h
  cases h
  have hwhole := readsValid_whole _ _ _ _ hw
  have hfraction := readsValid_fraction _ _ _ hf
  exact (hwhole.trans hfraction).trans (readsValid_exponent _ _ _ he)

/-- A word is taken. -/
lemma readsValid_word {spelling : Bytes} (hspelling : ∀ x ∈ spelling, x.toNat < 0x80) (x : Value) :
    ReadsValid (word x spelling) := by
  intro bs v rest h
  induction spelling generalizing bs with
  | nil =>
    cases h
    exact .refl _
  | cons s spelling ih =>
    cases bs with
    | nil => cases h
    | cons b bs =>
      rw [word] at h
      split at h
      · rename_i hb
        have hs := hspelling s List.mem_cons_self
        exact (takes_mark hb.symm hs bs).trans
          (ih (fun y hy => hspelling y (List.mem_cons_of_mem s hy)) bs h)
      · cases h

/-- The words are spelled in ASCII. -/
lemma lt_of_mem_spelled {s : String} {v : Value} (hs : (s, v) ∈ words) :
    ∀ x ∈ spelled s, x.toNat < 0x80 := by
  have hall : ∀ s ∈ words.map Prod.fst, ∀ x ∈ spelled s, x.toNat < 0x80 := by
    decide +kernel
  exact hall s (List.mem_map_of_mem (f := Prod.fst) hs)

variable {r : Reader} {item : ItemReader}

/-- Items are taken if each of them is. -/
lemma IsItems.takes (hitem : ReadsValid item) {bs rest : Bytes} {vs : List Value}
    (h : IsItems item bs vs rest) : Takes bs rest := by
  induction h with
  | last hone hend => exact (hitem _ _ _ hone).trans (takes_skip_mark hend (by decide))
  | cons hone hcomma hmore ih =>
    have hbehind := (hitem _ _ _ hone).trans (takes_skip_mark hcomma (by decide))
    exact (hbehind.trans (takes_skip _)).trans ih

/-- A member is taken if its value is. -/
lemma IsMember.takes (hitem : ReadsValid item) {bs after : Bytes} {name : Text} {v : Value}
    (h : IsMember item bs name v after) : Takes bs after := by
  cases h with
  | @intro inside _ between gap _ _ hname hcolon hone =>
    have hquote : Takes (0x22 :: inside) inside := takes_byte (by decide) inside
    have hstring := hquote.trans (readsValid_string _ _ _ hname)
    have hgap := hstring.trans (takes_skip_mark hcolon (by decide))
    exact (hgap.trans (takes_skip gap)).trans (hitem _ _ _ hone)

/-- Members are taken if their values are. -/
lemma IsMembers.takes (hitem : ReadsValid item) {bs rest : Bytes} {ms : List (Text × Value)}
    (h : IsMembers item bs ms rest) : Takes bs rest := by
  induction h with
  | last hmember hend => exact (hmember.takes hitem).trans (takes_skip_mark hend (by decide))
  | cons hmember hcomma hmore ih =>
    have hbehind := (hmember.takes hitem).trans (takes_skip_mark hcomma (by decide))
    exact (hbehind.trans (takes_skip _)).trans ih

/-- A value is taken if those are that stand in it. -/
lemma IsValue.takes (hitem : ReadsValid item) {bs rest : Bytes} {v : Value}
    (h : IsValue r item bs v rest) : Takes bs rest := by
  have hbyte : ∀ {b : UInt8} {bs : Bytes}, b.toNat < 0x80 → Takes bs rest → Takes (b :: bs) rest :=
    fun hb htakes => (takes_byte hb _).trans htakes
  cases h with
  | string h => exact hbyte (by decide) (readsValid_string _ _ _ h)
  | emptyList h => exact hbyte (by decide) (takes_skip_mark h (by decide))
  | list h => exact hbyte (by decide) ((takes_skip _).trans (h.takes hitem))
  | emptyObject h => exact hbyte (by decide) (takes_skip_mark h (by decide))
  | object h => exact hbyte (by decide) ((takes_skip _).trans (h.takes hitem))
  | word hs h => exact readsValid_word (lt_of_mem_spelled hs) _ _ _ _ h
  | negativeInfinity h =>
    have hinfinity : ("Infinity", Value.float (.infinity false)) ∈ words := by simp [words]
    exact hbyte (by decide) (readsValid_word (lt_of_mem_spelled hinfinity) _ _ _ _ h)
  | number h => exact readsValid_number r false _ _ _ h
  | negative h => exact hbyte (by decide) (readsValid_number r true _ _ _ h)

/-- A value is taken, however deep it is nested. -/
theorem readsValid_value (budget : Nat) : ReadsValid (value r budget) := by
  induction budget with
  | zero =>
    intro bs v rest h
    refine (isValue_of_valueWith h).takes fun bs v rest h => ?_
    cases bs <;> cases h
  | succ budget ih => exact fun bs v rest h => (isValue_of_valueWith h).takes ih

end Document

/-- Bytes that are read as a document spell a text. -/
theorem isValid_of_readDocument {bs : Bytes} {v : Value} {r : Reader} (h : readDocument r bs = .ok v) :
    Utf8.IsValid bs := by
  obtain ⟨⟨v', rest⟩, hv, h⟩ := Result.of_bind h
  simp only at h
  split at h
  · rename_i hend
    have hvalue := (Document.takes_skip bs).trans (Document.readsValid_value _ _ _ _ hv)
    have hafter := Document.takes_skip rest
    rw [hend] at hafter
    obtain ⟨raw, rfl, hraw⟩ := hvalue.trans hafter
    rwa [List.append_nil]
  · cases h

end EditorDocs.Json
