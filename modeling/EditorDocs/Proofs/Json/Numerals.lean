import EditorDocs.Json.Value
import EditorDocs.Json.Writer
import EditorDocs.Proofs.Json.Grammar
import EditorDocs.Proofs.Number.Shortest
import EditorDocs.Proofs.Text.Digits
import Mathlib.Tactic.Lemma

/-!
# How numbers are written

Integers and finite numbers are written as numbers of the strict grammar (`Json.isNumber_ofInt`,
`Json.isNumber_floatText`).  The digits of a whole number other than zero begin with another digit
than zero (`Text.isCounted_ofNat`), and the shortest decimal of a positive number is not zero, since zero
is never read back as that number (`Binary64.digits_shortest_pos`).  So the digits that are left when
the zeros at the end are dropped are some, and the first of them is still not zero.

A positive number is laid out in one of four ways, each with its point at another place.  All of them
are numerals with the value of the shortest decimal (`Json.isDecimal_positiveText`).
-/

namespace EditorDocs

/-! ## Digits of whole numbers -/

namespace Text

/-- The last one of the digits of a number, which counts most, is not zero unless the number is. -/
lemma getLast_reversedDigits {n : Nat} (h : 0 < n) :
    ∃ front d, reversedDigits 10 n = front ++ [d] ∧ 0 < d := by
  induction n using Nat.strongRecOn with
  | _ n ih =>
    rw [reversedDigits]
    split
    · exact ⟨[], n, rfl, h⟩
    · rename_i hlarge
      obtain ⟨front, d, hdigits, hd⟩ := ih (n / 10) (by omega) (by omega)
      exact ⟨n % 10 :: front, d, by rw [hdigits, List.cons_append], hd⟩

/-- Digits, of which the first is not zero. -/
structure IsCounted (t : Text) : Prop where
  /-- They are all decimal digits. -/
  digits : ∀ c ∈ t, c.isDigit = true
  /-- There is a first one, which is not zero. -/
  first : ∃ c rest, t = c :: rest ∧ c ≠ ('0' : CodePoint)

/-- The digit of a number below ten is a decimal digit. -/
lemma isDigit_ofHexDigit {d : Nat} (h : d < 10) : (CodePoint.ofHexDigit d).isDigit = true := by
  have hall : ∀ d : Fin 10, (CodePoint.ofHexDigit d.val).isDigit = true := by decide
  exact hall ⟨d, h⟩

/-- A number is written in decimal digits. -/
lemma isDigit_of_mem_ofNat {n : Nat} {c : CodePoint} (h : c ∈ ofNat n) : c.isDigit = true := by
  obtain ⟨d, hd, rfl⟩ := List.mem_map.mp h
  exact isDigit_ofHexDigit (lt_of_mem_reversedDigits (by omega) (List.mem_reverse.mp hd))

/-- A number other than zero is written in digits of which the first is not zero. -/
lemma isCounted_ofNat {n : Nat} (h : 0 < n) : IsCounted (ofNat n) := by
  obtain ⟨front, d, hdigits, hd⟩ := getLast_reversedDigits h
  have hmem : d ∈ reversedDigits 10 n := by simp [hdigits]
  have hlt : d < 10 := lt_of_mem_reversedDigits (by omega) hmem
  have hne : ∀ d : Fin 10, 0 < d.val → CodePoint.ofHexDigit d.val ≠ ('0' : CodePoint) := by decide
  refine ⟨fun c hc => isDigit_of_mem_ofNat hc, CodePoint.ofHexDigit d,
    front.reverse.map CodePoint.ofHexDigit, ?_, hne ⟨d, hlt⟩ hd⟩
  rw [ofNat, hdigits, List.reverse_append, List.reverse_singleton, List.singleton_append,
    List.map_cons]

/-- What is left of digits when the zeros at their end are dropped begins as they do. -/
lemma IsCounted.dropEndWhile {t : Text} (h : IsCounted t) :
    IsCounted (t.dropEndWhile (· = ('0' : CodePoint))) := by
  obtain ⟨c, rest, rfl, hc⟩ := h.first
  have hstays : ([c].dropWhile (· = ('0' : CodePoint))) = [c] := by simp [hc]
  refine ⟨fun d hd => h.digits d ?_, c, ?_⟩
  · have hmem := (List.dropWhile_sublist _).subset (List.mem_reverse.mp hd)
    exact List.mem_reverse.mp hmem
  · rw [Text.dropEndWhile, List.reverse_cons, List.dropWhile_append]
    split
    · exact ⟨[], by rw [hstays]; rfl, hc⟩
    · exact ⟨_, by rw [List.reverse_append, List.reverse_singleton, List.singleton_append], hc⟩

end Text

/-! ## The shortest decimal -/

namespace Binary64

/-- Powers are positive. -/
lemma twoTo_pos (n : Nat) : 0 < twoTo n := Nat.pow_pos (by omega)

/-- And so are those of ten. -/
lemma tenTo_pos (n : Nat) : 0 < tenTo n := Nat.pow_pos (by omega)

/-- Zero is below every positive number. -/
lemma compareScaled_zero {b : Nat} (hb : 0 < b) (s e : Int) : compareScaled 0 s b e = .lt := by
  have hpos : 0 < b * twoTo e.toNat * tenTo (-s).toNat :=
    Nat.mul_pos (Nat.mul_pos hb (twoTo_pos _)) (tenTo_pos _)
  rw [compareScaled, Nat.zero_mul, Nat.zero_mul]
  exact Nat.compare_eq_lt.mpr hpos

/-- Zero is not read back as a positive number. -/
lemma readsBack_zero {m : Nat} (hm : 0 < m) (e s : Int) : readsBack m e 0 s = false := by
  have hlow : 0 < 4 * m - (if m = leastNormal ∧ -1074 < e then 1 else 2) := by
    split <;> omega
  unfold readsBack
  simp only [compareScaled_zero hlow]
  split <;> rfl

/-- A decimal that is read back as a positive number is not zero. -/
lemma digits_nearest?_pos {m k : Nat} {e p : Int} {d : Decimal} (hm : 0 < m)
    (h : nearest? m e p k = some d) : 0 < d.digits := by
  obtain ⟨hreads, -⟩ := readsBack_of_nearest? h
  rcases Nat.eq_zero_or_pos d.digits with hzero | hpos
  · rw [hzero, readsBack_zero hm] at hreads
    cases hreads
  · exact hpos

/-- The shortest decimal of a positive number is not zero. -/
lemma digits_shortest_pos {m : Nat} (hm : 0 < m) (e : Int) : 0 < (shortest m e).digits := by
  unfold shortest
  simp only
  cases hfind : (List.range 17).findSome? fun k => nearest? m e (pointPosition m e) (k + 1) with
  | none => exact hm
  | some d =>
    obtain ⟨k, -, hk⟩ := List.exists_of_findSome?_eq_some hfind
    exact digits_nearest?_pos hm hk

end Binary64

namespace Json

/-! ## Parts of a number -/

/-- Digits are digits of a whole number if the first one is not zero. -/
lemma isWhole_of_isCounted {t : Text} (h : t.IsCounted) : IsWhole t := by
  obtain ⟨c, rest, rfl, hc⟩ := h.first
  refine ⟨⟨List.cons_ne_nil c rest, h.digits⟩, fun hhead => ?_⟩
  exact absurd (Option.some.inj hhead) hc

/-- Zero is written as a whole number. -/
lemma isWhole_zero : IsWhole "0" := ⟨⟨by decide, by decide⟩, fun _ => rfl⟩

/-- A whole number is written as one. -/
lemma isWhole_ofNat (n : Nat) : IsWhole (Text.ofNat n) := by
  rcases Nat.eq_zero_or_pos n with rfl | hn
  · have hzero : Text.ofNat 0 = "0" := by
      rw [Text.ofNat, Text.reversedDigits]
      decide
    rw [hzero]
    exact isWhole_zero
  · exact isWhole_of_isCounted (Text.isCounted_ofNat hn)

/-- An integer is written as a number. -/
lemma isNumber_ofInt (n : Int) : IsNumber (Text.ofInt n) := by
  cases n with
  | ofNat n =>
    have hnumber := IsNumber.intro (Or.inl rfl) (isWhole_ofNat n) .none .none
    simpa [Text.ofInt] using hnumber
  | negSucc n =>
    have hnumber := IsNumber.intro (Or.inr rfl) (isWhole_ofNat (n + 1)) .none .none
    rwa [List.append_nil, List.append_nil] at hnumber

/-- Zeros and digits are digits. -/
lemma isDigits_zeros {t : Text} (h : IsDigits t) (n : Nat) :
    IsDigits (List.replicate n ('0' : CodePoint) ++ t) := by
  refine ⟨by simp [h.nonempty], fun c hc => ?_⟩
  rcases List.mem_append.mp hc with hzero | ht
  · rw [List.eq_of_mem_replicate hzero]
    decide
  · exact h.digits c ht

/-- Some digits of a number whose first digit is not zero are those of a whole number, with zeros
behind them or without. -/
lemma isWhole_take {t : Text} (h : t.IsCounted) {k : Nat} (hk : 0 < k) (n : Nat) :
    IsWhole (t.take k ++ List.replicate n ('0' : CodePoint)) := by
  obtain ⟨c, rest, rfl, hc⟩ := h.first
  obtain ⟨k, rfl⟩ := Nat.exists_eq_succ_of_ne_zero hk.ne'
  refine isWhole_of_isCounted ⟨fun d hd => ?_, c, _, rfl, hc⟩
  rcases List.mem_append.mp hd with htake | hzero
  · exact h.digits d (List.mem_of_mem_take htake)
  · rw [List.eq_of_mem_replicate hzero]
    decide

/-- What stands behind some of the digits is digits, unless it is nothing. -/
lemma isDigits_drop {t : Text} (h : t.IsCounted) {k : Nat} (hk : k < t.length) :
    IsDigits (t.drop k) := by
  refine ⟨?_, fun c hc => h.digits c (List.mem_of_mem_drop hc)⟩
  rw [ne_eq, List.drop_eq_nil_iff]
  omega

/-! ## Numerals -/

/-- The sign of a number as it is written. -/
def signText (negative : Bool) : Text := if negative then "-" else []

/-- The fraction of a numeral as it is written. -/
def fractionText : Option Text → Text
  | none => []
  | some ds => ("." : Text) ++ ds

/-- The exponent of a numeral as it is written. -/
def exponentText : Option (Bool × Text) → Text
  | none => []
  | some (negative, ds) => ("e" : Text) ++ (if negative then ("-" : Text) else "+") ++ ds

/-- A numeral as it is written. -/
def Numeral.text (n : Numeral) : Text :=
  signText n.negative ++ n.whole ++ fractionText n.fraction ++ exponentText n.exponent

/-- The digits of a numeral as one whole number. -/
def Numeral.digits (n : Numeral) : Nat := Text.decimalValue (n.whole ++ n.fraction.getD [])

/-- The power of ten that the last digit of a numeral counts. -/
def Numeral.place (n : Numeral) : Int :=
  (match n.exponent with
    | none => 0
    | some (negative, ds) =>
      let size : Int := Text.decimalValue ds
      if negative then -size else size) - (n.fraction.getD []).length

/-- The parts of the numeral are digits where they are there. -/
structure Numeral.IsProper (n : Numeral) : Prop where
  /-- There is a whole part. -/
  whole : IsWhole n.whole
  /-- The fraction has digits. -/
  fraction : ∀ ds ∈ n.fraction, IsDigits ds
  /-- The exponent has digits. -/
  exponent : ∀ x ∈ n.exponent, IsDigits x.2

/-- A numeral with a fraction or an exponent has the value of its digits at their place. -/
lemma Numeral.value_eq_float {n : Numeral} (h : n.isInteger = false) :
    n.value = .float (Binary64.ofDecimal n.negative n.digits n.place) := by
  rw [Numeral.value, if_neg (by simp [h])]
  rfl

/-- A proper numeral is written as a number. -/
lemma Numeral.IsProper.isNumber {n : Numeral} (h : n.IsProper) : IsNumber n.text := by
  obtain ⟨negative, whole, fraction, exponent⟩ := n
  refine .intro ?_ h.whole ?_ ?_
  · cases negative
    · exact Or.inl rfl
    · exact Or.inr rfl
  · cases fraction with
    | none => exact .none
    | some ds => exact .some (h.fraction ds rfl)
  · cases exponent with
    | none => exact .none
    | some x =>
      obtain ⟨minus, ds⟩ := x
      have hdigits := h.exponent _ rfl
      cases minus with
      | false => exact IsExponent.some (Or.inl rfl) (Or.inr (Or.inl rfl)) hdigits
      | true => exact IsExponent.some (Or.inl rfl) (Or.inr (Or.inr rfl)) hdigits

/-- What is left without the zeros at the end has them behind it. -/
lemma exists_zeros (t : Text) :
    ∃ k, t = t.dropEndWhile (· = ('0' : CodePoint)) ++ List.replicate k ('0' : CodePoint) := by
  refine ⟨(t.reverse.takeWhile (· = ('0' : CodePoint))).length, ?_⟩
  have hzeros : t.reverse.takeWhile (· = ('0' : CodePoint)) =
      List.replicate (t.reverse.takeWhile (· = ('0' : CodePoint))).length ('0' : CodePoint) := by
    refine List.eq_replicate_of_mem fun c hc => ?_
    simpa using List.mem_takeWhile_imp hc
  have hsplit := List.takeWhile_append_dropWhile (p := (· = ('0' : CodePoint))) (l := t.reverse)
  have hback := congrArg List.reverse hsplit
  rw [List.reverse_append, List.reverse_reverse, hzeros, List.reverse_replicate] at hback
  exact hback.symm

/-- The digits of a decimal without the zeros at the end have its value, and their last place is not
behind its own. -/
lemma significant_spec {d : Binary64.Decimal} (hd : 0 < d.digits) :
    d.significant.1.IsCounted ∧
      (Text.decimalValue d.significant.1 : ℚ) * 10 ^ (d.significant.2 - d.significant.1.length) =
        d.digits * 10 ^ d.exponent ∧
      d.exponent ≤ d.significant.2 - d.significant.1.length := by
  obtain ⟨k, hk⟩ := exists_zeros (Text.ofNat d.digits)
  have hcounted := (Text.isCounted_ofNat hd).dropEndWhile
  have hvalue := congrArg Text.decimalValue hk
  have hlength := congrArg List.length hk
  rw [Text.decimalValue_ofNat, Text.decimalValue_append, Text.decimalValue_zeros, Nat.add_zero,
    List.length_replicate] at hvalue
  rw [List.length_append, List.length_replicate] at hlength
  unfold Binary64.Decimal.significant
  simp only
  generalize Text.dropEndWhile _ (Text.ofNat d.digits) = kept at hcounted hvalue hlength ⊢
  have hplace : d.exponent + ((Text.ofNat d.digits).length : Int) - kept.length = d.exponent + k := by
    rw [hlength]
    push_cast
    ring
  refine ⟨hcounted, ?_, by omega⟩
  rw [hplace, hvalue, zpow_add₀ (by norm_num), zpow_natCast]
  push_cast
  ring

/-- Zeros in front of digits do not count. -/
lemma decimalValue_zeros_append (n : Nat) (ds : Text) :
    Text.decimalValue (List.replicate n ('0' : CodePoint) ++ ds) = Text.decimalValue ds := by
  rw [Text.decimalValue_append, Text.decimalValue_zeros, Nat.zero_mul, Nat.zero_add]

/-- A numeral without exponent has its last place as far behind the point as its fraction is long. -/
lemma place_of_fraction (negative : Bool) (whole fraction : Text) :
    (⟨negative, whole, some fraction, none⟩ : Numeral).place = -(fraction.length : Int) := by
  simp [Numeral.place]

/-- The text is that of a numeral which has a fraction or an exponent and this value, and whose last place
is not far behind the point. -/
def IsDecimal (negative : Bool) (t : Text) (q : ℚ) (least : Int) : Prop :=
  ∃ n : Numeral, n.negative = negative ∧ n.IsProper ∧ n.isInteger = false ∧
    signText negative ++ t = n.text ∧ (n.digits : ℚ) * 10 ^ n.place = q ∧
    (least ≤ n.place ∨ -1 ≤ n.place)

section Forms

variable {digits : Text} {p least : Int}

/-- A number below one is written with zeros and all its digits behind the point. -/
lemma isDecimal_below (negative : Bool) (h : digits.IsCounted) (hleast : least ≤ p - digits.length)
    (hp : p ≤ 0) :
    IsDecimal negative (("0." : Text) ++ List.replicate (-p).toNat ('0' : CodePoint) ++ digits)
      (Text.decimalValue digits * 10 ^ (p - digits.length)) least := by
  refine ⟨⟨negative, "0", some (List.replicate (-p).toNat ('0' : CodePoint) ++ digits), none⟩, rfl,
    ⟨isWhole_zero, fun ds hds => ?_, nofun⟩, rfl, ?_, ?_, Or.inl ?_⟩
  · cases hds
    exact isDigits_zeros (isWhole_of_isCounted h).toIsDigits _
  · have hpoint : ("0." : Text) = ("0" : Text) ++ ("." : Text) := by decide
    simp only [Numeral.text, fractionText, exponentText, hpoint, List.append_assoc, List.append_nil]
  · rw [place_of_fraction, Numeral.digits, Option.getD_some,
      show ("0" : Text) = List.replicate 1 ('0' : CodePoint) from rfl, decimalValue_zeros_append,
      decimalValue_zeros_append, List.length_append, List.length_replicate]
    congr 2
    push_cast
    omega
  · rw [place_of_fraction, List.length_append, List.length_replicate]
    push_cast
    omega

/-- A whole number is written with all its digits and zeros before the point. -/
lemma isDecimal_whole (negative : Bool) (h : digits.IsCounted) (hcount : digits.length ≤ p) :
    IsDecimal negative (digits ++ List.replicate (p - digits.length).toNat ('0' : CodePoint) ++
        (".0" : Text))
      (Text.decimalValue digits * 10 ^ (p - digits.length)) least := by
  have hlength : 0 < digits.length :=
    List.length_pos_iff.mpr (isWhole_of_isCounted h).toIsDigits.nonempty
  have hzeros := isWhole_take h hlength (p - digits.length).toNat
  rw [List.take_length] at hzeros
  refine ⟨⟨negative, digits ++ List.replicate (p - digits.length).toNat ('0' : CodePoint),
    some "0", none⟩, rfl, ⟨hzeros, fun ds hds => ?_, nofun⟩, rfl, ?_, ?_, Or.inr ?_⟩
  · cases hds
    exact isWhole_zero.toIsDigits
  · have hpoint : (".0" : Text) = ("." : Text) ++ ("0" : Text) := by decide
    simp only [Numeral.text, fractionText, exponentText, hpoint, List.append_assoc, List.append_nil]
  · have hone : (List.length ("0" : Text) : Int) = 1 := rfl
    rw [place_of_fraction, hone, Numeral.digits, Option.getD_some, List.append_assoc,
      show ("0" : Text) = List.replicate 1 ('0' : CodePoint) from rfl,
      ← List.replicate_add, Text.decimalValue_append, Text.decimalValue_zeros, Nat.add_zero,
      List.length_replicate]
    push_cast
    rw [mul_assoc, ← zpow_natCast, ← zpow_add₀ (by norm_num)]
    congr 2
    push_cast
    omega
  · rw [place_of_fraction]
    decide

/-- Another number is written with the point among its digits. -/
lemma isDecimal_among (negative : Bool) (h : digits.IsCounted) (hleast : least ≤ p - digits.length)
    (hp : 0 < p) (hcount : p < digits.length) :
    IsDecimal negative (digits.take p.toNat ++ ("." : Text) ++ digits.drop p.toNat)
      (Text.decimalValue digits * 10 ^ (p - digits.length)) least := by
  have htake := isWhole_take h (k := p.toNat) (by omega) 0
  rw [List.replicate_zero, List.append_nil] at htake
  have hplaces : (⟨negative, digits.take p.toNat, some (digits.drop p.toNat), none⟩ :
      Numeral).place = p - digits.length := by
    rw [place_of_fraction, List.length_drop]
    omega
  refine ⟨⟨negative, digits.take p.toNat, some (digits.drop p.toNat), none⟩, rfl,
    ⟨htake, fun ds hds => ?_, nofun⟩, rfl, ?_, ?_, Or.inl (hplaces ▸ hleast)⟩
  · cases hds
    exact isDigits_drop h (by omega)
  · simp only [Numeral.text, fractionText, exponentText, List.append_assoc, List.append_nil]
  · rw [hplaces, Numeral.digits, Option.getD_some, List.take_append_drop]

/-- A very large or very small number is written with one digit before the point, the others behind it,
and an exponent. -/
lemma isDecimal_power (negative : Bool) (h : digits.IsCounted) (hleast : least ≤ p - digits.length)
    (n : Nat) :
    IsDecimal negative (digits.take 1 ++
        (if (digits.length : Int) ≤ 1 then [] else ("." : Text) ++ digits.drop 1) ++ ("e" : Text) ++
        (if p - 1 < 0 then ("-" : Text) else "+") ++ List.replicate n ('0' : CodePoint) ++
        Text.ofNat (p - 1).natAbs)
      (Text.decimalValue digits * 10 ^ (p - digits.length)) least := by
  have hlength : 0 < digits.length :=
    List.length_pos_iff.mpr (isWhole_of_isCounted h).toIsDigits.nonempty
  generalize hfraction : (if (digits.length : Int) ≤ 1 then none else some (digits.drop 1) :
    Option Text) = fraction
  generalize hsize : List.replicate n ('0' : CodePoint) ++ Text.ofNat (p - 1).natAbs = size
  have hall : digits.take 1 ++ fraction.getD [] = digits ∧
      (fraction.getD []).length = digits.length - 1 ∧ ∀ ds ∈ fraction, IsDigits ds := by
    rw [← hfraction]
    split
    · refine ⟨?_, ?_, nofun⟩
      · rw [Option.getD_none, List.append_nil, List.take_of_length_le (by omega)]
      · rw [Option.getD_none, List.length_nil]
        omega
    · refine ⟨?_, ?_, fun ds hds => ?_⟩
      · rw [Option.getD_some, List.take_append_drop]
      · rw [Option.getD_some, List.length_drop]
      · cases hds
        exact isDigits_drop h (by omega)
  have hdigits : IsDigits size := by
    rw [← hsize]
    exact isDigits_zeros (isWhole_ofNat _).toIsDigits _
  have hpower : Text.decimalValue size = (p - 1).natAbs := by
    rw [← hsize, decimalValue_zeros_append, Text.decimalValue_ofNat]
  have htake := isWhole_take h Nat.one_pos 0
  rw [List.replicate_zero, List.append_nil] at htake
  have hplaces : (⟨negative, digits.take 1, fraction, some (decide (p - 1 < 0), size)⟩ :
      Numeral).place = p - digits.length := by
    rw [Numeral.place]
    simp only [hpower, hall.2.1, decide_eq_true_eq]
    split_ifs <;> omega
  refine ⟨⟨negative, digits.take 1, fraction, some (decide (p - 1 < 0), size)⟩, rfl,
    ⟨htake, hall.2.2, fun x hx => ?_⟩, ?_, ?_, ?_, Or.inl (hplaces ▸ hleast)⟩
  · cases hx
    exact hdigits
  · simp [Numeral.isInteger]
  · rw [Numeral.text, ← hsize, ← hfraction]
    by_cases hmore : (digits.length : Int) ≤ 1 <;> by_cases hneg : p - 1 < 0 <;>
      simp [fractionText, exponentText, hmore, hneg]
  · rw [hplaces, Numeral.digits, hall.1]

end Forms

/-- A positive number is written as a numeral that has the value of its shortest decimal. -/
theorem isDecimal_positiveText {m : Nat} (hm : 0 < m) (e : Int) (negative : Bool) :
    IsDecimal negative (Binary64.positiveText m e)
      ((Binary64.shortest m e).digits * 10 ^ (Binary64.shortest m e).exponent)
      (Binary64.shortest m e).exponent := by
  obtain ⟨hcounted, hvalue, hleast⟩ := significant_spec (Binary64.digits_shortest_pos hm e)
  unfold Binary64.positiveText
  rw [← hvalue]
  generalize (Binary64.shortest m e).significant = parts at hcounted hleast ⊢
  obtain ⟨digits, p⟩ := parts
  simp only at hcounted hleast ⊢
  split
  · rename_i hp
    exact isDecimal_below negative hcounted hleast hp.2
  split
  · rename_i hp
    split
    · exact isDecimal_whole negative hcounted ‹_›
    · exact isDecimal_among negative hcounted hleast hp.1 (by omega)
  · exact isDecimal_power negative hcounted hleast _

/-- A positive number is written as a number. -/
lemma isNumber_positiveText {m : Nat} (hm : 0 < m) (e : Int) (negative : Bool) :
    IsNumber (signText negative ++ Binary64.positiveText m e) := by
  obtain ⟨n, -, hproper, -, htext, -⟩ := isDecimal_positiveText hm e negative
  rw [htext]
  exact hproper.isNumber

/-- A finite number is written as a number. -/
lemma isNumber_floatText {x : Binary64} (h : x.isFinite = true) : IsNumber (floatText x) := by
  cases x with
  | nan => cases h
  | infinity s => cases h
  | finite s m e =>
    have hsign : (if s then ("-" : Text) else []) = [] ∨ (if s then ("-" : Text) else []) = "-" := by
      cases s
      · exact Or.inl rfl
      · exact Or.inr rfl
    unfold floatText Binary64.textWith
    simp only
    rcases Nat.eq_zero_or_pos m with rfl | hm
    · have hnumber := IsNumber.intro hsign isWhole_zero (.some isWhole_zero.toIsDigits) .none
      rw [List.append_nil, List.append_assoc] at hnumber
      exact hnumber
    · rw [if_neg hm.ne']
      exact isNumber_positiveText hm e s

end Json

end EditorDocs
