import EditorDocs.Number.Binary64
import Mathlib.Algebra.Order.Field.Power
import Mathlib.Data.Rat.Cast.Order
import Mathlib.Tactic.FieldSimp
import Mathlib.Tactic.GCongr
import Mathlib.Tactic.Lemma
import Mathlib.Tactic.Linarith
import Mathlib.Tactic.NormNum
import Mathlib.Tactic.Positivity
import Mathlib.Tactic.Ring

/-!
# Rounding to double precision

Numbers of double precision have one form each (`Binary64.IsForm`).  Around each of them lie the
rational numbers that are rounded to it: up to half of the way to its neighbours, and that far if its
mantissa is even (`Binary64.Nears`).  A fraction near a number is rounded to that number
(`Binary64.ofRatio_of_nears`), and so is a decimal (`Binary64.ofDecimal_of_nears`).

The mantissa of what is rounded is found at the exponent at which it fits, and this exponent is unique
(`Binary64.IsScale`).  It is that of the number unless what is rounded lies just below a power of two;
then it is one less, and rounding carries over to the power.
-/

namespace EditorDocs.Binary64

/-! ## Forms and what is near -/

/-- The mantissa and the exponent are those of a number. -/
structure IsForm (m : Nat) (e : Int) : Prop where
  /-- The mantissa is not too large. -/
  below : m < mantissaEnd
  /-- There is a least exponent. -/
  least : -1074 ≤ e
  /-- There is a greatest exponent. -/
  greatest : e ≤ 971
  /-- The mantissa is as large as can be, unless the exponent is the least one. -/
  normal : e = -1074 ∨ leastNormal ≤ m

/-- How far below a mantissa the numbers reach that are rounded to it: half of the way to the next one,
which is only half as far away below a power of two. -/
def reach (m : Nat) (e : Int) : ℚ := if m = leastNormal ∧ -1074 < e then 1 / 4 else 1 / 2

/-- The positive number lies so near to `m · 2 ^ e` that it is rounded to it. -/
def Nears (m : Nat) (e : Int) (q : ℚ) : Prop :=
  (m - reach m e) * 2 ^ e ≤ q ∧ q ≤ (m + 1 / 2) * 2 ^ e ∧
    (m % 2 = 1 → (m - reach m e) * 2 ^ e < q ∧ q < (m + 1 / 2) * 2 ^ e)

/-- A power of two is positive. -/
lemma two_zpow_pos (e : Int) : (0 : ℚ) < 2 ^ e := zpow_pos (by norm_num) e

/-- So is one of ten. -/
lemma ten_zpow_pos (e : Int) : (0 : ℚ) < 10 ^ e := zpow_pos (by norm_num) e

/-- The reach is no more than a half. -/
lemma reach_le (m : Nat) (e : Int) : reach m e ≤ 1 / 2 := by
  unfold reach
  split <;> norm_num

/-- What is nearer than the reach on both sides is near. -/
lemma Nears.of_lt {m : Nat} {e : Int} {q : ℚ} (hlow : (m - reach m e) * 2 ^ e < q)
    (hhigh : q < (m + 1 / 2) * 2 ^ e) : Nears m e q :=
  ⟨hlow.le, hhigh.le, fun _ => ⟨hlow, hhigh⟩⟩

/-! ## Rounding a quotient -/

/-- A quotient is rounded to a whole number from which it is at most one half away, and less than that
if the whole number is odd. -/
lemma divideEven_eq {n d k : Nat} (hd : 0 < d) (hlow : 2 * k * d ≤ 2 * n + d)
    (hhigh : 2 * n ≤ (2 * k + 1) * d)
    (hodd : k % 2 = 1 → 2 * k * d < 2 * n + d ∧ 2 * n < (2 * k + 1) * d) : divideEven n d = k := by
  unfold divideEven
  have hsplit := Nat.div_add_mod n d
  have hrest : n % d < d := Nat.mod_lt n hd
  generalize n / d = q at hsplit ⊢
  generalize n % d = r at hsplit hrest ⊢
  simp only
  -- the whole part is the number that is sought or the one below
  have hle : q ≤ k := by
    by_contra hnot
    have hmore : (k + 1) * d ≤ q * d := Nat.mul_le_mul_right d (by omega)
    nlinarith
  have hge : k ≤ q + 1 := by
    by_contra hnot
    have hmore : (q + 2) * d ≤ k * d := Nat.mul_le_mul_right d (by omega)
    nlinarith
  rcases (by omega : q = k ∨ k = q + 1) with rfl | rfl
  · have hhalf : 2 * r ≤ d := by nlinarith
    have hless : q % 2 = 1 → 2 * r < d := fun h => by
      have := (hodd h).2
      nlinarith
    split_ifs <;> omega
  · have hhalf : d ≤ 2 * r := by nlinarith
    have hless : (q + 1) % 2 = 1 → d < 2 * r := fun h => by
      have := (hodd h).1
      nlinarith
    split_ifs <;> omega

/-- A quotient is at most one half away from what it is rounded to. -/
lemma divideEven_near {n d : Nat} (hd : 0 < d) :
    2 * divideEven n d * d ≤ 2 * n + d ∧ 2 * n ≤ (2 * divideEven n d + 1) * d := by
  unfold divideEven
  have hsplit := Nat.div_add_mod n d
  have hrest : n % d < d := Nat.mod_lt n hd
  generalize n / d = q at hsplit ⊢
  generalize n % d = r at hsplit hrest ⊢
  have hpart : q % 2 = 0 ∨ q % 2 = 1 := by omega
  simp only
  split_ifs
  · constructor <;> nlinarith
  · constructor <;> nlinarith
  · rcases hpart with h | h <;> rw [h] <;> constructor <;> nlinarith

/-- A scaled fraction is the fraction over the power. -/
lemma scaled_spec (num : Nat) {den : Nat} (hden : 0 < den) (e : Int) :
    0 < (scaled num den e).2 ∧
      ((scaled num den e).1 : ℚ) / (scaled num den e).2 = (num : ℚ) / den / 2 ^ e := by
  have hpos : ∀ n, 0 < twoTo n := fun n => Nat.pow_pos (by omega)
  have hdenq : (den : ℚ) ≠ 0 := by exact_mod_cast hden.ne'
  unfold scaled
  split
  · rename_i he
    obtain ⟨n, rfl⟩ := Int.eq_ofNat_of_zero_le he
    refine ⟨Nat.mul_pos hden (hpos _), ?_⟩
    simp [twoTo, div_div]
  · rename_i he
    obtain ⟨n, rfl⟩ : ∃ n : Nat, e = -(n : Int) := ⟨(-e).toNat, by omega⟩
    refine ⟨hden, ?_⟩
    simp [twoTo, zpow_neg]
    field_simp

/-! ## The exponent of what is rounded -/

/-- The number has its mantissa at this exponent. -/
structure IsScale (q : ℚ) (e : Int) : Prop where
  /-- There is a least exponent. -/
  least : -1074 ≤ e
  /-- The mantissa is not too large. -/
  below : q < 2 ^ (53 + e)
  /-- The mantissa is as large as can be, unless the exponent is the least one. -/
  normal : e = -1074 ∨ 2 ^ (52 + e) ≤ q

/-- There is one such exponent at most. -/
lemma IsScale.unique {q : ℚ} {e e' : Int} (h : IsScale q e) (h' : IsScale q e') : e = e' := by
  have hle : ∀ {a b : Int}, IsScale q a → IsScale q b → ¬ a < b := by
    intro a b ha hb hlt
    rcases hb.normal with hleast | hnormal
    · have := ha.least
      omega
    · have hpower : (2 : ℚ) ^ (53 + a) ≤ 2 ^ (52 + b) :=
        zpow_le_zpow_right₀ (by norm_num) (by omega)
      linarith [ha.below]
  have h1 := hle h h'
  have h2 := hle h' h
  omega

/-- The bits of the parts of a fraction tell its size. -/
lemma ratio_bounds {num den : Nat} (hnum : 0 < num) (hden : 0 < den) :
    (2 : ℚ) ^ ((num.log2 : Int) - den.log2 - 1) ≤ (num : ℚ) / den ∧
      (num : ℚ) / den < 2 ^ ((num.log2 : Int) - den.log2 + 1) := by
  have hbits : ∀ {n : Nat}, 0 < n → (2 : ℚ) ^ (n.log2 : Int) ≤ n ∧ (n : ℚ) < 2 ^ ((n.log2 : Int) + 1) := by
    intro n hn
    have hlow := Nat.log2_self_le hn.ne'
    have hhigh := Nat.lt_log2_self (n := n)
    constructor
    · rw [zpow_natCast]
      exact_mod_cast hlow
    · rw [show (n.log2 : Int) + 1 = ((n.log2 + 1 : Nat) : Int) by push_cast; rfl, zpow_natCast]
      exact_mod_cast hhigh
  obtain ⟨hn, hn'⟩ := hbits hnum
  obtain ⟨hd, hd'⟩ := hbits hden
  have hdenq : (0 : ℚ) < den := by exact_mod_cast hden
  constructor
  · rw [le_div_iff₀ hdenq]
    calc (2 : ℚ) ^ ((num.log2 : Int) - den.log2 - 1) * den
        ≤ 2 ^ ((num.log2 : Int) - den.log2 - 1) * 2 ^ ((den.log2 : Int) + 1) := by
          gcongr
      _ = 2 ^ (num.log2 : Int) := by
          rw [← zpow_add₀ (by norm_num)]
          congr 1
          ring
      _ ≤ num := hn
  · rw [div_lt_iff₀ hdenq]
    calc (num : ℚ) < 2 ^ ((num.log2 : Int) + 1) := hn'
      _ = 2 ^ ((num.log2 : Int) - den.log2 + 1) * 2 ^ (den.log2 : Int) := by
          rw [← zpow_add₀ (by norm_num)]
          congr 1
          ring
      _ ≤ 2 ^ ((num.log2 : Int) - den.log2 + 1) * den := by
          gcongr

/-- The exponent that is tried first for a fraction. -/
def lowScale (num den : Nat) : Int := max ((num.log2 : Int) - den.log2 - 53) (-1074)

/-- The exponent at which a fraction is rounded. -/
def ratioScale (num den : Nat) : Int :=
  let low := lowScale num den
  if mantissaEnd ≤ (scaled num den low).1 / (scaled num den low).2 then low + 1 else low

/-- A fraction has its mantissa at the exponent at which it is rounded. -/
lemma isScale_ratioScale {num den : Nat} (hnum : 0 < num) (hden : 0 < den) :
    IsScale ((num : ℚ) / den) (ratioScale num den) := by
  obtain ⟨hlow, hhigh⟩ := ratio_bounds hnum hden
  obtain ⟨hpos, hvalue⟩ := scaled_spec num hden (lowScale num den)
  have hleast : -1074 ≤ lowScale num den := le_max_right _ _
  have hpower := two_zpow_pos (lowScale num den)
  have htest : mantissaEnd ≤ (scaled num den (lowScale num den)).1 /
      (scaled num den (lowScale num den)).2 ↔ (2 : ℚ) ^ (53 + lowScale num den) ≤ (num : ℚ) / den := by
    rw [Nat.le_div_iff_mul_le hpos, zpow_add₀ (by norm_num), ← le_div_iff₀ hpower, ← hvalue,
      le_div_iff₀ (by exact_mod_cast hpos)]
    have hend : ((2 : ℚ) ^ (53 : Int)) = (mantissaEnd : ℕ) := by norm_num [mantissaEnd]
    rw [hend]
    exact_mod_cast Iff.rfl
  unfold ratioScale
  simp only [htest]
  split
  · rename_i hlarge
    refine ⟨by omega, hhigh.trans_le ?_, Or.inr ?_⟩
    · refine zpow_le_zpow_right₀ (by norm_num) ?_
      have := le_max_left ((num.log2 : Int) - den.log2 - 53) (-1074)
      unfold lowScale
      omega
    · rw [show 52 + (lowScale num den + 1) = 53 + lowScale num den by ring]
      exact hlarge
  · rename_i hsmall
    refine ⟨hleast, lt_of_not_ge hsmall, ?_⟩
    rcases le_total ((num.log2 : Int) - den.log2 - 53) (-1074) with hle | hle
    · exact Or.inl (max_eq_right hle)
    · refine Or.inr (le_trans ?_ hlow)
      refine zpow_le_zpow_right₀ (by norm_num) ?_
      unfold lowScale
      rw [max_eq_left hle]
      omega

/-- A fraction is rounded at that exponent, where a mantissa that has become too large is carried over
to the next one. -/
lemma ofRatio_eq (negative : Bool) {num : Nat} (hnum : 0 < num) (den : Nat) :
    ofRatio negative num den =
      let e := ratioScale num den
      let m := divideEven (scaled num den e).1 (scaled num den e).2
      if m = mantissaEnd then
        if 971 < e + 1 then .infinity negative else .finite negative leastNormal (e + 1)
      else if 971 < e then .infinity negative else .finite negative m e := by
  unfold ofRatio
  rw [if_neg hnum.ne']
  show (let e := ratioScale num den
    let m := divideEven (scaled num den e).1 (scaled num den e).2
    let form := if m = mantissaEnd then (leastNormal, e + 1) else (m, e)
    if 971 < form.2 then Binary64.infinity negative else .finite negative form.1 form.2) = _
  simp only
  generalize divideEven _ _ = m
  split <;> rfl

/-- A quotient at some exponent is rounded to a mantissa to which it is near. -/
lemma divideEven_scaled (num : Nat) {den k : Nat} (hden : 0 < den) {e : Int}
    (hlow : (k - 1 / 2) * 2 ^ e ≤ (num : ℚ) / den) (hhigh : (num : ℚ) / den ≤ (k + 1 / 2) * 2 ^ e)
    (hodd : k % 2 = 1 → (k - 1 / 2) * 2 ^ e < (num : ℚ) / den ∧ (num : ℚ) / den < (k + 1 / 2) * 2 ^ e) :
    divideEven (scaled num den e).1 (scaled num den e).2 = k := by
  obtain ⟨hpos, hvalue⟩ := scaled_spec num hden e
  have hpower := two_zpow_pos e
  generalize (scaled num den e).1 = n at hvalue ⊢
  generalize (scaled num den e).2 = d at hpos hvalue ⊢
  have hdq : (0 : ℚ) < d := by exact_mod_cast hpos
  have hq : (num : ℚ) / den = n / d * 2 ^ e := by
    rw [hvalue, div_mul_cancel₀ _ hpower.ne']
  rw [hq] at hlow hhigh hodd
  simp only [mul_le_mul_iff_left₀ hpower, mul_lt_mul_iff_left₀ hpower] at hlow hhigh hodd
  rw [le_div_iff₀ hdq] at hlow
  rw [div_le_iff₀ hdq] at hhigh
  rw [lt_div_iff₀ hdq, div_lt_iff₀ hdq] at hodd
  refine divideEven_eq hpos ?_ ?_ fun h => ⟨?_, ?_⟩
  · have : (2 * k * d : ℚ) ≤ 2 * n + d := by linarith
    exact_mod_cast this
  · have : (2 * n : ℚ) ≤ (2 * k + 1) * d := by linarith
    exact_mod_cast this
  · have : (2 * k * d : ℚ) < 2 * n + d := by linarith [(hodd h).1]
    exact_mod_cast this
  · have : (2 * n : ℚ) < (2 * k + 1) * d := by linarith [(hodd h).2]
    exact_mod_cast this

/-- A fraction near a number is rounded to it if its mantissa is found at the exponent of the number. -/
lemma ofRatio_of_isScale (negative : Bool) {num den m : Nat} {e : Int} (hnum : 0 < num)
    (hden : 0 < den) (hform : IsForm m e) (hscale : IsScale ((num : ℚ) / den) e)
    (h : Nears m e ((num : ℚ) / den)) : ofRatio negative num den = .finite negative m e := by
  obtain ⟨hlow, hhigh, hodd⟩ := h
  have hpower := two_zpow_pos e
  have hless : (m - 1 / 2 : ℚ) * 2 ^ e ≤ (m - reach m e) * 2 ^ e := by
    have := reach_le m e
    gcongr
  have hmantissa := divideEven_scaled num (k := m) hden (hless.trans hlow) hhigh fun h =>
    ⟨hless.trans_lt (hodd h).1, (hodd h).2⟩
  rw [ofRatio_eq negative hnum, (isScale_ratioScale hnum hden).unique hscale]
  simp only
  rw [hmantissa, if_neg hform.below.ne, if_neg (by have := hform.greatest; omega)]

/-- A fraction just below a power of two is rounded to it: the mantissa is rounded up to the end, and this
carries over to the exponent. -/
lemma ofRatio_below_power (negative : Bool) {num den : Nat} {e : Int} (hnum : 0 < num) (hden : 0 < den)
    (hleast : -1074 < e) (hgreatest : e ≤ 971)
    (hlow : (leastNormal - 1 / 4) * 2 ^ e ≤ (num : ℚ) / den)
    (hhigh : (num : ℚ) / den < leastNormal * 2 ^ e) :
    ofRatio negative num den = .finite negative leastNormal e := by
  have hhalf : (2 : ℚ) ^ e = 2 * 2 ^ (e - 1) := by
    rw [zpow_sub_one₀ (by norm_num)]
    ring
  have hdouble : (mantissaEnd : ℚ) = 2 * leastNormal := by norm_num [mantissaEnd, leastNormal]
  have hpower := two_zpow_pos (e - 1)
  rw [hhalf] at hlow hhigh
  have hscale : IsScale ((num : ℚ) / den) (e - 1) := by
    refine ⟨by omega, ?_, Or.inr ?_⟩
    · have hend : (2 : ℚ) ^ (53 : Int) = mantissaEnd := by norm_num [mantissaEnd]
      rw [zpow_add₀ (by norm_num), hend, hdouble]
      linarith
    · have hstart : (2 : ℚ) ^ (52 : Int) = leastNormal := by norm_num [leastNormal]
      have hone : (1 : ℚ) ≤ leastNormal := by norm_num [leastNormal]
      rw [zpow_add₀ (by norm_num), hstart]
      nlinarith
  have hmantissa := divideEven_scaled num (k := mantissaEnd) hden (e := e - 1)
    (by rw [hdouble]; linarith) (by rw [hdouble]; nlinarith) fun h => absurd h (by decide)
  rw [ofRatio_eq negative hnum, (isScale_ratioScale hnum hden).unique hscale]
  simp only
  rw [hmantissa, if_pos rfl, if_neg (by omega), sub_add_cancel]

/-- A fraction near a number is rounded to it. -/
theorem ofRatio_of_nears (negative : Bool) {num den m : Nat} {e : Int} (hnum : 0 < num)
    (hden : 0 < den) (hform : IsForm m e) (h : Nears m e ((num : ℚ) / den)) :
    ofRatio negative num den = .finite negative m e := by
  obtain ⟨hlow, hhigh, -⟩ := id h
  have hpower := two_zpow_pos e
  have hbelow : (num : ℚ) / den < 2 ^ (53 + e) := by
    have hend : (2 : ℚ) ^ (53 : Int) = mantissaEnd := by norm_num [mantissaEnd]
    have hm : (m : ℚ) + 1 ≤ mantissaEnd := by exact_mod_cast hform.below
    rw [zpow_add₀ (by norm_num), hend]
    nlinarith
  by_cases hnormal : e = -1074 ∨ (2 : ℚ) ^ (52 + e) ≤ (num : ℚ) / den
  · exact ofRatio_of_isScale negative hnum hden hform ⟨hform.least, hbelow, hnormal⟩ h
  -- otherwise the number is a power of two, and what is rounded lies below it
  push Not at hnormal
  obtain ⟨hne, hsmall⟩ := hnormal
  have hleast := hform.least
  have hlarge : leastNormal ≤ m := hform.normal.resolve_left hne
  have hunit : (2 : ℚ) ^ (52 + e) = leastNormal * 2 ^ e := by
    rw [zpow_add₀ (by norm_num)]
    norm_num [leastNormal]
  rw [hunit] at hsmall
  have hpowerOfTwo : m = leastNormal := by
    by_contra hother
    have hmore : (leastNormal : ℚ) + 1 ≤ m := by
      exact_mod_cast Nat.lt_of_le_of_ne hlarge (Ne.symm hother)
    have := reach_le m e
    nlinarith
  subst hpowerOfTwo
  have hreach : reach leastNormal e = 1 / 4 := if_pos ⟨rfl, by omega⟩
  rw [hreach] at hlow
  exact ofRatio_below_power negative hnum hden (by omega) hform.greatest hlow hsmall

/-! ## Rounding a decimal -/

/-- What is near a positive number lies between the bounds of all numbers. -/
lemma Nears.bounds {m : Nat} {e : Int} {q : ℚ} (hm : 0 < m) (hform : IsForm m e) (h : Nears m e q) :
    (2 : ℚ) ^ (-1075 : Int) ≤ q ∧ q < 2 ^ (1024 : Int) := by
  obtain ⟨hlow, hhigh, -⟩ := h
  have hpower := two_zpow_pos e
  have hone : (1 : ℚ) ≤ m := by exact_mod_cast hm
  have hend : (m : ℚ) + 1 ≤ mantissaEnd := by exact_mod_cast hform.below
  have hreach := reach_le m e
  constructor
  · have hleast : (2 : ℚ) ^ (-1074 : Int) ≤ 2 ^ e := zpow_le_zpow_right₀ (by norm_num) hform.least
    have hhalf : (2 : ℚ) ^ (-1075 : Int) = 1 / 2 * 2 ^ (-1074 : Int) := by
      rw [show (-1075 : Int) = -1074 - 1 by norm_num, zpow_sub_one₀ (by norm_num)]
      ring
    rw [hhalf]
    nlinarith
  · have hgreatest : (2 : ℚ) ^ e ≤ 2 ^ (971 : Int) := zpow_le_zpow_right₀ (by norm_num) hform.greatest
    have hall : (2 : ℚ) ^ (1024 : Int) = mantissaEnd * 2 ^ (971 : Int) := by
      rw [show (1024 : Int) = 53 + 971 by norm_num, zpow_add₀ (by norm_num)]
      norm_num [mantissaEnd]
    rw [hall]
    calc q ≤ (m + 1 / 2) * 2 ^ e := hhigh
      _ < mantissaEnd * 2 ^ e := by
          gcongr
          linarith
      _ ≤ mantissaEnd * 2 ^ (971 : Int) := mul_le_mul_of_nonneg_left hgreatest (Nat.cast_nonneg _)

/-- The bits of a number tell how many digits it has at least. -/
lemma ten_pow_le {d : Nat} (hd : 0 < d) : 10 ^ (d.log2 * 3 / 10) ≤ d := by
  refine le_trans ?_ (Nat.log2_self_le hd.ne')
  generalize d.log2 = k
  have hten : (10 ^ (k * 3 / 10)) ^ 10 ≤ (2 ^ k) ^ 10 := by
    calc (10 ^ (k * 3 / 10)) ^ 10 = 10 ^ (k * 3 / 10 * 10) := (Nat.pow_mul _ _ _).symm
      _ ≤ 10 ^ (k * 3) := Nat.pow_le_pow_right (by omega) (Nat.div_mul_le_self _ _)
      _ = (10 ^ 3) ^ k := by rw [Nat.mul_comm, Nat.pow_mul]
      _ ≤ (2 ^ 10) ^ k := Nat.pow_le_pow_left (by norm_num) k
      _ = (2 ^ k) ^ 10 := by rw [← Nat.pow_mul, ← Nat.pow_mul, Nat.mul_comm]
  exact (Nat.pow_le_pow_iff_left (by norm_num)).mp hten

/-- A decimal near a positive number is rounded to it, unless its last place is far behind the point. -/
theorem ofDecimal_of_nears (negative : Bool) {digits m : Nat} {s e : Int} (hm : 0 < m)
    (hform : IsForm m e) (hs : -800 ≤ s) (h : Nears m e (digits * 10 ^ s)) :
    ofDecimal negative digits s = .finite negative m e := by
  obtain ⟨hlow, hhigh⟩ := h.bounds hm hform
  have hten := ten_zpow_pos s
  have hdigits : 0 < digits := by
    rcases Nat.eq_zero_or_pos digits with rfl | hpos
    · rw [Nat.cast_zero, zero_mul] at hlow
      linarith [two_zpow_pos (-1075)]
    · exact hpos
  unfold ofDecimal
  rw [if_neg hdigits.ne']
  simp only
  have hnotLarge : ¬ 400 < (digits.log2 : Int) * 3 / 10 + s := by
    intro hlarge
    have hcount : (10 : ℚ) ^ ((digits.log2 : Int) * 3 / 10) ≤ digits := by
      have hcast : (digits.log2 : Int) * 3 / 10 = ((digits.log2 * 3 / 10 : Nat) : Int) := by
        push_cast
        rfl
      rw [hcast, zpow_natCast]
      exact_mod_cast ten_pow_le hdigits
    have hsize : (10 : ℚ) ^ (401 : Int) ≤ digits * 10 ^ s := by
      calc (10 : ℚ) ^ (401 : Int) ≤ 10 ^ ((digits.log2 : Int) * 3 / 10 + s) :=
            zpow_le_zpow_right₀ (by norm_num) (by omega)
        _ = 10 ^ ((digits.log2 : Int) * 3 / 10) * 10 ^ s := zpow_add₀ (by norm_num) _ _
        _ ≤ digits * 10 ^ s := by gcongr
    have hpowers : (2 : ℚ) ^ (1024 : Int) ≤ 10 ^ (401 : Int) := by
      calc (2 : ℚ) ^ (1024 : Int) ≤ 2 ^ (3 * 342 : Int) :=
            zpow_le_zpow_right₀ (by norm_num) (by norm_num)
        _ = (2 ^ (3 : Int)) ^ (342 : Int) := zpow_mul _ _ _
        _ ≤ 10 ^ (342 : Int) := zpow_le_zpow_left₀ (by norm_num) (by norm_num) (by norm_num)
        _ ≤ 10 ^ (401 : Int) := zpow_le_zpow_right₀ (by norm_num) (by norm_num)
    exact absurd (hsize.trans_lt hhigh) (not_lt.mpr hpowers)
  rw [if_neg hnotLarge, if_neg (by omega)]
  split
  · rename_i hwhole
    obtain ⟨n, rfl⟩ := Int.eq_ofNat_of_zero_le hwhole
    refine ofRatio_of_nears negative (Nat.mul_pos hdigits (Nat.pow_pos (by omega))) Nat.one_pos hform ?_
    simpa [tenTo] using h
  · rename_i hpart
    obtain ⟨n, rfl⟩ : ∃ n : Nat, s = -(n : Int) := ⟨(-s).toNat, by omega⟩
    refine ofRatio_of_nears negative hdigits (Nat.pow_pos (by omega)) hform ?_
    simpa [tenTo, zpow_neg, div_eq_mul_inv] using h

end EditorDocs.Binary64
