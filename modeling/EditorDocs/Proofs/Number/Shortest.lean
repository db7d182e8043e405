import EditorDocs.Number.Shortest
import EditorDocs.Proofs.Number.Rounding

/-!
# The shortest decimal reads back

Whether a decimal reads back as a number is decided in whole numbers, and it does if and only if it lies
near the number (`Binary64.readsBack_iff`).  The search for the shortest decimal of a number tries up to
seventeen digits.  A number is at least as large as the power of ten with which the search begins
(`Binary64.ten_pow_pointPosition_le`), so that decimals of seventeen digits lie closer together than
the numbers around it do: the nearest one is near the number, and the search ends with a decimal that
reads back (`Binary64.nears_shortest`).
-/

namespace EditorDocs.Binary64

/-! ## Comparing in whole numbers -/

/-- A power times the power that makes it whole is whole. -/
lemma zpow_mul_toNat {b : ℚ} (hb : b ≠ 0) (s : Int) : b ^ s * b ^ (-s).toNat = b ^ s.toNat := by
  rw [← zpow_natCast, ← zpow_natCast, ← zpow_add₀ hb]
  congr 1
  omega

/-- Decimal and binary numbers become whole when both are taken the same number of times. -/
lemma exists_whole (s e : Int) : ∃ c : ℚ, 0 < c ∧
    (∀ a : Nat, a * 10 ^ s * c = (a * tenTo s.toNat * twoTo (-e).toNat : Nat)) ∧
    ∀ b : Nat, b * 2 ^ e * c = (b * twoTo e.toNat * tenTo (-s).toNat : Nat) := by
  have hten := zpow_mul_toNat (b := 10) (by norm_num) s
  have htwo := zpow_mul_toNat (b := 2) (by norm_num) e
  refine ⟨10 ^ (-s).toNat * 2 ^ (-e).toNat, by positivity, fun a => ?_, fun b => ?_⟩
  · simp only [tenTo, twoTo, Nat.pow_eq]
    push_cast
    rw [← hten]
    ring
  · simp only [tenTo, twoTo, Nat.pow_eq]
    push_cast
    rw [← htwo]
    ring

section Compare

variable {a b : Nat} {s e : Int}

/-- The comparison finds out what is less. -/
lemma compareScaled_eq_lt_iff : compareScaled a s b e = .lt ↔ (a : ℚ) * 10 ^ s < b * 2 ^ e := by
  obtain ⟨c, hc, ha, hb⟩ := exists_whole s e
  rw [compareScaled, Nat.compare_eq_lt, ← mul_lt_mul_iff_left₀ hc, ha, hb, Nat.cast_lt]

/-- And what is greater. -/
lemma compareScaled_eq_gt_iff : compareScaled a s b e = .gt ↔ (b : ℚ) * 2 ^ e < a * 10 ^ s := by
  obtain ⟨c, hc, ha, hb⟩ := exists_whole s e
  rw [compareScaled, Nat.compare_eq_gt, ← mul_lt_mul_iff_left₀ hc, ha, hb, Nat.cast_lt]

end Compare

/-- A decimal reads back as a number exactly if it is near it. -/
theorem readsBack_iff {m : Nat} (hm : 0 < m) (e : Int) (d : Nat) (s : Int) :
    readsBack m e d s = true ↔ Nears m e (d * 10 ^ s) := by
  have hquarter : (2 : ℚ) ^ (e - 2) = 2 ^ e / 4 := by
    rw [zpow_sub₀ (by norm_num)]
    norm_num
  have hlow : ((4 * m - (if m = leastNormal ∧ -1074 < e then 1 else 2) : Nat) : ℚ) * 2 ^ (e - 2) =
      (m - reach m e) * 2 ^ e := by
    rw [hquarter, Nat.cast_sub (by split <;> omega)]
    unfold reach
    split <;> push_cast <;> ring
  have hhigh : ((4 * m + 2 : Nat) : ℚ) * 2 ^ (e - 2) = (m + 1 / 2) * 2 ^ e := by
    rw [hquarter]
    push_cast
    ring
  have hbelow := compareScaled_eq_lt_iff (a := d) (s := s) (e := e - 2)
    (b := 4 * m - if m = leastNormal ∧ -1074 < e then 1 else 2)
  have habove := compareScaled_eq_gt_iff (a := d) (s := s) (e := e - 2)
    (b := 4 * m - if m = leastNormal ∧ -1074 < e then 1 else 2)
  have hbelow' := compareScaled_eq_lt_iff (a := d) (s := s) (e := e - 2) (b := 4 * m + 2)
  have habove' := compareScaled_eq_gt_iff (a := d) (s := s) (e := e - 2) (b := 4 * m + 2)
  rw [hlow] at hbelow habove
  rw [hhigh] at hbelow' habove'
  unfold readsBack Nears
  rcases Nat.mod_two_eq_zero_or_one m with heven | hodd
  · rw [if_pos heven]
    simp only [heven, Bool.and_eq_true, bne_iff_ne, ne_eq, hbelow, habove', not_lt]
    simp
  · rw [if_neg (by omega)]
    simp only [hodd, Bool.and_eq_true, beq_iff_eq, habove, hbelow']
    constructor
    · rintro ⟨hl, hh⟩
      exact ⟨hl.le, hh.le, fun _ => ⟨hl, hh⟩⟩
    · rintro ⟨-, -, hboth⟩
      exact hboth trivial

/-! ## Where the point stands -/

/-- The first guess at the position of the point is too high by less than two. -/
lemma ten_zpow_le {l p : Int} (hp : 100000 * p ≤ 30103 * l) (hlow : -1074 ≤ l) (hhigh : l ≤ 1024) :
    (10 : ℚ) ^ (p - 2) ≤ 2 ^ l := by
  rcases le_total 0 (p - 2) with hpos | hneg
  · refine (pow_le_pow_iff_left₀ (ten_zpow_pos _).le (two_zpow_pos _).le (n := 3) (by norm_num)).mp ?_
    calc ((10 : ℚ) ^ (p - 2)) ^ 3 = (10 ^ 3) ^ (p - 2) := by
          rw [← zpow_natCast, ← zpow_natCast, ← zpow_mul, ← zpow_mul, mul_comm]
      _ ≤ (2 ^ 10) ^ (p - 2) := zpow_le_zpow_left₀ hpos (by norm_num) (by norm_num)
      _ = 2 ^ (10 * (p - 2)) := by rw [← zpow_natCast, ← zpow_mul]; rfl
      _ ≤ 2 ^ (l * 3) := zpow_le_zpow_right₀ (by norm_num) (by omega)
      _ = (2 ^ l) ^ 3 := by rw [← zpow_natCast, ← zpow_mul]; rfl
  · refine (pow_le_pow_iff_left₀ (ten_zpow_pos _).le (two_zpow_pos _).le (n := 13) (by norm_num)).mp ?_
    have hflip : ∀ b : ℚ, b ^ (p - 2) = (b ^ (2 - p))⁻¹ := fun b => by
      rw [← zpow_neg, neg_sub]
    calc ((10 : ℚ) ^ (p - 2)) ^ 13 = (10 ^ 13) ^ (p - 2) := by
          rw [← zpow_natCast, ← zpow_natCast, ← zpow_mul, ← zpow_mul, mul_comm]
      _ ≤ (2 ^ 43) ^ (p - 2) := by
          rw [hflip, hflip]
          exact inv_anti₀ (by positivity) (zpow_le_zpow_left₀ (by omega) (by norm_num) (by norm_num))
      _ = 2 ^ (43 * (p - 2)) := by rw [← zpow_natCast, ← zpow_mul]; rfl
      _ ≤ 2 ^ (l * 13) := zpow_le_zpow_right₀ (by norm_num) (by omega)
      _ = (2 ^ l) ^ 13 := by rw [← zpow_natCast, ← zpow_mul]; rfl

/-- A number is at least a power of two. -/
lemma two_zpow_log2_le {m : Nat} (hm : 0 < m) (e : Int) :
    (2 : ℚ) ^ ((m.log2 : Int) + e) ≤ m * 2 ^ e := by
  have hlow : (2 : ℚ) ^ (m.log2 : Int) ≤ m := by
    rw [zpow_natCast]
    exact_mod_cast Nat.log2_self_le hm.ne'
  rw [zpow_add₀ (by norm_num)]
  exact mul_le_mul_of_nonneg_right hlow (two_zpow_pos e).le

/-- A mantissa has no more than fifty-three bits. -/
lemma log2_lt_of_isForm {m : Nat} {e : Int} (hm : 0 < m) (hform : IsForm m e) : m.log2 < 53 := by
  rw [Nat.log2_lt hm.ne']
  exact hform.below

/-- No digit of a number stands more than one place before the point where the search begins. -/
theorem ten_pow_pointPosition_le {m : Nat} {e : Int} (hm : 0 < m) (hform : IsForm m e) :
    (10 : ℚ) ^ (pointPosition m e - 1) ≤ m * 2 ^ e ∧ -400 ≤ pointPosition m e := by
  have hbits := log2_lt_of_isForm hm hform
  obtain ⟨-, hleast, hgreatest, -⟩ := hform
  have habove : ∀ p : Int, (compareScaled 1 p m e == .gt) = true ↔ (m : ℚ) * 2 ^ e < 10 ^ p := by
    intro p
    rw [beq_iff_eq, compareScaled_eq_gt_iff, Nat.cast_one, one_mul]
  unfold pointPosition
  simp only [habove]
  generalize hlow : ((m.log2 : Int) + e) * 30103 / 100000 = low
  have hfirst : (10 : ℚ) ^ (low - 2) ≤ m * 2 ^ e :=
    (ten_zpow_le (l := (m.log2 : Int) + e) (by omega) (by omega) (by omega)).trans
      (two_zpow_log2_le hm e)
  have hless : ∀ p : Int, ¬ ((m : ℚ) * 2 ^ e < 10 ^ p) → (10 : ℚ) ^ (p + 1 - 1) ≤ m * 2 ^ e := by
    intro p hp
    rw [add_sub_cancel_right]
    exact not_lt.mp hp
  split_ifs with h1 h2 h3
  · refine ⟨?_, by omega⟩
    rw [show low - 1 - 1 = low - 2 by ring]
    exact hfirst
  · refine ⟨not_lt.mp h1, by omega⟩
  · exact ⟨hless low h2, by omega⟩
  · refine ⟨?_, by omega⟩
    rw [show low + 2 - 1 = low + 1 by ring]
    exact not_lt.mp h3

/-! ## The search -/

/-- A decimal that is found reads back, and its last digit stands where it was sought. -/
lemma readsBack_of_nearest? {m k : Nat} {e p : Int} {d : Decimal} (h : nearest? m e p k = some d) :
    readsBack m e d.digits d.exponent = true ∧ d.exponent = p - k := by
  have hchosen : ∀ (closer further : Nat) (s : Int),
      (if readsBack m e closer s then some (⟨closer, s⟩ : Decimal)
        else if readsBack m e further s then some ⟨further, s⟩ else none) = some d →
      readsBack m e d.digits d.exponent = true ∧ d.exponent = s := by
    intro closer further s hd
    by_cases hcloser : readsBack m e closer s
    · rw [if_pos hcloser] at hd
      cases hd
      exact ⟨hcloser, rfl⟩
    rw [if_neg hcloser] at hd
    by_cases hfurther : readsBack m e further s
    · rw [if_pos hfurther] at hd
      cases hd
      exact ⟨hfurther, rfl⟩
    · rw [if_neg hfurther] at hd
      cases hd
  exact hchosen _ _ _ h

/-- The nearest decimal is at most half of its last place away. -/
lemma divideEven_decimal (m : Nat) (e s : Int) :
    let q := divideEven (m * twoTo e.toNat * tenTo (-s).toNat) (twoTo (-e).toNat * tenTo s.toNat)
    (q - 1 / 2) * (10 : ℚ) ^ s ≤ m * 2 ^ e ∧ (m : ℚ) * 2 ^ e ≤ (q + 1 / 2) * 10 ^ s := by
  intro q
  obtain ⟨c, hc, hdecimal, hbinary⟩ := exists_whole s e
  have hpos : 0 < twoTo (-e).toNat * tenTo s.toNat :=
    Nat.mul_pos (Nat.pow_pos (by omega)) (Nat.pow_pos (by omega))
  obtain ⟨hlow, hhigh⟩ := divideEven_near (n := m * twoTo e.toNat * tenTo (-s).toNat) hpos
  have hden : (10 : ℚ) ^ s * c = (twoTo (-e).toNat * tenTo s.toNat : Nat) := by
    have hone := hdecimal 1
    rw [Nat.cast_one, one_mul, Nat.one_mul, Nat.mul_comm] at hone
    exact hone
  have hnum := hbinary m
  change 2 * q * _ ≤ _ at hlow
  change _ ≤ (2 * q + 1) * _ at hhigh
  have hlow' : 2 * (q : ℚ) * (10 ^ s * c) ≤ 2 * (m * 2 ^ e * c) + 10 ^ s * c := by
    rw [hden, hnum]
    exact_mod_cast hlow
  have hhigh' : 2 * (m * 2 ^ e * c) ≤ (2 * (q : ℚ) + 1) * (10 ^ s * c) := by
    rw [hden, hnum]
    exact_mod_cast hhigh
  constructor
  · refine le_of_mul_le_mul_right ?_ hc
    linarith
  · refine le_of_mul_le_mul_right ?_ hc
    linarith

/-- Seventeen digits suffice. -/
lemma isSome_nearest? {m : Nat} {e p : Int} (hm : 0 < m) (hform : IsForm m e)
    (hp : (10 : ℚ) ^ (p - 1) ≤ m * 2 ^ e) : (nearest? m e p 17).isSome := by
  obtain ⟨hlow, hhigh⟩ := divideEven_decimal m e (p - 17)
  have hplace : (10 : ℚ) ^ (p - 17) * 10 ^ 16 ≤ m * 2 ^ e := by
    rw [← zpow_natCast, ← zpow_add₀ (by norm_num)]
    exact_mod_cast (show p - 17 + 16 = p - 1 by ring) ▸ hp
  have hpower := two_zpow_pos e
  have hten := ten_zpow_pos (p - 17)
  have hreach : (10 : ℚ) ^ (p - 17) / 2 < reach m e * 2 ^ e := by
    unfold reach
    split
    · rename_i hleast
      rw [hleast.1] at hplace
      norm_num [leastNormal] at hplace
      linarith
    · have hend : (m : ℚ) + 1 ≤ mantissaEnd := by exact_mod_cast hform.below
      norm_num [mantissaEnd] at hend
      nlinarith
  have hhalf : reach m e * (2 : ℚ) ^ e ≤ 1 / 2 * 2 ^ e := by
    have := reach_le m e
    gcongr
  have hcloser := (readsBack_iff hm e _ (p - 17)).mpr (Nears.of_lt (by linarith) (by linarith))
  unfold nearest?
  simp only
  have hplaces : p - ((17 : Nat) : Int) = p - 17 := rfl
  rw [hplaces, if_pos hcloser]
  rfl

/-- The shortest decimal is near its number, and its last digit is not far behind the point. -/
theorem nears_shortest {m : Nat} {e : Int} (hm : 0 < m) (hform : IsForm m e) :
    Nears m e ((shortest m e).digits * 10 ^ (shortest m e).exponent) ∧
      -800 ≤ (shortest m e).exponent := by
  obtain ⟨hpoint, hleast⟩ := ten_pow_pointPosition_le hm hform
  unfold shortest
  simp only
  cases hfound : (List.range 17).findSome? fun k => nearest? m e (pointPosition m e) (k + 1) with
  | none =>
    have hlast := List.findSome?_eq_none_iff.mp hfound 16 (by simp)
    have hsome := isSome_nearest? hm hform hpoint
    rw [hlast] at hsome
    cases hsome
  | some d =>
    obtain ⟨k, hk, hnearest⟩ := List.exists_of_findSome?_eq_some hfound
    obtain ⟨hreads, hexponent⟩ := readsBack_of_nearest? hnearest
    have hlt := List.mem_range.mp hk
    refine ⟨(readsBack_iff hm e _ _).mp hreads, ?_⟩
    rw [Option.getD_some, hexponent]
    omega

end EditorDocs.Binary64
