import EditorDocs.Text.Basic
import Mathlib.Algebra.Group.Nat.Defs
import Mathlib.Tactic.Common

/-!
# Digits

The text of a number consists of digits, with a minus sign at most.  So it is of printable ASCII,
which is all that a line sent to a host may hold (`Text.IsPrintable`).  And so many decimal digits
spell a number below the power of ten (`Text.decimalValue_lt`).  The digits of a number spell it
(`Text.decimalValue_ofNat`).
-/

namespace EditorDocs

/-- Hexadecimal digits are printable, and none of them is a slash or a dot. -/
lemma CodePoint.ofHexDigit_val {d : Nat} (h : d < 16) :
    0x30 ≤ (CodePoint.ofHexDigit d).val ∧ (CodePoint.ofHexDigit d).val < 0x7F := by
  have hall : ∀ d : Fin 16,
      0x30 ≤ (CodePoint.ofHexDigit d).val ∧ (CodePoint.ofHexDigit d).val < 0x7F := by decide
  exact hall ⟨d, h⟩

/-- The digits of a number are below the base. -/
lemma Text.lt_of_mem_reversedDigits {base : Nat} (hbase : 2 ≤ base) {n d : Nat}
    (h : d ∈ reversedDigits base n) : d < base := by
  induction n using Nat.strongRecOn with
  | _ n ih =>
    rw [reversedDigits] at h
    split at h
    · rename_i hsmall
      rw [List.mem_singleton] at h
      omega
    · rename_i hlarge
      rcases List.mem_cons.mp h with rfl | h
      · exact Nat.mod_lt n (by omega)
      · exact ih (n / base) (Nat.div_lt_self (by omega) (by omega)) h

namespace Text

/-- The text is of printable ASCII. -/
def IsPrintable (t : Text) : Prop := ∀ c ∈ t, 0x20 ≤ c.val ∧ c.val < 0x7F

instance (t : Text) : Decidable t.IsPrintable :=
  inferInstanceAs (Decidable (∀ c ∈ t, 0x20 ≤ c.val ∧ c.val < 0x7F))

/-- Digits of a base spell a number below its power. -/
lemma foldl_digits_lt {base : Nat} {ds : List Nat} (h : ∀ d ∈ ds, d < base) (n : Nat) :
    ds.foldl (fun n d => n * base + d) n < (n + 1) * base ^ ds.length := by
  induction ds generalizing n with
  | nil => simp
  | cons d ds ih =>
    obtain ⟨hd, hds⟩ := List.forall_mem_cons.mp h
    calc ds.foldl (fun n d => n * base + d) (n * base + d)
        < (n * base + d + 1) * base ^ ds.length := ih hds _
      _ ≤ ((n + 1) * base) * base ^ ds.length := by
          refine Nat.mul_le_mul_right _ ?_
          rw [Nat.add_mul]
          omega
      _ = (n + 1) * base ^ (ds.length + 1) := by
          rw [Nat.pow_succ', Nat.mul_assoc]

/-- A run of decimal digits spells a number below the power of ten. -/
lemma decimalValue_lt {ds : Text} (h : ∀ c ∈ ds, c.isDigit = true) :
    decimalValue ds < 10 ^ ds.length := by
  have hbelow : ∀ d ∈ ds.map fun c => c.val - 0x30, d < 10 := by
    intro d hd
    obtain ⟨c, hc, rfl⟩ := List.mem_map.mp hd
    have hdigit := h c hc
    simp only [CodePoint.isDigit, Bool.and_eq_true, decide_eq_true_eq] at hdigit
    omega
  simpa [decimalValue, digitsValue] using foldl_digits_lt hbelow 0

/-- Digits go on where others have stopped. -/
lemma foldl_digits (base : Nat) (ds : List Nat) (n : Nat) :
    ds.foldl (fun n d => n * base + d) n = n * base ^ ds.length + digitsValue base ds := by
  induction ds generalizing n with
  | nil => simp [digitsValue]
  | cons d ds ih =>
    rw [digitsValue, List.foldl_cons, List.foldl_cons, ih, ih (0 * base + d), List.length_cons,
      Nat.pow_succ']
    simp only [Nat.add_mul, Nat.zero_mul, Nat.zero_add, Nat.mul_assoc, Nat.add_assoc]

/-- Digits behind others move those up by as many places. -/
lemma digitsValue_append (base : Nat) (ds es : List Nat) :
    digitsValue base (ds ++ es) = digitsValue base ds * base ^ es.length + digitsValue base es := by
  rw [digitsValue, List.foldl_append, foldl_digits]
  rfl

/-- The same holds of decimal digits. -/
lemma decimalValue_append (ds es : Text) :
    decimalValue (ds ++ es) = decimalValue ds * 10 ^ es.length + decimalValue es := by
  rw [decimalValue, List.map_append, digitsValue_append, List.length_map]
  rfl

/-- Zeros spell nothing. -/
lemma decimalValue_zeros (n : Nat) : decimalValue (List.replicate n ('0' : CodePoint)) = 0 := by
  induction n with
  | zero => rfl
  | succ n ih =>
    have hzero : decimalValue [('0' : CodePoint)] = 0 := by decide
    rw [List.replicate_succ, ← List.singleton_append, decimalValue_append, ih, hzero, Nat.zero_mul]

/-- The digits of a number spell it. -/
lemma digitsValue_reversedDigits {base : Nat} (hbase : 2 ≤ base) (n : Nat) :
    digitsValue base (reversedDigits base n).reverse = n := by
  induction n using Nat.strongRecOn with
  | _ n ih =>
    rw [reversedDigits]
    split
    · simp [digitsValue]
    · have hless : n / base < n := Nat.div_lt_self (by omega) (by omega)
      rw [List.reverse_cons, digitsValue_append, ih _ hless]
      simp [digitsValue, Nat.div_add_mod']

/-- A number is what its text spells. -/
theorem decimalValue_ofNat (n : Nat) : decimalValue (ofNat n) = n := by
  have hdigit : ∀ d : Fin 10, (CodePoint.ofHexDigit d.val).val - 0x30 = d.val := by decide
  rw [decimalValue, ofNat, List.map_map]
  have hsame : (reversedDigits 10 n).reverse.map ((fun c => c.val - 0x30) ∘ CodePoint.ofHexDigit) =
      (reversedDigits 10 n).reverse.map id := by
    refine List.map_congr_left fun d hd => hdigit ⟨d, ?_⟩
    exact lt_of_mem_reversedDigits (by omega) (List.mem_reverse.mp hd)
  rw [hsame, List.map_id, digitsValue_reversedDigits (by omega)]

variable {a b : Text}

/-- An empty text is printable. -/
lemma isPrintable_nil : IsPrintable [] := by simp [IsPrintable]

/-- Joined texts are printable if both are. -/
lemma IsPrintable.append (ha : a.IsPrintable) (hb : b.IsPrintable) : (a ++ b).IsPrintable := by
  intro c hc
  rcases List.mem_append.mp hc with h | h
  · exact ha c h
  · exact hb c h

/-- What is left of a printable text is printable. -/
lemma IsPrintable.mono (hb : b.IsPrintable) (hsub : ∀ c ∈ a, c ∈ b) : a.IsPrintable :=
  fun c hc => hb c (hsub c hc)

/-- A number in decimal consists of digits. -/
lemma mem_ofNat {n : Nat} {c : CodePoint} (h : c ∈ ofNat n) : 0x30 ≤ c.val ∧ c.val < 0x7F := by
  obtain ⟨d, hd, rfl⟩ := List.mem_map.mp h
  have hlt := lt_of_mem_reversedDigits (by omega) (List.mem_reverse.mp hd)
  exact CodePoint.ofHexDigit_val (by omega)

/-- A number in decimal is printable. -/
lemma isPrintable_ofNat (n : Nat) : (ofNat n).IsPrintable := by
  intro c hc
  have := mem_ofNat hc
  omega

/-- An integer in decimal is printable. -/
lemma isPrintable_ofInt (n : Int) : (ofInt n).IsPrintable := by
  cases n with
  | ofNat n => exact isPrintable_ofNat n
  | negSucc n => exact IsPrintable.append (a := [('-' : CodePoint)]) (by decide) (isPrintable_ofNat _)

/-- Zeros are printable. -/
lemma isPrintable_zeros (n : Nat) : IsPrintable (List.replicate n ('0' : CodePoint)) := by
  intro c hc
  rw [List.eq_of_mem_replicate hc]
  decide

/-- A number in hexadecimal is printable. -/
lemma isPrintable_ofHex (width n : Nat) : (ofHex width n).IsPrintable := by
  refine (isPrintable_zeros _).append ?_
  intro c hc
  obtain ⟨d, hd, rfl⟩ := List.mem_map.mp hc
  have hlt := lt_of_mem_reversedDigits (by omega) (List.mem_reverse.mp hd)
  have := CodePoint.ofHexDigit_val hlt
  omega

end Text

end EditorDocs
