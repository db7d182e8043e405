import EditorDocs.Proofs.Json.Joined
import EditorDocs.Proofs.Json.Numerals

/-!
# Values that are written on a line and read

What is written on a line is read back from there (`Json.readLine_render`): every value that can be
written, with halves of surrogate pairs joined in its texts and all its numbers exact.  Integers come
back since their digits spell them, and other numbers since the shortest decimal of a number reads back
as that number.

As for values that are printed, this is said of one reader, one text and one value, whatever follows
(`Json.Line.Rereads`), and it passes from the parts of a value to the whole.  But behind a number must not
stand what a number goes on with (`Json.Line.Follows`), which is never so within a value.
-/

namespace EditorDocs

/-- The number is one of double precision. -/
def Binary64.IsExact : Binary64 → Prop
  | .finite _ m e => IsForm m e
  | _ => True

namespace Json

/-- The value can be written, as far as its kinds are concerned, and all its numbers are of double
precision. -/
inductive Value.IsExact : Value → Prop where
  /-- The null value. -/
  | null : IsExact .null
  /-- A truth value. -/
  | bool (b : Bool) : IsExact (.bool b)
  /-- An integer. -/
  | int (n : Int) : IsExact (.int n)
  /-- A number of double precision. -/
  | float {x : Binary64} (h : x.IsExact) : IsExact (.float x)
  /-- A text. -/
  | string (t : Text) : IsExact (.string t)
  /-- A list of such values. -/
  | list {vs : List Value} (h : ∀ v ∈ vs, IsExact v) : IsExact (.list vs)
  /-- An object of such values. -/
  | object {ms : List (Text × Value)} (h : ∀ m ∈ ms, IsExact m.2) : IsExact (.object ms)

/-- A reason among the items of a list is one of an item. -/
lemma exists_of_faultItems? {budget : Nat} {vs : List Value} {f : WriteFault}
    (h : faultItems? budget vs = some f) : ∃ v ∈ vs, v.fault? budget = some f := by
  induction vs with
  | nil => cases h
  | cons v vs ih =>
    rw [faultItems?] at h
    split at h
    · rename_i hv
      exact ⟨v, List.mem_cons_self, hv.trans h⟩
    · obtain ⟨u, hu, hfault⟩ := ih h
      exact ⟨u, List.mem_cons_of_mem v hu, hfault⟩

/-- A reason among the members of an object is one of a member. -/
lemma exists_of_faultMembers? {budget : Nat} {ms : List (Text × Value)} {f : WriteFault}
    (h : faultMembers? budget ms = some f) : ∃ m ∈ ms, m.2.fault? budget = some f := by
  induction ms with
  | nil => cases h
  | cons m ms ih =>
    obtain ⟨name, v⟩ := m
    rw [faultMembers?] at h
    split at h
    · rename_i hv
      exact ⟨(name, v), List.mem_cons_self, hv.trans h⟩
    · obtain ⟨u, hu, hfault⟩ := ih h
      exact ⟨u, List.mem_cons_of_mem (name, v) hu, hfault⟩

/-- Such a value has a form: only its depth or its integers keep it from being written. -/
lemma Value.IsExact.fault?_ne_noForm {v : Value} (h : v.IsExact) (budget : Nat) :
    v.fault? budget ≠ some .noForm := by
  -- on the kinds of values; a container is as good as what it holds
  induction h generalizing budget with
  | null => simp [Value.fault?]
  | bool b => simp [Value.fault?]
  | int n =>
    rw [Value.fault?]
    split <;> simp
  | float h => simp [Value.fault?]
  | string t => simp [Value.fault?]
  | list h ih =>
    intro hfault
    cases budget with
    | zero => cases hfault
    | succ inner =>
      obtain ⟨v, hv, hinner⟩ := exists_of_faultItems? hfault
      exact ih v hv inner hinner
  | object h ih =>
    intro hfault
    cases budget with
    | zero => cases hfault
    | succ inner =>
      obtain ⟨m, hm, hinner⟩ := exists_of_faultMembers? hfault
      exact ih m hm inner hinner

namespace Line

/-- No number goes on with what follows. -/
def Follows (rest : Text) : Prop :=
  ∀ c ∈ rest.head?, c.isDigit = false ∧ c.val ≠ 0x2E ∧ c.val ≠ 0x65 ∧ c.val ≠ 0x45

/-- The reader gives the value from where the text stands, whatever follows that no number goes on with.
The text begins neither with a blank nor with the end of a list. -/
def Rereads (item : Reader) (t : Text) (v : Value) : Prop :=
  ∃ c inside, t = c :: inside ∧ isGap c = false ∧ c.val ≠ 0x5D ∧
    ∀ rest, Follows rest → item (t ++ rest) = .ok (v, rest)

/-! ## Numbers -/

/-- Digits are read up to what is none. -/
lemma digits_append {ds rest : Text} (h : ∀ c ∈ ds, c.isDigit = true)
    (hrest : ∀ c ∈ rest.head?, c.isDigit = false) : digits (ds ++ rest) = (ds, rest) := by
  have hnone : rest.takeWhile CodePoint.isDigit = [] ∧ rest.dropWhile CodePoint.isDigit = rest := by
    cases rest with
    | nil => exact ⟨rfl, rfl⟩
    | cons c rest => simp [hrest c rfl]
  rw [digits, List.span_eq_takeWhile_dropWhile, List.takeWhile_append_of_pos h,
    List.dropWhile_append_of_pos h, hnone.1, hnone.2, List.append_nil]

/-- Digits are some, of which the first is one. -/
lemma exists_cons_of_isDigits {ds : Text} (h : IsDigits ds) :
    ∃ c rest, ds = c :: rest ∧ c.isDigit = true := by
  obtain ⟨c, rest, rfl⟩ := List.exists_cons_of_ne_nil h.nonempty
  exact ⟨c, rest, rfl, h.digits c List.mem_cons_self⟩

/-- A digit is between zero and nine. -/
lemma isDigit_iff {c : CodePoint} : c.isDigit = true ↔ 0x30 ≤ c.val ∧ c.val ≤ 0x39 := by
  simp [CodePoint.isDigit]

/-- An exponent is read where it is written. -/
lemma exponent?_append {x : Option (Bool × Text)} (h : ∀ y ∈ x, IsDigits y.2) {rest : Text}
    (hrest : Follows rest) : exponent? (exponentText x ++ rest) = (x, rest) := by
  cases x with
  | none =>
    cases rest with
    | nil => rfl
    | cons c rest =>
      obtain ⟨-, -, hlower, hupper⟩ := hrest c rfl
      show exponent? (c :: rest) = _
      rw [exponent?.eq_def]
      exact if_neg (by simp [hlower, hupper])
  | some y =>
    obtain ⟨negative, ds⟩ := y
    have hds := h _ rfl
    obtain ⟨d, ds', rfl, hd⟩ := exists_cons_of_isDigits hds
    have hread := digits_append hds.digits fun c hc => (hrest c hc).1
    have hletters : ("e" : Text) = [CodePoint.ofNat 0x65] ∧ ("-" : Text) = [CodePoint.ofNat 0x2D] ∧
        ("+" : Text) = [CodePoint.ofNat 0x2B] := by decide
    obtain ⟨hletter, hminus, hplus⟩ := hletters
    simp only [List.cons_append] at hread
    cases negative with
    | true =>
      simp only [exponentText, if_true, hletter, hminus, List.cons_append, List.nil_append]
      rw [exponent?.eq_def]
      simp only
      rw [if_pos (by decide), if_pos (by decide)]
      simp only [hread]
    | false =>
      simp only [exponentText, Bool.false_eq_true, if_false, hletter, hplus, List.cons_append,
        List.nil_append]
      rw [exponent?.eq_def]
      simp only
      rw [if_pos (by decide), if_neg (by decide), if_pos (by decide)]
      simp only [hread]

/-- Neither digits nor a point stand in front of an exponent and what follows. -/
lemma head_exponentText {x : Option (Bool × Text)} {rest : Text} (hrest : Follows rest) :
    ∀ c ∈ (exponentText x ++ rest).head?, c.isDigit = false ∧ c.val ≠ 0x2E := by
  intro c hc
  cases x with
  | none => exact ⟨(hrest c hc).1, (hrest c hc).2.1⟩
  | some y =>
    cases hc
    decide

/-- A fraction is read where it is written, up to an exponent. -/
lemma fraction?_append {x : Option Text} (h : ∀ ds ∈ x, IsDigits ds) {rest : Text}
    (hrest : ∀ c ∈ rest.head?, c.isDigit = false ∧ c.val ≠ 0x2E) :
    fraction? (fractionText x ++ rest) = (x, rest) := by
  cases x with
  | none =>
    cases rest with
    | nil => rfl
    | cons c rest =>
      show fraction? (c :: rest) = _
      rw [fraction?]
      rcases hdigits : digits rest with ⟨ds, after⟩
      cases ds with
      | nil => rfl
      | cons d ds => exact if_neg (hrest c rfl).2
  | some ds =>
    have hds := h _ rfl
    obtain ⟨d, ds', rfl, hd⟩ := exists_cons_of_isDigits hds
    have hread := digits_append hds.digits fun c hc => (hrest c hc).1
    have hpoint : ("." : Text) = [CodePoint.ofNat 0x2E] := by decide
    simp only [fractionText, hpoint, List.singleton_append]
    simp only [List.cons_append] at hread
    rw [fraction?.eq_def]
    simp only [List.cons_append, hread]
    exact if_pos (by decide)

/-- A numeral is read behind its sign where it is written. -/
lemma number_append {n : Numeral} (h : n.IsProper)
    (hlimit : n.isInteger = true → n.whole.length ≤ integerLimit) {rest : Text} (hrest : Follows rest) :
    number n.negative (n.whole ++ (fractionText n.fraction ++ (exponentText n.exponent ++ rest))) =
      .ok (n.value, rest) := by
  have hfraction := fraction?_append h.fraction (head_exponentText (x := n.exponent) hrest)
  have hexponent := exponent?_append h.exponent hrest
  obtain ⟨d, ds, hwhole, hd⟩ := exists_cons_of_isDigits h.whole.toIsDigits
  -- the whole part ends where a fraction, an exponent or what follows begins
  have hbehind : ∀ c ∈ (fractionText n.fraction ++ (exponentText n.exponent ++ rest)).head?,
      c.isDigit = false := by
    intro c hc
    cases hx : n.fraction with
    | none =>
      rw [hx] at hc
      exact (head_exponentText hrest c hc).1
    | some ds =>
      rw [hx] at hc
      cases hc
      decide
  have hdigits := digits_append h.whole.digits hbehind
  generalize fractionText n.fraction ++ (exponentText n.exponent ++ rest) = after at hfraction hdigits ⊢
  have hread : (if d.val = 0x30 then ([d], ds ++ after) else digits (d :: (ds ++ after))) =
      (n.whole, after) := by
    rw [← List.cons_append, ← hwhole, hdigits]
    split
    · rename_i hzero
      have hhead : n.whole.head? = some ('0' : CodePoint) := by
        rw [hwhole, List.head?_cons, ← ofNat_val d, hzero]
        rfl
      have hone := h.whole.plain hhead
      rw [hwhole] at hone ⊢
      have hnil : ds = [] := (List.cons.inj hone).2
      rw [hnil, List.nil_append]
    · rfl
  have hsome : n.whole.isEmpty = false := by
    rw [hwhole]
    rfl
  have hshort : (n.isInteger && decide (integerLimit < n.whole.length)) = false := by
    rw [Bool.and_eq_false_iff]
    by_cases hinteger : n.isInteger = true
    · exact Or.inr (decide_eq_false (by have := hlimit hinteger; omega))
    · exact Or.inl (by simpa using hinteger)
  have hstart : n.whole ++ after = d :: (ds ++ after) := by rw [hwhole, List.cons_append]
  rw [hstart]
  unfold number
  simp only [hread, hfraction, hexponent, hsome, Bool.false_eq_true, if_false, hshort]

/-- A digit is no blank, no quote, no bracket, no brace and no letter. -/
lemma value_digit {budget : Nat} {d : CodePoint} (hd : d.isDigit = true) (t : Text) :
    value budget (d :: t) = number false (d :: t) := by
  have hd' := isDigit_iff.mp hd
  rw [value.eq_def]
  simp only
  rw [if_neg (by omega), if_neg (by omega), if_neg (by omega), if_neg (by omega), if_neg (by omega),
    if_neg (by omega), if_neg (by omega), if_neg (by omega), if_neg (by omega)]

/-- A number stands behind a minus sign if a digit does. -/
lemma value_minus {budget : Nat} {d : CodePoint} (hd : d.isDigit = true) (t : Text) :
    value budget (CodePoint.ofNat 0x2D :: d :: t) = number true (d :: t) := by
  have hd' := isDigit_iff.mp hd
  have hword : Text.startsWith (d :: t) "I" = false := by
    have hletter : ("I" : Text) = [CodePoint.ofNat 0x49] := by decide
    have hne : CodePoint.ofNat 0x49 ≠ d := by
      rintro rfl
      exact absurd hd'.2 (by decide)
    rw [hletter, Text.startsWith, List.isPrefixOf_cons_cons, beq_eq_false_iff_ne.mpr hne, Bool.false_and]
  rw [value.eq_def]
  simp only
  rw [if_neg (by decide), if_neg (by decide), if_neg (by decide), if_neg (by decide),
    if_neg (by decide), if_neg (by decide), if_neg (by decide), if_neg (by decide),
    if_pos (by decide), hword, if_neg Bool.false_ne_true]

/-- A numeral is read where it is written. -/
lemma rereads_numeral {n : Numeral} (h : n.IsProper)
    (hlimit : n.isInteger = true → n.whole.length ≤ integerLimit) (budget : Nat) :
    Rereads (value budget) n.text n.value := by
  obtain ⟨d, ds, hwhole, hd⟩ := exists_cons_of_isDigits h.whole.toIsDigits
  have hd' := isDigit_iff.mp hd
  have hread := @number_append n h hlimit
  have hstart : n.text = signText n.negative ++ (d :: (ds ++ (fractionText n.fraction ++
      exponentText n.exponent))) := by
    rw [Numeral.text, hwhole]
    simp only [List.append_assoc, List.cons_append]
  cases hsign : n.negative with
  | false =>
    rw [hsign] at hread hstart
    refine ⟨d, _, hstart, ?_, by omega, fun rest hrest => ?_⟩
    · simp only [isGap, Bool.or_eq_false_iff, decide_eq_false_iff_not]
      omega
    · rw [hstart, signText, if_neg Bool.false_ne_true, List.nil_append, List.cons_append,
        value_digit hd, ← hread hrest, hwhole]
      simp only [List.append_assoc, List.cons_append]
  | true =>
    have hminus : signText true = [CodePoint.ofNat 0x2D] := by decide
    rw [hsign] at hread hstart
    rw [hminus, List.singleton_append] at hstart
    refine ⟨_, _, hstart, by decide, by decide, fun rest hrest => ?_⟩
    rw [hstart, List.cons_append, List.cons_append, value_minus hd, ← hread hrest, hwhole]
    simp only [List.append_assoc, List.cons_append]

/-- A number below a power of ten has no more digits than its exponent says. -/
lemma length_ofNat_le {n k : Nat} (hk : 0 < k) (h : n < digitBound k) : (Text.ofNat n).length ≤ k := by
  have hbound : n < 10 ^ k := h
  rcases Nat.eq_zero_or_pos n with rfl | hn
  · have hone : (Text.ofNat 0).length = 1 := by
      rw [Text.ofNat, Text.reversedDigits]
      rfl
    omega
  · obtain ⟨c, rest, htext, hc⟩ := (Text.isCounted_ofNat hn).first
    have hdigit := isDigit_iff.mp ((Text.isCounted_ofNat hn).digits c (by simp [htext]))
    have hvalue := Text.decimalValue_ofNat n
    rw [htext, ← List.singleton_append, Text.decimalValue_append] at hvalue
    have hfirst : 1 ≤ Text.decimalValue [c] := by
      have hzero : c.val ≠ 0x30 := fun hzero => hc (by rw [← ofNat_val c, hzero]; rfl)
      simp only [Text.decimalValue, Text.digitsValue, List.map_cons, List.map_nil, List.foldl_cons,
        List.foldl_nil]
      omega
    by_contra hlong
    rw [htext, List.length_cons] at hlong
    have hpower : 10 ^ k ≤ 10 ^ rest.length := Nat.pow_le_pow_right (by omega) (by omega)
    have hlarge : 10 ^ rest.length ≤ Text.decimalValue [c] * 10 ^ rest.length :=
      Nat.le_mul_of_pos_left _ hfirst
    omega

/-- An integer is read where it is written, if it does not have too many digits. -/
lemma rereads_int {budget depth : Nat} {n : Int} (h : (Value.int n).fault? depth = none) :
    Rereads (value budget) (Text.ofInt n) (.int n) := by
  have hsize : n.natAbs < digitBound integerLimit := by
    by_contra hlarge
    rw [Value.fault?, if_pos (Nat.not_lt.mp hlarge)] at h
    cases h
  have hlimit : 0 < integerLimit := by decide
  have hlength := length_ofNat_le hlimit hsize
  have hproper : ∀ negative, (⟨negative, Text.ofNat n.natAbs, none, none⟩ : Numeral).IsProper :=
    fun negative => ⟨isWhole_ofNat _, fun ds h => (by cases h), fun x h => (by cases h)⟩
  have hread := fun negative => rereads_numeral (hproper negative) (fun _ => hlength) budget
  cases n with
  | ofNat n =>
    have hvalue : (⟨false, Text.ofNat n, none, none⟩ : Numeral).value = .int n := by
      simp [Numeral.value, Numeral.isInteger, Text.decimalValue_ofNat]
    have htext : (⟨false, Text.ofNat n, none, none⟩ : Numeral).text = Text.ofInt n := by
      simp [Numeral.text, signText, fractionText, exponentText, Text.ofInt]
    have hfalse := hread false
    simp only [Int.ofNat_eq_natCast, Int.natAbs_natCast] at hfalse
    rw [hvalue, htext] at hfalse
    exact hfalse
  | negSucc n =>
    have hvalue : (⟨true, Text.ofNat (n + 1), none, none⟩ : Numeral).value = .int (Int.negSucc n) := by
      simp [Numeral.value, Numeral.isInteger, Text.decimalValue_ofNat, Int.negSucc_eq]
    have htext : (⟨true, Text.ofNat (n + 1), none, none⟩ : Numeral).text = Text.ofInt (Int.negSucc n) := by
      have hminus : signText true = [('-' : CodePoint)] := by decide
      simp [Numeral.text, hminus, fractionText, exponentText, Text.ofInt]
    have htrue := hread true
    simp only [Int.natAbs_negSucc] at htrue
    rw [hvalue, htext] at htrue
    exact htrue

/-! ## Words, numbers and strings -/

/-- What is printed in the same way as it is written on a line is read where it is written. -/
lemma Rereads.of_reads {item : Reader} {v : Value} (h : Reads item v) {t : Text}
    (hsame : v.pretty false 0 = t) : Rereads item t v := by
  obtain ⟨c, inside, hprint, hgap, hend, hread⟩ := h 0
  rw [hsame] at hprint
  exact ⟨c, inside, hprint, hgap, hend, fun rest _ => by rw [hprint]; exact hread rest⟩

/-- A word is read where it is written, if the reader looks for that word there. -/
lemma rereads_word {budget : Nat} {v : Value} {c : CodePoint} {t : Text} (hgap : isGap c = false)
    (hend : c.val ≠ 0x5D) (hvalue : ∀ rest, value budget (c :: (t ++ rest)) = .ok (v, rest)) :
    Rereads (value budget) (c :: t) v :=
  ⟨c, t, rfl, hgap, hend, fun rest _ => hvalue rest⟩

/-- The word for what is not a number is read where it is written. -/
lemma rereads_nan (budget : Nat) : Rereads (value budget) (floatText .nan) (.float .nan) := by
  have hword : floatText .nan = CodePoint.ofNat 0x4E :: ("aN" : Text) := by decide
  rw [hword]
  refine rereads_word (by decide) (by decide) fun rest => ?_
  rw [value.eq_def]
  simp only
  rw [if_neg (by decide), if_neg (by decide), if_neg (by decide), if_neg (by decide),
    if_neg (by decide), if_neg (by decide), if_pos (by decide)]
  exact word_append ("NaN" : Text) rest _

/-- The word for an infinity is read where it is written. -/
lemma rereads_infinity (budget : Nat) (negative : Bool) :
    Rereads (value budget) (floatText (.infinity negative)) (.float (.infinity negative)) := by
  cases negative with
  | false =>
    have hword : floatText (.infinity false) = CodePoint.ofNat 0x49 :: ("nfinity" : Text) := by decide
    rw [hword]
    refine rereads_word (by decide) (by decide) fun rest => ?_
    rw [value.eq_def]
    simp only
    rw [if_neg (by decide), if_neg (by decide), if_neg (by decide), if_neg (by decide),
      if_neg (by decide), if_neg (by decide), if_neg (by decide), if_pos (by decide)]
    exact word_append ("Infinity" : Text) rest _
  | true =>
    have hword : floatText (.infinity true) = CodePoint.ofNat 0x2D :: ("Infinity" : Text) := by decide
    rw [hword]
    refine rereads_word (by decide) (by decide) fun rest => ?_
    have hstarts : Text.startsWith (("Infinity" : Text) ++ rest) "I" = true := by
      have hsplit : ("Infinity" : Text) = ("I" : Text) ++ ("nfinity" : Text) := by decide
      rw [hsplit, List.append_assoc, Text.startsWith]
      simp
    rw [value.eq_def]
    simp only
    rw [if_neg (by decide), if_neg (by decide), if_neg (by decide), if_neg (by decide),
      if_neg (by decide), if_neg (by decide), if_neg (by decide), if_neg (by decide),
      if_pos (by decide), if_pos hstarts]
    exact word_append ("Infinity" : Text) rest _

/-- A number of double precision is read where it is written. -/
lemma rereads_float {x : Binary64} (h : x.IsExact) (budget : Nat) :
    Rereads (value budget) (floatText x) (.float x) := by
  cases x with
  | nan => exact rereads_nan budget
  | infinity negative => exact rereads_infinity budget negative
  | finite negative m e =>
    have hform : Binary64.IsForm m e := h
    rcases Nat.eq_zero_or_pos m with rfl | hm
    · -- zero is written with the point behind one digit
      have hleast : e = -1074 := hform.normal.resolve_right (by decide)
      have htext : floatText (.finite negative 0 e) =
          (⟨negative, "0", some "0", none⟩ : Numeral).text := by
        have hzero : ("0.0" : Text) = ("0" : Text) ++ (("." : Text) ++ ("0" : Text)) := by decide
        simp [floatText, Binary64.textWith, Numeral.text, signText, fractionText, exponentText, hzero]
      have hproper : (⟨negative, "0", some "0", none⟩ : Numeral).IsProper :=
        ⟨isWhole_zero, fun ds hds => by cases hds; exact isWhole_zero.toIsDigits,
          fun x hx => by cases hx⟩
      have hvalue : (⟨negative, "0", some "0", none⟩ : Numeral).value =
          .float (.finite negative 0 e) := by
        rw [Numeral.value_eq_float rfl, hleast]
        rfl
      rw [htext, ← hvalue]
      exact rereads_numeral hproper (fun hinteger => by cases hinteger) budget
    · obtain ⟨n, hnegative, hproper, hinteger, htext, hamount, hplace⟩ :=
        isDecimal_positiveText hm e negative
      obtain ⟨hnears, hfar⟩ := Binary64.nears_shortest hm hform
      have hsame : floatText (.finite negative m e) = n.text := by
        rw [← htext, floatText, Binary64.textWith, if_neg hm.ne']
        rfl
      have hvalue : n.value = .float (.finite negative m e) := by
        rw [Numeral.value_eq_float hinteger, hnegative]
        rw [← hamount] at hnears
        rw [Binary64.ofDecimal_of_nears negative hm hform (by omega) hnears]
      rw [hsame, ← hvalue]
      exact rereads_numeral hproper (fun hinteger' => by rw [hinteger] at hinteger'; cases hinteger')
        budget

/-- A string is read where it is written, with halves of surrogate pairs joined. -/
lemma rereads_string (budget : Nat) (t : Text) :
    Rereads (value budget) (quote true t) (.string t.joined) := by
  have htext : quote true t = CodePoint.ofNat 0x22 ::
      (t.flatMap (escapeOne true) ++ [CodePoint.ofNat 0x22]) := by
    rw [quote, List.append_assoc]
    rfl
  rw [htext]
  refine ⟨_, _, rfl, by decide, by decide, fun rest _ => ?_⟩
  rw [List.cons_append, List.append_assoc, List.singleton_append, value.eq_def]
  simp only
  rw [if_pos (by decide), string_quoted]
  rfl

/-! ## Lists -/

/-- No number goes on with a comma or the end of a container. -/
lemma follows_mark {n : Nat} (h : n ∈ [0x2C, 0x5D, 0x7D]) (rest : Text) :
    Follows (CodePoint.ofNat n :: rest) := by
  intro c hc
  cases hc
  have hall : ∀ n ∈ [0x2C, 0x5D, 0x7D], (CodePoint.ofNat n).isDigit = false ∧
      (CodePoint.ofNat n).val ≠ 0x2E ∧ (CodePoint.ofNat n).val ≠ 0x65 ∧
      (CodePoint.ofNat n).val ≠ 0x45 := by decide
  exact hall n h

/-- What stands between items or members, and behind a name. -/
lemma marks : Style.line.comma = [CodePoint.ofNat 0x2C, CodePoint.ofNat 0x20] ∧
    Style.line.colon = [CodePoint.ofNat 0x3A, CodePoint.ofNat 0x20] := by decide

/-- Blanks are skipped. -/
lemma skip_append {gap : Text} (h : ∀ c ∈ gap, isGap c = true) (t : Text) :
    skip (gap ++ t) = skip t :=
  List.dropWhile_append_of_pos h

/-- A value behind blanks is read where it is written. -/
lemma Rereads.skip {item : Reader} {t : Text} {v : Value} (h : Rereads item t v) {gap : Text}
    (hgap : ∀ c ∈ gap, isGap c = true) {rest : Text} (hrest : Follows rest) :
    item (skip (gap ++ (t ++ rest))) = .ok (v, rest) := by
  obtain ⟨c, inside, rfl, hc, -, hread⟩ := h
  rw [skip_append hgap, List.cons_append, skip_cons hc]
  exact hread rest hrest

/-- The rest of a list begins with a mark. -/
lemma follows_renderItems (vs : List Value) (rest : Text) :
    Follows (renderItems .line false vs ++ rest) := by
  cases vs with
  | nil => exact follows_mark (n := 0x5D) (by decide) rest
  | cons v vs =>
    rw [renderItems, if_neg Bool.false_ne_true, marks.1]
    exact follows_mark (n := 0x2C) (by decide) _

/-- Items stand where they are written. -/
lemma isItems_render {item : Reader} {v : Value} {vs : List Value}
    (h : ∀ w ∈ v :: vs, Rereads item (w.render .line) w.joined) (rest : Text) (gap : Text)
    (hgap : ∀ c ∈ gap, isGap c = true) :
    IsItems item (gap ++ (v.render .line ++ (renderItems .line false vs ++ rest)))
      (joinedItems (v :: vs)) rest := by
  induction vs generalizing v gap with
  | nil =>
    have hitem := (h v List.mem_cons_self).skip hgap (follows_renderItems [] rest)
    exact .last hitem (skip_cons (by decide) rest) (by decide)
  | cons w vs ih =>
    have hitem := (h v List.mem_cons_self).skip hgap (follows_renderItems (w :: vs) rest)
    have hcomma : Line.skip (renderItems .line false (w :: vs) ++ rest) = CodePoint.ofNat 0x2C ::
        ([CodePoint.ofNat 0x20] ++ (w.render .line ++ (renderItems .line false vs ++ rest))) := by
      rw [renderItems, if_neg Bool.false_ne_true, marks.1]
      simp only [List.append_assoc]
      exact skip_cons (by decide) _
    exact .cons hitem hcomma (by decide)
      (ih (fun u hu => h u (List.mem_cons_of_mem v hu)) _ (by decide))

/-- The rest of a list takes at least one character for every item. -/
lemma length_renderItems (vs : List Value) : vs.length < (renderItems .line false vs).length := by
  induction vs with
  | nil => decide
  | cons v vs ih =>
    rw [renderItems, if_neg Bool.false_ne_true, marks.1]
    simp only [List.length_append, List.length_cons, List.length_nil]
    omega

/-- Nothing becomes of items but items. -/
lemma length_joinedItems (vs : List Value) : (joinedItems vs).length = vs.length := by
  induction vs with
  | nil => rfl
  | cons v vs ih => rw [joinedItems, List.length_cons, List.length_cons, ih]

/-- A list is read where it is written if its items are. -/
lemma rereads_list {inner : Nat} {vs : List Value}
    (h : ∀ v ∈ vs, Rereads (value inner) (v.render .line) v.joined) :
    Rereads (value (inner + 1)) ((Value.list vs).render .line) (Value.list vs).joined := by
  have htext : (Value.list vs).render .line = CodePoint.ofNat 0x5B :: renderItems .line true vs := by
    rw [Value.render]
    rfl
  rw [htext, Value.joined]
  refine ⟨_, _, rfl, by decide, by decide, fun rest _ => ?_⟩
  rw [List.cons_append, value.eq_def]
  simp only
  rw [if_neg (by decide), if_pos (by decide)]
  cases vs with
  | nil =>
    have hend : Line.skip (renderItems .line true [] ++ rest) = CodePoint.ofNat 0x5D :: rest :=
      skip_cons (by decide) rest
    simp only [hend]
    rw [if_pos (by decide), joinedItems]
  | cons v vs =>
    obtain ⟨c, inside, hfirst, hgap, hend, -⟩ := h v List.mem_cons_self
    have hstart : renderItems .line true (v :: vs) ++ rest =
        v.render .line ++ (renderItems .line false vs ++ rest) := by
      rw [renderItems, if_pos rfl]
      simp only [List.append_assoc, List.nil_append]
    have hskip : Line.skip (renderItems .line true (v :: vs) ++ rest) =
        c :: (inside ++ (renderItems .line false vs ++ rest)) := by
      rw [hstart, hfirst, List.cons_append, skip_cons hgap]
    have hlength := length_renderItems vs
    have hitems := isItems_render h rest [] (List.forall_mem_nil _)
    rw [List.nil_append] at hitems
    have hrounds : (joinedItems (v :: vs)).length ≤
        (v.render .line ++ (renderItems .line false vs ++ rest)).length := by
      rw [length_joinedItems, hfirst]
      simp only [List.length_append, List.length_cons]
      omega
    simp only [hskip]
    rw [if_neg hend, hstart, items_of_isItems hitems hrounds]
    rfl

/-! ## Objects -/

/-- The rest of an object begins with a mark. -/
lemma follows_renderMembers (ms : List (Text × Value)) (rest : Text) :
    Follows (renderMembers .line false ms ++ rest) := by
  cases ms with
  | nil => exact follows_mark (n := 0x7D) (by decide) rest
  | cons m ms =>
    rw [renderMembers, if_neg Bool.false_ne_true, marks.1]
    exact follows_mark (n := 0x2C) (by decide) _

/-- A member stands where it is written. -/
lemma isMember_render {item : Reader} {v : Value} (h : Rereads item (v.render .line) v.joined)
    (name : Text) {gap : Text} (hgap : ∀ c ∈ gap, isGap c = true) {after : Text}
    (hafter : Follows after) :
    IsMember item (gap ++ (quote true name ++ (Style.line.colon ++ (v.render .line ++ after))))
      name.joined v.joined after := by
  have hquote : Line.skip (gap ++ (quote true name ++ (Style.line.colon ++ (v.render .line ++ after)))) =
      CodePoint.ofNat 0x22 :: (name.flatMap (escapeOne true) ++ (CodePoint.ofNat 0x22 ::
        (Style.line.colon ++ (v.render .line ++ after)))) := by
    rw [skip_append hgap, quote]
    simp only [List.append_assoc, List.singleton_append]
    exact skip_cons (by decide) _
  have hcolon : Line.skip (Style.line.colon ++ (v.render .line ++ after)) =
      CodePoint.ofNat 0x3A :: ([CodePoint.ofNat 0x20] ++ (v.render .line ++ after)) := by
    rw [marks.2]
    exact skip_cons (by decide) _
  exact .intro hquote (by decide) (string_quoted name _) hcolon (by decide)
    (h.skip (by decide) hafter)

/-- Members stand where they are written. -/
lemma isMembers_render {item : Reader} {name : Text} {v : Value} {ms : List (Text × Value)}
    (h : ∀ m ∈ (name, v) :: ms, Rereads item (m.2.render .line) m.2.joined) (rest : Text) (gap : Text)
    (hgap : ∀ c ∈ gap, isGap c = true) :
    IsMembers item (gap ++ (quote true name ++ (Style.line.colon ++ (v.render .line ++
      (renderMembers .line false ms ++ rest))))) (joinedMembers ((name, v) :: ms)) rest := by
  induction ms generalizing name v gap with
  | nil =>
    have hmember := isMember_render (h _ List.mem_cons_self) name hgap (follows_renderMembers [] rest)
    exact .last hmember (skip_cons (by decide) rest) (by decide)
  | cons m ms ih =>
    obtain ⟨next, w⟩ := m
    have hmember := isMember_render (h _ List.mem_cons_self) name hgap
      (follows_renderMembers ((next, w) :: ms) rest)
    have hcomma : Line.skip (renderMembers .line false ((next, w) :: ms) ++ rest) =
        CodePoint.ofNat 0x2C :: ([CodePoint.ofNat 0x20] ++ (quote true next ++ (Style.line.colon ++
          (w.render .line ++ (renderMembers .line false ms ++ rest))))) := by
      rw [renderMembers, if_neg Bool.false_ne_true, marks.1]
      simp only [List.append_assoc]
      exact skip_cons (by decide) _
    exact .cons hmember hcomma (by decide)
      (ih (fun m hm => h m (List.mem_cons_of_mem _ hm)) _ (by decide))

/-- The rest of an object takes at least one character for every member. -/
lemma length_renderMembers (ms : List (Text × Value)) :
    ms.length < (renderMembers .line false ms).length := by
  induction ms with
  | nil => decide
  | cons m ms ih =>
    rw [renderMembers, if_neg Bool.false_ne_true, marks.1]
    simp only [List.length_append, List.length_cons, List.length_nil]
    omega

/-- Nothing becomes of members but members. -/
lemma length_joinedMembers (ms : List (Text × Value)) : (joinedMembers ms).length = ms.length := by
  induction ms with
  | nil => rfl
  | cons m ms ih => rw [joinedMembers, List.length_cons, List.length_cons, ih]

/-- An object is read where it is written if its members are. -/
lemma rereads_object {inner : Nat} {ms : List (Text × Value)}
    (h : ∀ m ∈ ms, Rereads (value inner) (m.2.render .line) m.2.joined) :
    Rereads (value (inner + 1)) ((Value.object ms).render .line) (Value.object ms).joined := by
  have htext : (Value.object ms).render .line =
      CodePoint.ofNat 0x7B :: renderMembers .line true ms := by
    rw [Value.render]
    rfl
  rw [htext, Value.joined]
  refine ⟨_, _, rfl, by decide, by decide, fun rest _ => ?_⟩
  rw [List.cons_append, value.eq_def]
  simp only
  rw [if_neg (by decide), if_neg (by decide), if_pos (by decide)]
  cases ms with
  | nil =>
    have hend : Line.skip (renderMembers .line true [] ++ rest) = CodePoint.ofNat 0x7D :: rest :=
      skip_cons (by decide) rest
    simp only [hend]
    rw [if_pos (by decide), joinedMembers]
    rfl
  | cons m ms =>
    obtain ⟨name, v⟩ := m
    have hstart : renderMembers .line true ((name, v) :: ms) ++ rest =
        quote true name ++ (Style.line.colon ++ (v.render .line ++
          (renderMembers .line false ms ++ rest))) := by
      rw [renderMembers, if_pos rfl]
      simp only [List.append_assoc, List.nil_append]
      rfl
    have hskip : Line.skip (renderMembers .line true ((name, v) :: ms) ++ rest) =
        CodePoint.ofNat 0x22 :: (name.flatMap (escapeOne true) ++ (CodePoint.ofNat 0x22 ::
          (Style.line.colon ++ (v.render .line ++ (renderMembers .line false ms ++ rest))))) := by
      rw [hstart, quote]
      simp only [List.append_assoc, List.singleton_append]
      exact skip_cons (by decide) _
    have hlength := length_renderMembers ms
    have hmembers := isMembers_render h rest [] (List.forall_mem_nil _)
    rw [List.nil_append] at hmembers
    have hrounds : (joinedMembers ((name, v) :: ms)).length ≤ (quote true name ++
        (Style.line.colon ++ (v.render .line ++ (renderMembers .line false ms ++ rest)))).length := by
      rw [length_joinedMembers, marks.2]
      simp only [List.length_append, List.length_cons]
      omega
    simp only [hskip]
    rw [if_neg (by decide), hstart, members_of_isMembers hmembers hrounds]
    rfl

end Line

/-! ## Whole values -/

/-- A value is read where it is written on a line if it is nested no deeper than the reader goes. -/
theorem Value.IsExact.rereads {v : Value} (h : v.IsExact) {depth budget : Nat} (hdepth : depth ≤ budget)
    (hfault : v.fault? depth = none) : Line.Rereads (Line.value budget) (v.render .line) v.joined := by
  -- on how the value is built; a container takes one from the depth and from the budget
  induction h generalizing depth budget with
  | null => exact .of_reads (Line.reads_null budget) rfl
  | bool b => exact .of_reads (Line.reads_bool budget b) rfl
  | int n => exact Line.rereads_int hfault
  | float h => exact Line.rereads_float h budget
  | string t => exact Line.rereads_string budget t
  | list h ih =>
    cases depth with
    | zero => cases hfault
    | succ depth =>
      obtain ⟨inner, rfl⟩ := Nat.exists_eq_add_of_lt hdepth
      have hitems := faultItems?_eq_none_iff.mp hfault
      exact Line.rereads_list fun v hv => ih v hv (Nat.le_add_right depth inner) (hitems v hv)
  | object h ih =>
    cases depth with
    | zero => cases hfault
    | succ depth =>
      obtain ⟨inner, rfl⟩ := Nat.exists_eq_add_of_lt hdepth
      have hmembers := faultMembers?_eq_none_iff.mp hfault
      exact Line.rereads_object fun m hm =>
        ih m hm (Nat.le_add_right depth inner) (hmembers m hm)

/-- A value that can be written is read from its line, with halves of surrogate pairs joined. -/
theorem readLine_render {v : Value} (h : v.IsExact) {budget : Nat} (hfault : v.fault? budget = none) :
    readLine budget (v.render .line) = .ok v.joined := by
  obtain ⟨c, inside, htext, hgap, -, hread⟩ := h.rereads le_rfl hfault
  have hall := hread [] (by simp [Line.Follows])
  rw [List.append_nil, htext] at hall
  rw [readLine, htext, Line.skip_cons hgap, hall]
  rfl

end Json

end EditorDocs
