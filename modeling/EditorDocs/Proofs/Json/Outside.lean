import EditorDocs.Proofs.Json.Line
import EditorDocs.Proofs.Text.Input
import Mathlib.Data.List.TakeDrop
import Mathlib.Data.List.TakeWhile

/-!
# Characters outside of strings

The grammar of a line is one of ASCII: other characters stand as characters of strings and nowhere
else. So a line in which the replacement character stands anywhere else, be it between tokens, in a
word or number, behind a backslash or among the digits of an escape, is not read as a value
(`Json.strays_of_readLine`).  This is what becomes of bytes that are not UTF-8 (`Utf8.isMisplaced`).

Each reader takes a stretch of the text in which there is no such character, which is stated as an
equation: there is one in the text if and only if there is one in what the reader has left over.
-/

namespace EditorDocs

namespace Json

/-! ## Where characters stand -/

/-- Where a character of a line stands. -/
inductive Spot where
  /-- Outside of strings. -/
  | outside
  /-- In a string, as a character of it. -/
  | inside
  /-- Behind a backslash. -/
  | escape
  /-- Among the digits of an escaped unit, of which so many are due. -/
  | unit (due : Nat)
  deriving DecidableEq

/-- Where the next character stands. -/
def Spot.next : Spot → CodePoint → Spot
  | .outside, c => if c.val = 0x22 then .inside else .outside
  | .inside, c => if c.val = 0x22 then .outside else if c.val = 0x5C then .escape else .inside
  | .escape, c => if c.val = 0x75 then .unit 4 else .inside
  | .unit due, _ => if due ≤ 1 then .inside else .unit (due - 1)

/-- The replacement character stands somewhere else than as a character of a string. -/
def strays : Spot → Text → Bool
  | _, [] => false
  | s, c :: t => (decide (c = CodePoint.replacement) && decide (s ≠ .inside)) || strays (s.next c) t

/-- The character is not the replacement character, nor does a string begin at it. -/
def IsInert (c : CodePoint) : Prop := c ≠ CodePoint.replacement ∧ c.val ≠ 0x22

/-- A character of ASCII is not the replacement character. -/
lemma ne_replacement {c : CodePoint} (h : c.val < 0x80) : c ≠ CodePoint.replacement := by
  rintro rfl
  exact absurd h (by decide)

/-- A character of ASCII other than a quote is inert. -/
lemma isInert_of_lt {c : CodePoint} (h : c.val < 0x80) (hquote : c.val ≠ 0x22) : IsInert c :=
  ⟨ne_replacement h, hquote⟩

/-- A character that is not the replacement character does not stray. -/
lemma strays_cons {c : CodePoint} (h : c ≠ CodePoint.replacement) (s : Spot) (t : Text) :
    strays s (c :: t) = strays (s.next c) t := by
  rw [strays, decide_eq_false h, Bool.false_and, Bool.false_or]

/-- A character of a string does not stray. -/
lemma strays_inside_cons (c : CodePoint) (t : Text) :
    strays .inside (c :: t) = strays (Spot.inside.next c) t := by
  rw [strays, decide_eq_false (not_not_intro rfl), Bool.and_false, Bool.false_or]

/-- Inert characters outside of strings are passed over. -/
lemma strays_append {a : Text} (ha : ∀ c ∈ a, IsInert c) (t : Text) :
    strays .outside (a ++ t) = strays .outside t := by
  induction a with
  | nil => rfl
  | cons c a ih =>
    obtain ⟨hc, hquote⟩ := ha c List.mem_cons_self
    rw [List.cons_append, strays_cons hc, Spot.next, if_neg hquote]
    exact ih fun d hd => ha d (List.mem_cons_of_mem c hd)

/-- An inert character outside of strings is passed over. -/
lemma strays_cons_of_inert {c : CodePoint} (hc : IsInert c) (t : Text) :
    strays .outside (c :: t) = strays .outside t := by
  have hall : ∀ d ∈ [c], IsInert d := by simpa using hc
  exact strays_append hall t

/-- Characters at the end among which there is no replacement character make no difference. -/
lemma strays_append_right {a : Text} (ha : ∀ c ∈ a, c ≠ CodePoint.replacement) (s : Spot)
    (t : Text) :
    strays s (t ++ a) = strays s t := by
  induction t generalizing s with
  | nil =>
    induction a generalizing s with
    | nil => rfl
    | cons c a ih =>
      rw [List.nil_append, strays_cons (ha c List.mem_cons_self)]
      exact ih (fun d hd => ha d (List.mem_cons_of_mem c hd)) _
  | cons c t ih => rw [List.cons_append, strays, strays, ih]

/-- Blanks at the ends make no difference. -/
lemma strays_strip (t : Text) : strays .outside t.strip = strays .outside t := by
  have hblank : ∀ c : CodePoint, c.isBlank = true → IsInert c := by
    intro c hc
    refine ⟨?_, ?_⟩
    · rintro rfl
      exact absurd hc (by decide)
    · intro hquote
      rw [CodePoint.isBlank, CodePoint.isUnicodeSpace, hquote] at hc
      exact absurd hc (by decide)
  have hstart : strays .outside (t.dropWhile CodePoint.isBlank) = strays .outside t := by
    conv_rhs => rw [← List.takeWhile_append_dropWhile (p := CodePoint.isBlank) (l := t)]
    exact (strays_append (fun c hc => hblank c (List.mem_takeWhile_imp hc)) _).symm
  rw [Text.strip, Text.trimBoth, ← hstart]
  generalize t.dropWhile CodePoint.isBlank = u
  have hend : u = Text.dropEndWhile CodePoint.isBlank u ++
      (u.reverse.takeWhile CodePoint.isBlank).reverse := by
    rw [Text.dropEndWhile, ← List.reverse_append, List.takeWhile_append_dropWhile,
      List.reverse_reverse]
  conv_rhs => rw [hend]
  refine (strays_append_right (fun c hc => ?_) _ _).symm
  exact (hblank c (List.mem_takeWhile_imp (List.mem_reverse.mp hc))).1

namespace Line

/-! ## Strings -/

/-- A letter that is escaped is one of ASCII, and escapes no unit. -/
lemma letterEscape?_eq_some {e x : CodePoint} (h : letterEscape? e = some x) :
    e.val < 0x80 ∧ e.val ≠ 0x75 := by
  unfold letterEscape? at h
  repeat' split at h
  all_goals first
    | omega
    | cases h

/-- A hexadecimal digit is one of ASCII. -/
lemma lt_of_hexValue? {c : CodePoint} {n : Nat} (h : c.hexValue? = some n) : c.val < 0x80 := by
  unfold CodePoint.hexValue? CodePoint.isDigit at h
  simp only [Bool.and_eq_true, decide_eq_true_eq] at h
  repeat' split at h
  all_goals first
    | omega
    | cases h

/-- The digits of a unit are characters of ASCII. -/
lemma lt_of_unit? {a b c d u : CodePoint} (h : unit? a b c d = some u) :
    a.val < 0x80 ∧ b.val < 0x80 ∧ c.val < 0x80 ∧ d.val < 0x80 := by
  unfold unit? at h
  simp only [List.mapM_cons, List.mapM_nil, Option.bind_eq_bind, Option.bind_eq_some_iff] at h
  obtain ⟨-, ⟨na, ha, -, ⟨nb, hb, -, ⟨nc, hc, -, ⟨nd, hd, -⟩, -⟩, -⟩, -⟩, -⟩ := h
  exact ⟨lt_of_hexValue? ha, lt_of_hexValue? hb, lt_of_hexValue? hc, lt_of_hexValue? hd⟩

/-- What stands behind a string begins outside of it. -/
lemma strays_partsAfter {before : List Part} {t rest : Text} {ps : List Part}
    (h : partsAfter before t = .ok (ps, rest)) : strays .inside t = strays .outside rest := by
  fun_induction partsAfter before t with
  | case1 => cases h
  | case2 before c t hquote =>
    cases h
    rw [strays_inside_cons, Spot.next, if_pos hquote]
  | case3 => cases h
  | case4 before c hquote hslash e t x hletter ih =>
    obtain ⟨hlt, hunit⟩ := letterEscape?_eq_some hletter
    rw [strays_inside_cons, Spot.next, if_neg hquote, if_pos hslash,
      strays_cons (ne_replacement hlt),
      Spot.next, if_neg hunit]
    exact ih h
  | case5 before c hquote hslash e hletter hunit a b c' d t u hu ih =>
    obtain ⟨ha, hb, hc, hd⟩ := lt_of_unit? hu
    rw [strays_inside_cons, Spot.next, if_neg hquote, if_pos hslash,
      strays_cons (ne_replacement (by omega)),
      Spot.next, if_pos hunit, strays_cons (ne_replacement ha), strays_cons (ne_replacement hb),
      strays_cons (ne_replacement hc), strays_cons (ne_replacement hd)]
    exact ih h
  | case6 => cases h
  | case7 => cases h
  | case8 => cases h
  | case9 => cases h
  | case10 before c t hquote hslash hcontrol ih =>
    rw [strays_inside_cons, Spot.next, if_neg hquote, if_neg hslash]
    exact ih h

/-- What stands behind a string begins outside of it. -/
lemma strays_string {t s rest : Text} (h : string t = .ok (s, rest)) :
    strays .inside t = strays .outside rest := by
  obtain ⟨⟨ps, rest'⟩, hparts, heq⟩ := Result.of_map h
  cases heq
  exact strays_partsAfter hparts

/-! ## Numbers and words -/

/-- Gaps are passed over. -/
lemma strays_skip (t : Text) : strays .outside (skip t) = strays .outside t := by
  have hgap : ∀ c : CodePoint, isGap c = true → IsInert c := by
    intro c hc
    simp only [isGap, Bool.or_eq_true, decide_eq_true_eq] at hc
    exact isInert_of_lt (by omega) (by omega)
  conv_rhs => rw [← List.takeWhile_append_dropWhile (p := isGap) (l := t)]
  exact (strays_append (fun c hc => hgap c (List.mem_takeWhile_imp hc)) _).symm

/-- Digits are passed over. -/
lemma strays_digits (t : Text) : strays .outside (digits t).2 = strays .outside t := by
  have hdigit : ∀ c : CodePoint, c.isDigit = true → IsInert c := by
    intro c hc
    simp only [CodePoint.isDigit, Bool.and_eq_true, decide_eq_true_eq] at hc
    exact isInert_of_lt (by omega) (by omega)
  rw [digits, List.span_eq_takeWhile_dropWhile]
  conv_rhs => rw [← List.takeWhile_append_dropWhile (p := CodePoint.isDigit) (l := t)]
  exact (strays_append (fun c hc => hdigit c (List.mem_takeWhile_imp hc)) _).symm

/-- What stands behind digits begins where they do. -/
lemma strays_of_digits {t ds rest : Text} (h : digits t = (ds, rest)) :
    strays .outside rest = strays .outside t := by
  rw [← strays_digits t, h]

/-- A fraction is passed over. -/
lemma strays_fraction? (t : Text) : strays .outside (fraction? t).2 = strays .outside t := by
  unfold fraction?
  split
  · rename_i c t
    split
    · rfl
    · rename_i ds rest hds hdigits
      split
      · rename_i hpoint
        rw [strays_cons_of_inert (isInert_of_lt (by omega) (by omega)), strays_of_digits hdigits]
      · rfl
  · rfl

/-- An exponent is passed over. -/
lemma strays_exponent? (t : Text) : strays .outside (exponent? t).2 = strays .outside t := by
  cases t with
  | nil => rfl
  | cons e rest =>
    by_cases he : e.val = 0x65 ∨ e.val = 0x45
    swap
    · simp only [exponent?, if_neg he]
    have hfirst : strays .outside (e :: rest) = strays .outside rest :=
      strays_cons_of_inert (isInert_of_lt (by omega) (by omega)) rest
    simp only [exponent?, if_pos he]
    -- nothing is read if there is no digit, and the digits come behind the sign if there is one
    split
    · rfl
    rename_i ds after hne hds
    change strays .outside after = _
    rw [hfirst, strays_of_digits hds]
    cases rest with
    | nil => rfl
    | cons s rest' =>
      simp only
      split
      · exact (strays_cons_of_inert (isInert_of_lt (by omega) (by omega)) rest').symm
      split
      · exact (strays_cons_of_inert (isInert_of_lt (by omega) (by omega)) rest').symm
      · rfl

/-- A number is passed over. -/
lemma strays_number {negative : Bool} {t rest : Text} {v : Value}
    (h : number negative t = .ok (v, rest)) : strays .outside t = strays .outside rest := by
  unfold number at h
  cases t with
  | nil => cases h
  | cons c t =>
    have hwhole : strays .outside (if c.val = 0x30 then ([c], t) else digits (c :: t)).2 =
        strays .outside (c :: t) := by
      split
      · exact (strays_cons_of_inert (isInert_of_lt (by omega) (by omega)) t).symm
      · exact strays_digits _
    simp only at h
    generalize (if c.val = 0x30 then ([c], t) else digits (c :: t)) = start at h hwhole
    split at h
    · cases h
    · split at h
      · cases h
      · cases h
        rw [strays_exponent?, strays_fraction?, hwhole]

/-- A word is passed over. -/
lemma strays_word {spelling : Text} (hspelling : ∀ c ∈ spelling, c.val < 0x80 ∧ c.val ≠ 0x22)
    {x v : Value} {t rest : Text} (h : word spelling x t = .ok (v, rest)) :
    strays .outside t = strays .outside rest := by
  unfold word at h
  split at h
  · rename_i hstart
    cases h
    obtain ⟨after, rfl⟩ := List.isPrefixOf_iff_prefix.mp hstart
    rw [List.drop_left]
    exact strays_append (fun c hc => isInert_of_lt (hspelling c hc).1 (hspelling c hc).2) after
  · cases h

/-! ## Values -/

/-- What a reader reads begins and ends outside of strings. -/
def Passes (item : Text → Except ReadFault (Value × Text)) : Prop :=
  ∀ t v rest, item t = .ok (v, rest) → strays .outside t = strays .outside rest

variable {item : Text → Except ReadFault (Value × Text)}

/-- Behind a gap, a mark is passed over. -/
lemma strays_of_skip {t rest : Text} {c : CodePoint} (h : skip t = c :: rest) (hc : IsInert c) :
    strays .outside t = strays .outside rest := by
  rw [← strays_skip t, h, strays_cons_of_inert hc]

/-- What is read behind a gap is passed over. -/
lemma Passes.skip (hitem : Passes item) {t rest : Text} {v : Value}
    (h : item (skip t) = .ok (v, rest)) : strays .outside t = strays .outside rest := by
  rw [← strays_skip t, hitem _ _ _ h]

/-- Items are passed over. -/
lemma IsItems.strays (hitem : Passes item) {t rest : Text} {vs : List Value}
    (h : IsItems item t vs rest) : strays .outside t = strays .outside rest := by
  induction h with
  | last hone hend hc =>
    rw [hitem.skip hone, strays_of_skip hend (isInert_of_lt (by omega) (by omega))]
  | cons hone hcomma hc hmore ih =>
    rw [hitem.skip hone, strays_of_skip hcomma (isInert_of_lt (by omega) (by omega)), ih]

/-- A member is passed over. -/
lemma IsMember.strays (hitem : Passes item) {t name after : Text} {v : Value}
    (h : IsMember item t name v after) : strays .outside t = strays .outside after := by
  cases h with
  | intro hquote hq hname hcolon hc hone =>
    rw [← strays_skip t, hquote, strays_cons (ne_replacement (by omega)), Spot.next, if_pos hq,
      strays_string hname, strays_of_skip hcolon (isInert_of_lt (by omega) (by omega)),
      hitem.skip hone]

/-- Members are passed over. -/
lemma IsMembers.strays (hitem : Passes item) {t rest : Text} {ms : List (Text × Value)}
    (h : IsMembers item t ms rest) : strays .outside t = strays .outside rest := by
  induction h with
  | last hmember hend hc =>
    rw [hmember.strays hitem, strays_of_skip hend (isInert_of_lt (by omega) (by omega))]
  | cons hmember hcomma hc hmore ih =>
    rw [hmember.strays hitem, strays_of_skip hcomma (isInert_of_lt (by omega) (by omega)), ih]

/-- A value is passed over if the values that stand in it are. -/
lemma IsValue.strays {budget : Nat}
    (hinner : ∀ inner, budget = inner + 1 → Passes (value inner)) {t rest : Text} {v : Value}
    (h : IsValue budget t v rest) : strays .outside t = strays .outside rest := by
  have hmark : ∀ {c : CodePoint} {n : Nat} (t : Text), c.val = n → n < 0x80 ∧ n ≠ 0x22 →
      Json.strays .outside (c :: t) = Json.strays .outside t := by
    intro c n t hc hn
    exact strays_cons_of_inert (isInert_of_lt (by omega) (by omega)) t
  cases h with
  | string hc h =>
    rw [strays_cons (ne_replacement (by omega)), Spot.next, if_pos hc]
    exact strays_string h
  | emptyList hc hend hd =>
    rw [hmark _ hc (by decide)]
    exact strays_of_skip hend (isInert_of_lt (by omega) (by omega))
  | list hc h =>
    rw [hmark _ hc (by decide)]
    exact h.strays (hinner _ rfl)
  | emptyObject hc hend hd =>
    rw [hmark _ hc (by decide)]
    exact strays_of_skip hend (isInert_of_lt (by omega) (by omega))
  | object hc h =>
    rw [hmark _ hc (by decide)]
    exact h.strays (hinner _ rfl)
  | word hs h =>
    have hplain : ∀ w ∈ words, ∀ c ∈ w.1, c.val < 0x80 ∧ c.val ≠ 0x22 := by
      simp only [words, List.forall_mem_cons]
      decide
    exact strays_word (hplain _ hs) h
  | negativeInfinity hc h =>
    rw [hmark _ hc (by decide)]
    exact strays_word (by decide) h
  | number h => exact strays_number h
  | negative hc h =>
    rw [hmark _ hc (by decide)]
    exact strays_number h

/-- A value is passed over. -/
theorem passes_value (budget : Nat) : Passes (value budget) := by
  induction budget with
  | zero =>
    exact fun t v rest h => (isValue_of_value h).strays fun inner hzero => absurd hzero (by omega)
  | succ budget ih =>
    refine fun t v rest h => (isValue_of_value h).strays fun inner hsucc => ?_
    rw [← Nat.succ.inj hsucc]
    exact ih

end Line

/-- In a line that is read as a value, the replacement character stands in strings alone. -/
theorem strays_of_readLine {budget : Nat} {t : Text} {v : Value} (h : readLine budget t = .ok v) :
    strays .outside t = false := by
  unfold readLine at h
  obtain ⟨⟨v', rest⟩, hv, h⟩ := Result.of_bind h
  simp only at h
  split at h
  · rename_i hempty
    rw [← Line.strays_skip t, Line.passes_value budget _ _ _ hv, ← Line.strays_skip rest,
      List.isEmpty_iff.mp hempty]
    rfl
  · cases h

end Json

namespace Utf8

/-! ## Bytes outside of strings -/

/-- Some of the pieces is a fault and stands somewhere else than as a character of a string. -/
def faultStrays : Json.Spot → List Piece → Bool
  | _, [] => false
  | s, .char c _ :: ps => faultStrays (s.next c) ps
  | s, .fault _ _ :: ps => decide (s ≠ .inside) || faultStrays (s.next CodePoint.replacement) ps

/-- Some bytes of a line are not UTF-8 and stand somewhere else than as a character of a string. -/
def IsMisplaced (line : Bytes) : Prop := faultStrays .outside (pieces line) = true

instance (line : Bytes) : Decidable (IsMisplaced line) :=
  inferInstanceAs (Decidable (_ = true))

/-- The replacement character strays where it stands for bytes that do. -/
lemma strays_of_faultStrays {s : Json.Spot} {ps : List Piece} (h : faultStrays s ps = true) :
    Json.strays s (ps.map Piece.shown) = true := by
  induction ps generalizing s with
  | nil => cases h
  | cons p ps ih =>
    cases p with
    | char c width =>
      rw [List.map_cons, Piece.shown, Json.strays, ih h, Bool.or_true]
    | fault reason bytes =>
      rw [List.map_cons, Piece.shown, Json.strays, decide_eq_true rfl, Bool.true_and]
      rw [faultStrays, Bool.or_eq_true] at h
      rcases h with hspot | hrest
      · rw [hspot, Bool.true_or]
      · rw [ih hrest, Bool.or_true]

/-- A line with such bytes is not UTF-8. -/
lemma IsMisplaced.isUndecodable {line : Bytes} (h : IsMisplaced line) : IsUndecodable line := by
  have hfault : ∀ {s : Json.Spot} {ps : List Piece} {before : Text} {position : Nat},
      faultStrays s ps = true → ∃ m, charactersAfter before position ps = .error m := by
    intro s ps before position hs
    induction ps generalizing s before position with
    | nil => cases hs
    | cons p ps ih =>
      cases p with
      | char c width => exact ih hs
      | fault reason bytes => exact ⟨_, rfl⟩
  exact hfault h

/-- The replacement character strays in such a line, even without the blanks at its ends. -/
lemma IsMisplaced.strays {line : Bytes} (h : IsMisplaced line) :
    Json.strays .outside (decodeLossy line).strip = true := by
  rw [Json.strays_strip, decodeLossy_eq]
  exact strays_of_faultStrays h

/-- A line with such bytes is not read as a value. -/
theorem IsMisplaced.not_read {line : Bytes} (h : IsMisplaced line) (budget : Nat) (v : Json.Value) :
    Json.readLine budget (decodeLossy line).strip ≠ .ok v := by
  intro hread
  have hstrays := h.strays
  rw [Json.strays_of_readLine hread] at hstrays
  cases hstrays

end Utf8

end EditorDocs
