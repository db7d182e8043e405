import EditorDocs.Proofs.Json.Pretty

/-!
# Halves of surrogate pairs

On a line both halves of a surrogate pair are escaped one by one, and a character past `0xFFFF` is
escaped as a pair.  The reader joins two halves that stand one behind the other, wherever they come from.
So a text comes back with such halves joined (`Text.joined`), and this is all that can happen to it
(`Json.Line.string_quoted`).
-/

namespace EditorDocs

/-! ## Joining -/

/-- The text with one character for two code points one behind the other that are the halves of a
surrogate pair. -/
def Text.joined : Text → Text
  | [] => []
  | [c] => [c]
  | a :: b :: t =>
    if a.isHighSurrogate && b.isLowSurrogate then CodePoint.ofSurrogates a b :: joined t
    else a :: joined (b :: t)

/-- Two halves stand for a character past `0xFFFF`. -/
lemma CodePoint.le_ofSurrogates {u v : CodePoint} (hu : u.isHighSurrogate = true)
    (hv : v.isLowSurrogate = true) : 0x10000 ≤ (CodePoint.ofSurrogates u v).val := by
  simp only [isHighSurrogate, isLowSurrogate, Bool.and_eq_true, decide_eq_true_eq] at hu hv
  unfold ofSurrogates
  generalize hn : 0x10000 + (u.val - 0xD800) * 0x400 + (v.val - 0xDC00) = n
  rw [ofNat, dif_pos (by omega)]
  show 0x10000 ≤ n
  omega

namespace Json

mutual

/-- The value with all its texts joined.  Of members of an object whose names have become equal the last
one counts. -/
def Value.joined : Value → Value
  | .null => .null
  | .bool b => .bool b
  | .int n => .int n
  | .float x => .float x
  | .string t => .string t.joined
  | .list items => .list (joinedItems items)
  | .object members => .object (Table.ofPairs (joinedMembers members))
  | .unordered items => .unordered (joinedItems items)

/-- The items with all their texts joined. -/
def joinedItems : List Value → List Value
  | [] => []
  | v :: rest => v.joined :: joinedItems rest

/-- The members with all their texts joined. -/
def joinedMembers : List (Text × Value) → List (Text × Value)
  | [] => []
  | (name, v) :: rest => (name.joined, v.joined) :: joinedMembers rest

end

namespace Line

/-! ## Parts of a string -/

/-- The parts as which a character is read from where it is escaped. -/
inductive StandsAs : CodePoint → List Part → Prop
  /-- A character below the halves of pairs stands for itself. -/
  | plain {c : CodePoint} (h : c.val < 0xD800) : StandsAs c [.plain c]
  /-- A unit is escaped. -/
  | unit {c : CodePoint} : StandsAs c [.unit c]
  /-- A pair is escaped. -/
  | pair {u v : CodePoint} (hu : u.isHighSurrogate = true) (hv : v.isLowSurrogate = true) :
    StandsAs (CodePoint.ofSurrogates u v) [.unit u, .unit v]

/-- A character past `0xFFFF` is made of the halves as which it is escaped. -/
lemma exists_surrogates {c : CodePoint} (h : 0x10000 ≤ c.val) :
    ∃ u v : CodePoint, u = CodePoint.ofNat (0xD800 + (c.val - 0x10000) / 0x400) ∧
      v = CodePoint.ofNat (0xDC00 + (c.val - 0x10000) % 0x400) ∧
      u.isHighSurrogate = true ∧ v.isLowSurrogate = true ∧ CodePoint.ofSurrogates u v = c := by
  have hval : ∀ {n}, n < 0x110000 → (CodePoint.ofNat n).val = n := fun hn => by
    rw [CodePoint.ofNat, dif_pos hn]
  have hlt := c.isLt
  have hu := hval (n := 0xD800 + (c.val - 0x10000) / 0x400) (by omega)
  have hv := hval (n := 0xDC00 + (c.val - 0x10000) % 0x400) (by omega)
  refine ⟨_, _, rfl, rfl, ?_, ?_, ?_⟩
  · simp only [CodePoint.isHighSurrogate, hu, Bool.and_eq_true, decide_eq_true_eq]
    omega
  · simp only [CodePoint.isLowSurrogate, hv, Bool.and_eq_true, decide_eq_true_eq]
    omega
  · rw [CodePoint.ofSurrogates, hu, hv]
    have hsame : 0x10000 + (0xD800 + (c.val - 0x10000) / 0x400 - 0xD800) * 0x400 +
        (0xDC00 + (c.val - 0x10000) % 0x400 - 0xDC00) = c.val := by omega
    rw [hsame, ofNat_val]

/-- A character is read as parts that stand for it, whatever stands before and behind it. -/
lemma exists_standsAs (c : CodePoint) :
    ∃ ps, StandsAs c ps ∧ ∀ before rest,
      partsAfter before (escapeOne true c ++ rest) = partsAfter (ps.reverse ++ before) rest := by
  unfold escapeOne
  cases hshort : shortEscape? c with
  | some t =>
    have hsmall : c.val < 0xD800 := by
      by_contra hlarge
      have hnone : shortEscape? c = none := by
        unfold shortEscape?
        split_ifs <;> first | omega | rfl
      rw [hnone] at hshort
      cases hshort
    exact ⟨[.plain c], .plain hsmall, partsAfter_letter hshort⟩
  | none =>
    simp only [Bool.not_true, Bool.false_or, decide_eq_true_eq]
    by_cases hcontrol : c.val < 0x20
    · refine ⟨[.unit c], .unit, fun before rest => ?_⟩
      rw [if_pos hcontrol, partsAfter_unit (by omega), ofNat_val]
      rfl
    rw [if_neg hcontrol]
    by_cases hprintable : c.val ≤ 0x7E
    · refine ⟨[.plain c], .plain (by omega), fun before rest => ?_⟩
      rw [if_pos hprintable, partsAfter_plain hshort hcontrol]
      rfl
    rw [if_neg hprintable]
    by_cases hunit : c.val < 0x10000
    · refine ⟨[.unit c], .unit, fun before rest => ?_⟩
      rw [if_pos hunit, partsAfter_unit hunit, ofNat_val]
      rfl
    · rw [if_neg hunit]
      obtain ⟨u, v, hu, hv, hhigh, hlow, hsame⟩ := exists_surrogates (c := c) (by omega)
      refine ⟨[.unit u, .unit v], hsame ▸ .pair hhigh hlow, fun before rest => ?_⟩
      have hlt := c.isLt
      rw [List.append_assoc, partsAfter_unit (by omega), partsAfter_unit (by omega), ← hu, ← hv]
      rfl

/-- A unit stands for itself if it is not joined with the one behind it. -/
lemma joinAfter_unit {u : CodePoint} {ps : List Part}
    (h : ∀ v rest, ps = .unit v :: rest → (u.isHighSurrogate && v.isLowSurrogate) = false)
    (before : Text) : joinAfter before (.unit u :: ps) = joinAfter (u :: before) ps := by
  cases ps with
  | nil => rfl
  | cons p ps =>
    cases p with
    | plain c => rw [joinAfter, joinAfter]
    | unit v => rw [joinAfter, if_neg (by simp [h v ps rfl])]

/-- The first half of a pair is escaped as it is. -/
lemma StandsAs.of_high {c : CodePoint} {ps : List Part} (h : StandsAs c ps)
    (hc : c.isHighSurrogate = true) : ps = [.unit c] := by
  simp only [CodePoint.isHighSurrogate, Bool.and_eq_true, decide_eq_true_eq] at hc
  cases h with
  | plain h => omega
  | unit => rfl
  | pair hu hv =>
    have hlarge := CodePoint.le_ofSurrogates hu hv
    omega

/-- And so is the second half. -/
lemma StandsAs.of_low {c : CodePoint} {ps : List Part} (h : StandsAs c ps)
    (hc : c.isLowSurrogate = true) : ps = [.unit c] := by
  simp only [CodePoint.isLowSurrogate, Bool.and_eq_true, decide_eq_true_eq] at hc
  cases h with
  | plain h => omega
  | unit => rfl
  | pair hu hv =>
    have hlarge := CodePoint.le_ofSurrogates hu hv
    omega

/-- What stands for a character begins with the second half of a pair only if the character is one. -/
lemma StandsAs.isLowSurrogate {c v : CodePoint} {ps rest after : List Part} (h : StandsAs c ps)
    (hfirst : ps ++ after = .unit v :: rest) (hlow : v.isLowSurrogate = true) :
    c.isLowSurrogate = true := by
  cases h with
  | plain _ => cases hfirst
  | unit =>
    cases hfirst
    exact hlow
  | pair hu hv =>
    cases hfirst
    simp only [CodePoint.isHighSurrogate, CodePoint.isLowSurrogate, Bool.and_eq_true,
      decide_eq_true_eq] at hu hlow
    omega

/-- What stands for a character becomes the character again, unless this is the first half of a pair
that is joined with what is behind it. -/
lemma StandsAs.joinAfter {c : CodePoint} {ps after : List Part} (h : StandsAs c ps)
    (hafter : ∀ v rest, after = .unit v :: rest → (c.isHighSurrogate && v.isLowSurrogate) = false)
    (before : Text) : joinAfter before (ps ++ after) = Line.joinAfter (c :: before) after := by
  cases h with
  | plain _ => exact Line.joinAfter.eq_2 before c after
  | unit => exact joinAfter_unit hafter before
  | pair hu hv =>
    show Line.joinAfter before (.unit _ :: .unit _ :: after) = _
    rw [Line.joinAfter, if_pos (by rw [hu, hv]; rfl)]

/-- What stands for characters becomes these characters again, with halves of pairs joined. -/
lemma joinAfter_flatten {t : Text} {pss : List (List Part)} (h : List.Forall₂ StandsAs t pss)
    (before : Text) : joinAfter before pss.flatten = before.reverse ++ t.joined := by
  induction t using Text.joined.induct generalizing pss before with
  | case1 =>
    cases h
    simp [joinAfter, Text.joined]
  | case2 c =>
    cases h with
    | cons hfirst h =>
      cases h
      rw [List.flatten_cons, hfirst.joinAfter fun v rest h => by cases h]
      simp [joinAfter, Text.joined]
  | case3 a b t hpair ih =>
    obtain ⟨ha, hb⟩ : a.isHighSurrogate = true ∧ b.isLowSurrogate = true := by simpa using hpair
    cases h with
    | cons hfirst h =>
      cases h with
      | cons hsecond hrest =>
        rw [List.flatten_cons, List.flatten_cons, hfirst.of_high ha, hsecond.of_low hb]
        rw [List.singleton_append, List.singleton_append, joinAfter, if_pos hpair, ih hrest,
          Text.joined, if_pos hpair, List.reverse_cons, List.append_assoc, List.singleton_append]
  | case4 a b t hpair ih =>
    cases h with
    | @cons _ pa _ pss hfirst h =>
      rw [List.flatten_cons, hfirst.joinAfter, ih h, Text.joined, if_neg hpair, List.reverse_cons,
        List.append_assoc, List.singleton_append]
      -- what is behind begins with the second half of a pair only if the next character is one
      intro v rest hbehind
      cases h with
      | cons hsecond _ =>
        rw [List.flatten_cons] at hbehind
        by_contra hjoined
        obtain ⟨ha, hv⟩ : a.isHighSurrogate = true ∧ v.isLowSurrogate = true := by
          simpa using hjoined
        exact hpair (by rw [ha, hsecond.isLowSurrogate hbehind hv]; rfl)

/-- A string is read behind its opening quote with halves of pairs joined, whatever follows. -/
theorem string_quoted (t rest : Text) :
    string (t.flatMap (escapeOne true) ++ (CodePoint.ofNat 0x22 :: rest)) = .ok (t.joined, rest) := by
  have hparts : ∀ t : Text, ∃ pss, List.Forall₂ StandsAs t pss ∧ ∀ before rest,
      partsAfter before (t.flatMap (escapeOne true) ++ rest) =
        partsAfter (pss.flatten.reverse ++ before) rest := by
    intro t
    induction t with
    | nil => exact ⟨[], .nil, fun before rest => rfl⟩
    | cons c t ih =>
      obtain ⟨ps, hstands, hread⟩ := exists_standsAs c
      obtain ⟨pss, hall, hreads⟩ := ih
      refine ⟨ps :: pss, .cons hstands hall, fun before rest => ?_⟩
      rw [List.flatMap_cons, List.append_assoc, hread, hreads, List.flatten_cons, List.reverse_append,
        List.append_assoc]
  obtain ⟨pss, hall, hreads⟩ := hparts t
  have hend : partsAfter (pss.flatten.reverse ++ []) (CodePoint.ofNat 0x22 :: rest) =
      .ok (pss.flatten, rest) := by
    rw [partsAfter.eq_def]
    simp only
    rw [if_pos (by decide), List.append_nil, List.reverse_reverse]
  rw [string, hreads, hend]
  exact congrArg (fun t => Except.ok (t, rest)) (joinAfter_flatten hall [])

end Line

end Json

end EditorDocs
