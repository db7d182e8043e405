import EditorDocs.Json.Line
import EditorDocs.Proofs.Json.Line

/-!
# Values that are printed and read

A value without numbers is printed with one member a line, and the reader of lines gives it back from
there (`Json.readLine_pretty`).  As for documents, this is said of one reader and one value, whatever
the level of indentation and whatever follows (`Json.Line.Reads`), and it passes from the parts of a
value to the whole, one level of nesting deeper (`Json.Line.reads_list`, `Json.Line.reads_object`).
-/

namespace EditorDocs

namespace Json

namespace Line

/-! ## Strings -/

/-- The character that a part of a string stands for. -/
def Part.char : Part → CodePoint
  | .plain c => c
  | .unit c => c

/-- The part is never joined with the one behind it. -/
def Part.IsSingle : Part → Prop
  | .plain _ => True
  | .unit c => c.isHighSurrogate = false

/-- Single parts stand for their characters, one after the other. -/
lemma joinAfter_of_single {before : Text} {ps : List Part} (h : ∀ p ∈ ps, p.IsSingle) :
    joinAfter before ps = before.reverse ++ ps.map Part.char := by
  induction before, ps using joinAfter.induct with
  | case1 before => simp [joinAfter]
  | case2 before c ps ih =>
    rw [joinAfter, ih fun p hp => h p (List.mem_cons_of_mem _ hp)]
    simp [Part.char]
  | case3 before u ih =>
    rw [joinAfter, ih nofun]
    simp [Part.char]
  | case4 before u c ps ih =>
    have hrest : ∀ p ∈ ps, p.IsSingle := fun p hp =>
      h p (List.mem_cons_of_mem _ (List.mem_cons_of_mem _ hp))
    rw [joinAfter, ih hrest]
    simp [Part.char]
  | case5 before u v ps hpair ih =>
    have hsingle : u.isHighSurrogate = false := h (.unit u) List.mem_cons_self
    rw [hsingle] at hpair
    cases hpair
  | case6 before u v ps hpair ih =>
    rw [joinAfter, if_neg hpair, ih fun p hp => h p (List.mem_cons_of_mem _ hp)]
    simp [Part.char]

/-- The digits of a unit spell it. -/
lemma unit?_ofHex {n : Nat} (h : n < 0x10000) :
    ∃ a b c d, Text.ofHex 4 n = [a, b, c, d] ∧ unit? a b c d = some (CodePoint.ofNat n) := by
  have hdigit : ∀ d : Fin 16, (CodePoint.ofHexDigit d.val).hexValue? = some d.val := by decide
  have ha := hdigit ⟨n / 0x1000, by omega⟩
  have hb := hdigit ⟨n / 0x100 % 16, by omega⟩
  have hc := hdigit ⟨n / 0x10 % 16, by omega⟩
  have hd := hdigit ⟨n % 16, by omega⟩
  refine ⟨_, _, _, _, Text.ofHex_four h, ?_⟩
  have hvalue : Text.digitsValue 16
      [n / 0x1000, n / 0x100 % 16, n / 0x10 % 16, n % 16] = n := by
    simp only [Text.digitsValue, List.foldl_cons, List.foldl_nil]
    omega
  simp only [unit?, List.mapM_cons, List.mapM_nil, ha, hb, hc, hd, Option.pure_def,
    Option.bind_eq_bind, Option.bind_some, hvalue]

/-- An escape of a character's own is read as the character. -/
lemma letterEscape?_of_shortEscape? {c : CodePoint} {t : Text} (h : shortEscape? c = some t) :
    ∃ e, t = [CodePoint.ofNat 0x5C, e] ∧ letterEscape? e = some c := by
  have hval : ∀ n, c.val = n → CodePoint.ofNat n = c := by
    rintro n rfl
    rw [CodePoint.ofNat, dif_pos c.isLt]
  unfold shortEscape? at h
  repeat' split at h
  all_goals first
    | (rename_i hc; cases h; rw [← hval _ hc]; exact ⟨_, rfl, by decide⟩)
    | cases h

/-- The number of a character gives it back. -/
lemma ofNat_val (c : CodePoint) : CodePoint.ofNat c.val = c := by
  rw [CodePoint.ofNat, dif_pos c.isLt]

/-- An escape by a letter is read as one part. -/
lemma partsAfter_letter {c : CodePoint} {t : Text} (h : shortEscape? c = some t)
    (before : List Part) (rest : Text) :
    partsAfter before (t ++ rest) = partsAfter (.plain c :: before) rest := by
  obtain ⟨e, rfl, hletter⟩ := letterEscape?_of_shortEscape? h
  rw [partsAfter.eq_def]
  simp only [List.cons_append, List.nil_append]
  rw [if_neg (by decide), if_pos (by decide)]
  simp only [hletter]

/-- So is an escape by four digits. -/
lemma partsAfter_unit {n : Nat} (h : n < 0x10000) (before : List Part) (rest : Text) :
    partsAfter before (escapeUnit n ++ rest) =
      partsAfter (.unit (CodePoint.ofNat n) :: before) rest := by
  obtain ⟨a, b, d, e, hhex, hunit⟩ := unit?_ofHex h
  have hletter : letterEscape? (CodePoint.ofNat 0x75) = none := by decide
  have htext : escapeUnit n = [CodePoint.ofNat 0x5C, CodePoint.ofNat 0x75, a, b, d, e] := by
    rw [escapeUnit, hhex]
    rfl
  rw [htext, partsAfter.eq_def]
  simp only [List.cons_append, List.nil_append]
  rw [if_neg (by decide), if_pos (by decide)]
  simp only [hletter, hunit]
  rw [if_pos (by decide)]

/-- And a character that needs no escape. -/
lemma partsAfter_plain {c : CodePoint} (h : shortEscape? c = none) (hcontrol : ¬ c.val < 0x20)
    (before : List Part) (rest : Text) :
    partsAfter before ([c] ++ rest) = partsAfter (.plain c :: before) rest := by
  have hplain : c.val ≠ 0x22 ∧ c.val ≠ 0x5C := by
    constructor <;> (intro hc; simp [shortEscape?, hc] at h)
  rw [partsAfter.eq_def]
  simp only [List.cons_append, List.nil_append]
  rw [if_neg hplain.1, if_neg hplain.2, if_neg hcontrol]

/-- A character is read as one part that stands for it, whatever stands before and behind it. -/
lemma partsAfter_escapeOne (c : CodePoint) :
    ∃ p : Part, p.char = c ∧ p.IsSingle ∧ ∀ before rest,
      partsAfter before (escapeOne false c ++ rest) = partsAfter (p :: before) rest := by
  unfold escapeOne
  cases hshort : shortEscape? c with
  | some t => exact ⟨.plain c, rfl, trivial, partsAfter_letter hshort⟩
  | none =>
    by_cases hcontrol : c.val < 0x20
    · refine ⟨.unit c, rfl, ?_, fun before rest => ?_⟩
      · have hlow : ¬ 0xD800 ≤ c.val := by omega
        simp [Part.IsSingle, CodePoint.isHighSurrogate, hlow]
      · simp only [hcontrol, if_true]
        rw [partsAfter_unit (by omega), ofNat_val]
    · refine ⟨.plain c, rfl, trivial, fun before rest => ?_⟩
      simp only [hcontrol, if_false, Bool.not_false, Bool.true_or, if_true]
      exact partsAfter_plain hshort hcontrol before rest

/-- A string is read behind its opening quote, whatever follows. -/
lemma string_escaped (t rest : Text) :
    string (t.flatMap (escapeOne false) ++ (CodePoint.ofNat 0x22 :: rest)) = .ok (t, rest) := by
  have hparts : ∀ t : Text, ∃ ps : List Part, ps.map Part.char = t ∧ (∀ p ∈ ps, p.IsSingle) ∧
      ∀ before rest, partsAfter before (t.flatMap (escapeOne false) ++ rest) =
        partsAfter (ps.reverse ++ before) rest := by
    intro t
    induction t with
    | nil => exact ⟨[], rfl, nofun, fun before rest => rfl⟩
    | cons c t ih =>
      obtain ⟨p, rfl, hsingle, hread⟩ := partsAfter_escapeOne c
      obtain ⟨ps, rfl, hsingles, hreads⟩ := ih
      refine ⟨p :: ps, rfl, List.forall_mem_cons.mpr ⟨hsingle, hsingles⟩, fun before rest => ?_⟩
      rw [List.flatMap_cons, List.append_assoc, hread, hreads, List.reverse_cons,
        List.append_assoc, List.singleton_append]
  obtain ⟨ps, rfl, hsingles, hreads⟩ := hparts t
  have hend : partsAfter (ps.reverse ++ []) (CodePoint.ofNat 0x22 :: rest) = .ok (ps, rest) := by
    rw [partsAfter.eq_def]
    simp only
    rw [if_pos (by decide), List.append_nil, List.reverse_reverse]
  rw [string, hreads, hend]
  exact congrArg (fun t => Except.ok (t, rest)) (joinAfter_of_single hsingles)

/-! ## Values -/

/-- How the values below one level are read. -/
abbrev Reader := Text → Except ReadFault (Value × Text)

/-- The reader gives the value back from where it was printed, at whatever level and whatever
follows.  What is printed begins neither with a blank nor with the end of a list. -/
def Reads (item : Reader) (v : Value) : Prop :=
  ∀ level, ∃ c t, v.pretty false level = c :: t ∧ isGap c = false ∧ c.val ≠ 0x5D ∧
    ∀ rest, item (c :: (t ++ rest)) = .ok (v, rest)

/-- Nothing is skipped before a character that is no blank. -/
lemma skip_cons {c : CodePoint} (h : isGap c = false) (t : Text) : skip (c :: t) = c :: t := by
  rw [skip, List.dropWhile_cons, h]
  rfl

/-- A line break is skipped with the blanks behind it. -/
lemma skip_lineBreak (level : Nat) (t : Text) : skip (lineBreak level ++ t) = skip t := by
  refine List.dropWhile_append_of_pos fun c hc => ?_
  rcases List.mem_cons.mp hc with rfl | hblank
  · decide
  · rw [List.eq_of_mem_replicate hblank]
    decide

/-- A string is read where it was printed. -/
lemma reads_string (budget : Nat) (t : Text) : Reads (value budget) (.string t) := by
  intro level
  refine ⟨CodePoint.ofNat 0x22, t.flatMap (escapeOne false) ++ [CodePoint.ofNat 0x22], ?_, by decide,
    by decide, fun rest => ?_⟩
  · rw [Value.pretty, quote, List.append_assoc]
    rfl
  · rw [List.append_assoc, List.singleton_append, value.eq_def]
    simp only
    rw [if_pos (by decide), string_escaped]
    rfl

/-- A word is read where it stands. -/
lemma word_append (spelling rest : Text) (v : Value) :
    word spelling v (spelling ++ rest) = .ok (v, rest) := by
  have hstarts : Text.startsWith (spelling ++ rest) spelling = true := by
    simp [Text.startsWith]
  rw [word, hstarts, if_pos rfl, List.drop_left]

/-- A value that is printed as a word is read where it was printed, if the reader looks for that word
there. -/
lemma reads_word {budget : Nat} {v : Value} {c : CodePoint} {t : Text}
    (hprint : ∀ level, v.pretty false level = c :: t) (hgap : isGap c = false)
    (hend : c.val ≠ 0x5D)
    (hvalue : ∀ rest, value budget (c :: rest) = word (c :: t) v (c :: rest)) :
    Reads (value budget) v := by
  intro level
  refine ⟨c, t, hprint level, hgap, hend, fun rest => ?_⟩
  rw [hvalue]
  exact word_append (c :: t) rest v

/-- The null value is read where it was printed. -/
lemma reads_null (budget : Nat) : Reads (value budget) .null := by
  have hprint : ∀ level, Value.null.pretty false level = CodePoint.ofNat 0x6E :: ("ull" : Text) := by
    intro level
    rw [Value.pretty]
    decide
  refine reads_word hprint (by decide) (by decide) fun rest => ?_
  rw [value.eq_def]
  simp only
  rw [if_neg (by decide), if_neg (by decide), if_neg (by decide), if_pos (by decide)]
  rfl

/-- A truth value is read where it was printed. -/
lemma reads_bool (budget : Nat) (b : Bool) : Reads (value budget) (.bool b) := by
  cases b with
  | true =>
    have hprint : ∀ level, (Value.bool true).pretty false level =
        CodePoint.ofNat 0x74 :: ("rue" : Text) := by
      intro level
      rw [Value.pretty]
      decide
    refine reads_word hprint (by decide) (by decide) fun rest => ?_
    rw [value.eq_def]
    simp only
    rw [if_neg (by decide), if_neg (by decide), if_neg (by decide), if_neg (by decide),
      if_pos (by decide)]
    rfl
  | false =>
    have hprint : ∀ level, (Value.bool false).pretty false level =
        CodePoint.ofNat 0x66 :: ("alse" : Text) := by
      intro level
      rw [Value.pretty]
      decide
    refine reads_word hprint (by decide) (by decide) fun rest => ?_
    rw [value.eq_def]
    simp only
    rw [if_neg (by decide), if_neg (by decide), if_neg (by decide), if_neg (by decide),
      if_neg (by decide), if_pos (by decide)]
    rfl

/-! ## Lists -/

/-- The rest of a list after an item takes at least one character for every item. -/
lemma length_prettyItems (level : Nat) (vs : List Value) :
    vs.length < (prettyItems false level false vs).length := by
  induction vs with
  | nil =>
    rw [prettyItems, List.length_append]
    exact Nat.lt_add_left _ Nat.one_pos
  | cons v vs ih =>
    rw [prettyItems, if_neg Bool.false_ne_true]
    simp only [List.length_append, List.length_cons, List.length_nil]
    omega

/-- A value is read where it was printed on a line of its own. -/
lemma item_pretty {item : Reader} {v : Value} (h : Reads item v) (level : Nat) (after : Text) :
    item (skip (lineBreak (level + 1) ++ (v.pretty false (level + 1) ++ after))) = .ok (v, after) := by
  obtain ⟨c, t, hprint, hgap, -, hread⟩ := h (level + 1)
  rw [skip_lineBreak, hprint, List.cons_append, skip_cons hgap]
  exact hread after

/-- Items stand where they were printed. -/
lemma isItems_pretty {item : Reader} {v : Value} {vs : List Value} (h : ∀ w ∈ v :: vs, Reads item w)
    (level : Nat) (rest : Text) :
    IsItems item (lineBreak (level + 1) ++ (v.pretty false (level + 1) ++
      (prettyItems false level false vs ++ rest))) (v :: vs) rest := by
  induction vs generalizing v with
  | nil =>
    have hend : skip (prettyItems false level false [] ++ rest) = CodePoint.ofNat 0x5D :: rest := by
      rw [prettyItems, if_neg Bool.false_ne_true, List.append_assoc, skip_lineBreak]
      exact skip_cons (by decide) rest
    exact .last (item_pretty (h v List.mem_cons_self) level _) hend (by decide)
  | cons w vs ih =>
    have hcomma : skip (prettyItems false level false (w :: vs) ++ rest) =
        CodePoint.ofNat 0x2C :: (lineBreak (level + 1) ++ (w.pretty false (level + 1) ++
          (prettyItems false level false vs ++ rest))) := by
      rw [prettyItems, if_neg Bool.false_ne_true]
      simp only [List.append_assoc]
      exact skip_cons (by decide) _
    exact .cons (item_pretty (h v List.mem_cons_self) level _) hcomma (by decide)
      (ih fun u hu => h u (List.mem_cons_of_mem v hu))

/-- A list is read where it was printed if its items are. -/
lemma reads_list {inner : Nat} {vs : List Value} (h : ∀ v ∈ vs, Reads (value inner) v) :
    Reads (value (inner + 1)) (.list vs) := by
  intro level
  refine ⟨CodePoint.ofNat 0x5B, prettyItems false level true vs, by rw [Value.pretty]; rfl, by decide,
    by decide, fun rest => ?_⟩
  rw [value.eq_def]
  simp only
  rw [if_neg (by decide), if_pos (by decide)]
  cases vs with
  | nil =>
    have hend : skip (prettyItems false level true [] ++ rest) = CodePoint.ofNat 0x5D :: rest := by
      rw [prettyItems, if_pos rfl]
      exact skip_cons (by decide) rest
    simp only [hend]
    rw [if_pos (by decide)]
  | cons v vs =>
    obtain ⟨c, t, hprint, hgap, hend, -⟩ := h v List.mem_cons_self (level + 1)
    have hfirst : prettyItems false level true (v :: vs) ++ rest =
        lineBreak (level + 1) ++ (v.pretty false (level + 1) ++
          (prettyItems false level false vs ++ rest)) := by
      rw [prettyItems, if_pos rfl]
      simp only [List.append_assoc, List.nil_append]
    have hskip : skip (prettyItems false level true (v :: vs) ++ rest) =
        c :: (t ++ (prettyItems false level false vs ++ rest)) := by
      rw [hfirst, skip_lineBreak, hprint, List.cons_append, skip_cons hgap]
    have hrounds : (v :: vs).length ≤ (prettyItems false level true (v :: vs) ++ rest).length := by
      have hlength := length_prettyItems level vs
      rw [hfirst]
      simp only [List.length_append, List.length_cons]
      omega
    have hitems := isItems_pretty h level rest
    rw [← hfirst] at hitems
    simp only [hskip]
    rw [if_neg hend, items_of_isItems hitems hrounds]
    rfl

/-! ## Objects -/

/-- The rest of an object after a member takes at least one character for every member. -/
lemma length_prettyMembers (level : Nat) (ms : List (Text × Value)) :
    ms.length < (prettyMembers false level false ms).length := by
  induction ms with
  | nil =>
    rw [prettyMembers, List.length_append]
    exact Nat.lt_add_left _ Nat.one_pos
  | cons m ms ih =>
    obtain ⟨name, v⟩ := m
    rw [prettyMembers, if_neg Bool.false_ne_true]
    simp only [List.length_append, List.length_cons, List.length_nil]
    omega

/-- A member as it is printed, in front of what follows. -/
def memberText (level : Nat) (name : Text) (v : Value) (rest : Text) : Text :=
  lineBreak (level + 1) ++ (CodePoint.ofNat 0x22 :: (name.flatMap (escapeOne false) ++
    (CodePoint.ofNat 0x22 :: CodePoint.ofNat 0x3A :: CodePoint.ofNat 0x20 ::
      (v.pretty false (level + 1) ++ rest))))

/-- The rest of an object is a member after a comma, if there is one before, and the rest after it. -/
lemma prettyMembers_cons (level : Nat) (isFirst : Bool) (name : Text) (v : Value)
    (ms : List (Text × Value)) (rest : Text) :
    prettyMembers false level isFirst ((name, v) :: ms) ++ rest =
      (if isFirst then [] else [CodePoint.ofNat 0x2C]) ++
        memberText level name v (prettyMembers false level false ms ++ rest) := by
  have hcolon : (": " : Text) = [CodePoint.ofNat 0x3A, CodePoint.ofNat 0x20] := by decide
  rw [prettyMembers, memberText, hcolon, quote]
  simp only [List.append_assoc, List.cons_append, List.nil_append]

/-- A member stands where it was printed. -/
lemma isMember_pretty {item : Reader} {v : Value} (h : Reads item v) (level : Nat) (name after : Text) :
    IsMember item (memberText level name v after) name v after := by
  have hquote : skip (memberText level name v after) = CodePoint.ofNat 0x22 ::
      (name.flatMap (escapeOne false) ++ (CodePoint.ofNat 0x22 :: CodePoint.ofNat 0x3A ::
        CodePoint.ofNat 0x20 :: (v.pretty false (level + 1) ++ after))) := by
    rw [memberText, skip_lineBreak]
    exact skip_cons (by decide) _
  have hitem : item (skip (CodePoint.ofNat 0x20 :: (v.pretty false (level + 1) ++ after))) =
      .ok (v, after) := by
    obtain ⟨c, t, hprint, hgap, -, hread⟩ := h (level + 1)
    have hblank : skip (CodePoint.ofNat 0x20 :: (v.pretty false (level + 1) ++ after)) =
        skip (v.pretty false (level + 1) ++ after) := rfl
    rw [hblank, hprint, List.cons_append, skip_cons hgap]
    exact hread after
  exact .intro hquote (by decide) (string_escaped name _) (skip_cons (by decide) _) (by decide) hitem

/-- Members stand where they were printed. -/
lemma isMembers_pretty {item : Reader} {name : Text} {v : Value} {ms : List (Text × Value)}
    (h : ∀ m ∈ (name, v) :: ms, Reads item m.2) (level : Nat) (rest : Text) :
    IsMembers item (memberText level name v (prettyMembers false level false ms ++ rest))
      ((name, v) :: ms) rest := by
  induction ms generalizing name v with
  | nil =>
    have hend : skip (prettyMembers false level false [] ++ rest) =
        CodePoint.ofNat 0x7D :: rest := by
      rw [prettyMembers, if_neg Bool.false_ne_true, List.append_assoc, skip_lineBreak]
      exact skip_cons (by decide) rest
    exact .last (isMember_pretty (h _ List.mem_cons_self) level name _) hend (by decide)
  | cons m ms ih =>
    obtain ⟨next, w⟩ := m
    have hcomma : skip (prettyMembers false level false ((next, w) :: ms) ++ rest) =
        CodePoint.ofNat 0x2C ::
          memberText level next w (prettyMembers false level false ms ++ rest) := by
      rw [prettyMembers_cons, if_neg Bool.false_ne_true]
      exact skip_cons (by decide) _
    exact .cons (isMember_pretty (h _ List.mem_cons_self) level name _) hcomma (by decide)
      (ih fun m hm => h m (List.mem_cons_of_mem _ hm))

/-- An object is read where it was printed if its names are distinct and its members are read. -/
lemma reads_object {inner : Nat} {ms : List (Text × Value)} (hnames : (Table.keys ms).Nodup)
    (h : ∀ m ∈ ms, Reads (value inner) m.2) : Reads (value (inner + 1)) (.object ms) := by
  intro level
  refine ⟨CodePoint.ofNat 0x7B, prettyMembers false level true ms, by rw [Value.pretty]; rfl,
    by decide, by decide, fun rest => ?_⟩
  rw [value.eq_def]
  simp only
  rw [if_neg (by decide), if_neg (by decide), if_pos (by decide)]
  cases ms with
  | nil =>
    have hend : skip (prettyMembers false level true [] ++ rest) =
        CodePoint.ofNat 0x7D :: rest := by
      rw [prettyMembers, if_pos rfl]
      exact skip_cons (by decide) rest
    simp only [hend]
    rw [if_pos (by decide)]
  | cons m ms =>
    obtain ⟨name, v⟩ := m
    have hfirst : prettyMembers false level true ((name, v) :: ms) ++ rest =
        memberText level name v (prettyMembers false level false ms ++ rest) := by
      rw [prettyMembers_cons, if_pos rfl, List.nil_append]
    obtain ⟨t, hskip⟩ : ∃ t, skip (memberText level name v
        (prettyMembers false level false ms ++ rest)) = CodePoint.ofNat 0x22 :: t := by
      rw [memberText, skip_lineBreak]
      exact ⟨_, skip_cons (by decide) _⟩
    have hrounds : ((name, v) :: ms).length ≤
        (memberText level name v (prettyMembers false level false ms ++ rest)).length := by
      have hlength := length_prettyMembers level ms
      simp only [memberText, List.length_append, List.length_cons]
      omega
    rw [hfirst]
    simp only [hskip]
    rw [if_neg (by decide), members_of_isMembers (isMembers_pretty h level rest) hrounds]
    exact congrArg (fun ms => Except.ok (Value.object ms, rest)) (Table.ofPairs_eq_self hnames)

end Line

/-! ## Whole values -/

/-- The value has no numbers, and the names of its objects are distinct. -/
inductive Value.IsPlain : Value → Prop where
  /-- The null value. -/
  | null : IsPlain .null
  /-- A truth value. -/
  | bool (b : Bool) : IsPlain (.bool b)
  /-- A text. -/
  | string (t : Text) : IsPlain (.string t)
  /-- A list of plain values. -/
  | list {vs : List Value} (h : ∀ v ∈ vs, IsPlain v) : IsPlain (.list vs)
  /-- An object of plain values under distinct names. -/
  | object {ms : List (Text × Value)} (hnames : (Table.keys ms).Nodup)
    (h : ∀ m ∈ ms, IsPlain m.2) : IsPlain (.object ms)

/-- A plain value is read where it was printed if it is nested no deeper than the reader goes. -/
lemma Value.IsPlain.reads {v : Value} (h : v.IsPlain) {depth budget : Nat} (hdepth : depth ≤ budget)
    (hfault : v.fault? depth = none) : Line.Reads (Line.value budget) v := by
  -- on how the value is plain; a container takes one from the depth and from the budget
  induction h generalizing depth budget with
  | null => exact Line.reads_null budget
  | bool b => exact Line.reads_bool budget b
  | string t => exact Line.reads_string budget t
  | list h ih =>
    cases depth with
    | zero => cases hfault
    | succ depth =>
      obtain ⟨inner, rfl⟩ := Nat.exists_eq_add_of_lt hdepth
      have hitems := faultItems?_eq_none_iff.mp hfault
      exact Line.reads_list fun v hv => ih v hv (Nat.le_add_right depth inner) (hitems v hv)
  | object hnames h ih =>
    cases depth with
    | zero => cases hfault
    | succ depth =>
      obtain ⟨inner, rfl⟩ := Nat.exists_eq_add_of_lt hdepth
      have hmembers := faultMembers?_eq_none_iff.mp hfault
      exact Line.reads_object hnames fun m hm =>
        ih m hm (Nat.le_add_right depth inner) (hmembers m hm)

/-- A plain value that is printed is a text from which it is read, if it is nested no deeper than
lines may be. -/
theorem readLine_pretty {v : Value} (h : v.IsPlain) {depth budget : Nat} (hdepth : depth ≤ budget)
    (hfault : v.fault? depth = none) :
    readLine budget (v.pretty false 0 ++ ("\n" : Text)) = .ok v := by
  obtain ⟨c, t, hprint, hgap, -, hread⟩ := h.reads hdepth hfault 0
  rw [readLine, hprint, List.cons_append, Line.skip_cons hgap, hread]
  rfl

end Json

end EditorDocs
