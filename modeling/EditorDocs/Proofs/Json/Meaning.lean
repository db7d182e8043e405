import EditorDocs.Json.Value
import EditorDocs.Proofs.Json.Standard

/-!
# What a document says

The grammar of JSON says which texts are documents, but not what they hold.  Here every rule of it is
given its meaning: a string spells a text, a number has a value, and a list or an object holds what its
items or members mean (`Json.Means`).  What is left open by the grammar, and where readers differ, is a
matter of leeway (`Json.Leeway`): how many digits a number may have and whether its sign counts as
one, whether half of a surrogate pair may be escaped by itself, whether an object may repeat a name,
and how deep containers may be nested.

With all the leeway that there is, the texts with a meaning are the documents of the grammar
(`Json.isDocument_iff_exists_value`).  A part of a text means something as soon as it is derived, and what it
means with some leeway it also means with more (`Json.Means.mono`), so that the parts of a document can
be brought together.
-/

namespace EditorDocs.Json

/-! ## Leeway -/

/-- What a document may hold that not every reader takes. -/
structure Leeway where
  /-- The number of digits that a number may have before its point. -/
  digits : Nat
  /-- A minus sign counts as one of them. -/
  signed : Bool
  /-- Half of a surrogate pair may be escaped by itself. -/
  lone : Bool
  /-- An object may repeat a name. -/
  repeated : Bool

/-- The second leeway leaves as much as the first one. -/
structure Leeway.LE (a b : Leeway) : Prop where
  /-- Numbers may have as many digits. -/
  digits : a.digits ≤ b.digits
  /-- Signs count as digits only if they did. -/
  signed : b.signed = true → a.signed = true
  /-- Halves of pairs may be escaped if they may. -/
  lone : a.lone = true → b.lone = true
  /-- Names may be repeated if they may. -/
  repeated : a.repeated = true → b.repeated = true

/-! ## Strings -/

/-- Four hexadecimal digits spell a number. -/
inductive SpellsUnit : Text → Nat → Prop
  /-- The digits count by their places. -/
  | intro {a b c d : CodePoint} {i j k l : Nat} (ha : a.hexValue? = some i)
    (hb : b.hexValue? = some j) (hc : c.hexValue? = some k) (hd : d.hexValue? = some l) :
    SpellsUnit [a, b, c, d] (((i * 16 + j) * 16 + k) * 16 + l)

/-- The letters behind a backslash, and the characters that they stand for. -/
def escapeLetters : List (CodePoint × CodePoint) :=
  ([(0x22, 0x22), (0x5C, 0x5C), (0x2F, 0x2F), (0x62, 0x08), (0x66, 0x0C), (0x6E, 0x0A), (0x72, 0x0D),
    (0x74, 0x09)] : List (Nat × Nat)).map fun (e, c) => (CodePoint.ofNat e, CodePoint.ofNat c)

/-- The text begins with the escape of the second half of a surrogate pair. -/
def BeginsLow (t : Text) : Prop :=
  ∃ digits n rest, SpellsUnit digits n ∧ 0xDC00 ≤ n ∧ n < 0xE000 ∧ t = ("\\u" : Text) ++ digits ++ rest

/-- What stands between the quotes of a string spells a text.  The escapes of both halves of a
surrogate pair, one behind the other, spell one character. -/
inductive Spells (lone : Bool) : Text → Text → Prop
  /-- Nothing spells nothing. -/
  | nil : Spells lone [] []
  /-- A character stands for itself. -/
  | plain {c : CodePoint} {t s : Text} (h : 0x20 ≤ c.val ∧ c.val ≠ 0x22 ∧ c.val ≠ 0x5C)
    (hrest : Spells lone t s) : Spells lone (c :: t) (c :: s)
  /-- A letter is escaped. -/
  | letter {e c : CodePoint} {t s : Text} (h : (e, c) ∈ escapeLetters) (hrest : Spells lone t s) :
    Spells lone (("\\" : Text) ++ [e] ++ t) (c :: s)
  /-- A character is escaped by its number. -/
  | unit {digits t s : Text} {n : Nat} (h : SpellsUnit digits n) (hn : n < 0xD800 ∨ 0xE000 ≤ n)
    (hrest : Spells lone t s) :
    Spells lone (("\\u" : Text) ++ digits ++ t) (CodePoint.ofNat n :: s)
  /-- A character is escaped by the numbers of a surrogate pair. -/
  | pair {digits digits' t s : Text} {high low : Nat} (h : SpellsUnit digits high)
    (h' : SpellsUnit digits' low) (hhigh : 0xD800 ≤ high ∧ high < 0xDC00)
    (hlow : 0xDC00 ≤ low ∧ low < 0xE000) (hrest : Spells lone t s) :
    Spells lone (("\\u" : Text) ++ digits ++ (("\\u" : Text) ++ digits' ++ t))
      (CodePoint.ofNat (0x10000 + (high - 0xD800) * 0x400 + (low - 0xDC00)) :: s)
  /-- Half of a surrogate pair is escaped by itself. -/
  | half {digits t s : Text} {n : Nat} (hlone : lone = true) (h : SpellsUnit digits n)
    (hn : 0xD800 ≤ n ∧ n < 0xE000) (hpair : ¬ (n < 0xDC00 ∧ BeginsLow t))
    (hrest : Spells lone t s) :
    Spells lone (("\\u" : Text) ++ digits ++ t) (CodePoint.ofNat n :: s)

/-- The string means what it spells between its quotes. -/
inductive StringMeans (lone : Bool) : Text → Text → Prop
  /-- The quotes stand around it. -/
  | intro {body s : Text} (h : Spells lone body s) :
    StringMeans lone (("\"" : Text) ++ body ++ ("\"" : Text)) s

/-! ## Numbers -/

/-- The fraction has these digits, if it is there. -/
inductive FractionMeans : Text → Option Text → Prop
  /-- There is none. -/
  | none : FractionMeans [] none
  /-- Digits stand behind a point. -/
  | some {t : Text} (h : IsDigits t) : FractionMeans (('.' : CodePoint) :: t) (some t)

/-- The exponent has a minus sign or not, and these digits, if it is there. -/
inductive ExponentMeans : Text → Option (Bool × Text) → Prop
  /-- There is none. -/
  | none : ExponentMeans [] none
  /-- Digits stand behind a letter and possibly a sign. -/
  | some {letter : CodePoint} {sign t : Text} (hletter : letter = 'e' ∨ letter = 'E')
    (hsign : sign = [] ∨ sign = "+" ∨ sign = "-") (h : IsDigits t) :
    ExponentMeans (letter :: (sign ++ t)) (some (decide (sign = "-"), t))

/-- The number has the value of its parts, and no more digits before its point than permitted, among
which its sign may count. -/
inductive NumberMeans (digits : Nat) (signed : Bool) : Text → Value → Prop
  /-- The parts of the number stand one after the other. -/
  | intro {sign whole f e : Text} {fraction : Option Text} {exponent : Option (Bool × Text)}
    (hsign : sign = [] ∨ sign = "-") (hwhole : IsWhole whole)
    (hdigits : (if signed then sign.length else 0) + whole.length ≤ digits)
    (hfraction : FractionMeans f fraction) (hexponent : ExponentMeans e exponent) :
    NumberMeans digits signed (sign ++ whole ++ f ++ e)
      (Numeral.value ⟨decide (sign = "-"), whole, fraction, exponent⟩)

/-! ## Values -/

/-- The words that stand for values. -/
def literals : List (Text × Value) :=
  [("null", .null), ("true", .bool true), ("false", .bool false)]

/-- What a text means. -/
inductive Content where
  /-- A value. -/
  | value (v : Value)
  /-- The items of a list, of which there are some. -/
  | items (vs : List Value)
  /-- The members of an object, of which there are some. -/
  | members (ms : List (Text × Value))

/-- What a text is derived as to mean this. -/
def Content.form : Content → Form
  | .value _ => .value
  | .items _ => .items
  | .members _ => .members

/-- The text means this, with containers that hold something nested in it no deeper than given.  Of
members with one name the last one counts. -/
inductive Means (l : Leeway) : Nat → Text → Content → Prop
  /-- A word. -/
  | word {n : Nat} {t : Text} {v : Value} (h : (t, v) ∈ literals) : Means l n t (.value v)
  /-- A number. -/
  | number {n : Nat} {t : Text} {v : Value} (h : NumberMeans l.digits l.signed t v) :
    Means l n t (.value v)
  /-- A string. -/
  | string {n : Nat} {t s : Text} (h : StringMeans l.lone t s) : Means l n t (.value (.string s))
  /-- A list without items. -/
  | emptyList {n : Nat} {gap : Text} (h : IsGap gap) :
    Means l n (("[" : Text) ++ gap ++ ("]" : Text)) (.value (.list []))
  /-- A list with items. -/
  | list {n : Nat} {t : Text} {vs : List Value} (h : Means l n t (.items vs)) :
    Means l (n + 1) (("[" : Text) ++ t) (.value (.list vs))
  /-- The last item of a list. -/
  | lastItem {n : Nat} {before t after : Text} {v : Value} (hbefore : IsGap before)
    (h : Means l n t (.value v)) (hafter : IsGap after) :
    Means l n (before ++ t ++ after ++ ("]" : Text)) (.items [v])
  /-- An item of a list, and those behind it. -/
  | item {n : Nat} {before t after rest : Text} {v : Value} {vs : List Value}
    (hbefore : IsGap before) (h : Means l n t (.value v)) (hafter : IsGap after)
    (hrest : Means l n rest (.items vs)) :
    Means l n (before ++ t ++ after ++ ("," : Text) ++ rest) (.items (v :: vs))
  /-- An object without members. -/
  | emptyObject {n : Nat} {gap : Text} (h : IsGap gap) :
    Means l n (("\x7b" : Text) ++ gap ++ ("\x7d" : Text)) (.value (.object []))
  /-- An object with members. -/
  | object {n : Nat} {t : Text} {ms : List (Text × Value)} (h : Means l n t (.members ms))
    (hnames : l.repeated = true ∨ (Table.keys ms).Nodup) :
    Means l (n + 1) (("\x7b" : Text) ++ t) (.value (.object (Table.ofPairs ms)))
  /-- The last member of an object. -/
  | lastMember {n : Nat} {before name between gap t after s : Text} {v : Value}
    (hbefore : IsGap before) (hname : StringMeans l.lone name s) (hbetween : IsGap between)
    (hgap : IsGap gap) (h : Means l n t (.value v)) (hafter : IsGap after) :
    Means l n (before ++ name ++ between ++ (":" : Text) ++ gap ++ t ++ after ++ ("\x7d" : Text))
      (.members [(s, v)])
  /-- A member of an object, and those behind it. -/
  | member {n : Nat} {before name between gap t after rest s : Text} {v : Value}
    {ms : List (Text × Value)} (hbefore : IsGap before) (hname : StringMeans l.lone name s)
    (hbetween : IsGap between) (hgap : IsGap gap) (h : Means l n t (.value v))
    (hafter : IsGap after) (hrest : Means l n rest (.members ms)) :
    Means l n
      (before ++ name ++ between ++ (":" : Text) ++ gap ++ t ++ after ++ ("," : Text) ++ rest)
      (.members ((s, v) :: ms))

/-- The document has this value: white space may stand around what means it. -/
def Says (l : Leeway) (depth : Nat) (t : Text) (v : Value) : Prop :=
  ∃ before value after, IsGap before ∧ Means l depth value (.value v) ∧ IsGap after ∧
    t = before ++ value ++ after

/-! ## Containers with one thing in them -/

/-- The list with one item, without white space. -/
def bracketed (t : Text) : Text :=
  ("[" : Text) ++ t ++ ("]" : Text)

/-- The object with one member, without white space. -/
def tagged (name t : Text) : Text :=
  ("\x7b\"" : Text) ++ name ++ ("\":" : Text) ++ t ++ ("\x7d" : Text)

/-- Characters that need no escape spell themselves. -/
lemma spells_self (lone : Bool) {t : Text}
    (h : ∀ c ∈ t, 0x20 ≤ c.val ∧ c.val ≠ 0x22 ∧ c.val ≠ 0x5C) : Spells lone t t := by
  induction t with
  | nil => exact .nil
  | cons c t ih =>
    obtain ⟨hc, ht⟩ := List.forall_mem_cons.mp h
    exact .plain hc (ih ht)

section

variable {l : Leeway} {n : Nat} {t : Text} {v : Value}

/-- A list with one item means what this means. -/
lemma Means.bracketed (h : Means l n t (.value v)) :
    Means l (n + 1) (bracketed t) (.value (.list [v])) := by
  have hgap : IsGap [] := List.forall_mem_nil _
  have hlist := Means.list (.lastItem hgap h hgap)
  simpa only [List.nil_append, List.append_nil, Json.bracketed, List.append_assoc] using hlist

/-- An object with one member means what this means. -/
lemma Means.tagged {name : Text} (hname : ∀ c ∈ name, 0x20 ≤ c.val ∧ c.val ≠ 0x22 ∧ c.val ≠ 0x5C)
    (h : Means l n t (.value v)) :
    Means l (n + 1) (tagged name t) (.value (.object [(name, v)])) := by
  have hgap : IsGap [] := List.forall_mem_nil _
  have hquotes : ("\x7b\"" : Text) = ("\x7b" : Text) ++ ("\"" : Text) ∧
      ("\":" : Text) = ("\"" : Text) ++ (":" : Text) := by decide
  have hobject := Means.object
    (.lastMember hgap (.intro (spells_self l.lone hname)) hgap hgap h hgap)
    (.inr (by simp [Table.keys]))
  have hone : Table.ofPairs [(name, v)] = [(name, v)] := rfl
  simpa only [hone, List.nil_append, List.append_nil, Json.tagged, hquotes, List.append_assoc]
    using hobject

/-- So does the document that holds nothing else. -/
lemma Means.document (h : Means l n t (.value v)) : Says l n t v :=
  ⟨[], t, [], List.forall_mem_nil _, h, List.forall_mem_nil _, by simp⟩

end

/-! ## What has a meaning is derived -/

/-- The digits of a unit are hexadecimal. -/
lemma SpellsUnit.isPart {digits : Text} {n : Nat} (h : SpellsUnit digits n) :
    IsPart (("\\u" : Text) ++ digits) := by
  cases h with
  | intro ha hb hc hd =>
    refine IsPart.unit fun x hx => ?_
    simp only [List.mem_cons, List.not_mem_nil, or_false] at hx
    rcases hx with rfl | rfl | rfl | rfl
    · rw [ha]; rfl
    · rw [hb]; rfl
    · rw [hc]; rfl
    · rw [hd]; rfl

/-- What spells a text consists of parts of a string. -/
lemma Spells.hasParts {lone : Bool} {t s : Text} (h : Spells lone t s) : HasParts t := by
  induction h with
  | nil => exact ⟨[], by simp, rfl⟩
  | plain h _ ih => exact (IsPart.plain h).hasParts.append ih
  | @letter e c _ _ h _ ih =>
    have hletter : e ∈ ("\"\\/bfnrt" : Text) := by
      have hall : ∀ p ∈ escapeLetters, p.1 ∈ ("\"\\/bfnrt" : Text) := by decide
      exact hall _ h
    exact (IsPart.letter hletter).hasParts.append ih
  | unit h _ _ ih => exact h.isPart.hasParts.append ih
  | pair h h' _ _ _ ih => exact h.isPart.hasParts.append (h'.isPart.hasParts.append ih)
  | half _ h _ _ _ ih => exact h.isPart.hasParts.append ih

/-- What means a text is a string. -/
lemma StringMeans.isString {lone : Bool} {t s : Text} (h : StringMeans lone t s) : IsString t := by
  cases h with
  | intro h =>
    obtain ⟨parts, hparts, rfl⟩ := h.hasParts
    exact ⟨parts, hparts, rfl⟩

/-- What has the value of a number is one. -/
lemma NumberMeans.isNumber {digits : Nat} {signed : Bool} {t : Text} {v : Value}
    (h : NumberMeans digits signed t v) : IsNumber t := by
  cases h with
  | intro hsign hwhole _ hfraction hexponent =>
    refine .intro hsign hwhole ?_ ?_
    · cases hfraction with
      | none => exact .none
      | some h => exact .some h
    · cases hexponent with
      | none => exact .none
      | some hletter hsign h => exact .some hletter hsign h

/-- What means something is derived. -/
lemma Means.derives {l : Leeway} {n : Nat} {t : Text} {c : Content} (h : Means l n t c) :
    Derives c.form t := by
  induction h with
  | @word _ t v h =>
    have hall : ∀ p ∈ literals, p.1 = "null" ∨ p.1 = "true" ∨ p.1 = "false" := by
      simp [literals]
    exact .word (hall _ h)
  | number h => exact .number h.isNumber
  | string h => exact .string h.isString
  | emptyList h => exact .emptyList h
  | list _ ih => exact .list ih
  | lastItem hbefore _ hafter ih => exact .lastItem hbefore ih hafter
  | item hbefore _ hafter _ ih ihrest => exact .item hbefore ih hafter ihrest
  | emptyObject h => exact .emptyObject h
  | object _ _ ih => exact .object ih
  | lastMember hbefore hname hbetween hgap _ hafter ih =>
    exact .lastMember hbefore hname.isString hbetween hgap ih hafter
  | member hbefore hname hbetween hgap _ hafter _ ih ihrest =>
    exact .member hbefore hname.isString hbetween hgap ih hafter ihrest

/-! ## What is derived has a meaning -/

/-- Four digits spell a number. -/
lemma exists_spellsUnit {a b c d : CodePoint} (h : ∀ x ∈ [a, b, c, d], (x.hexValue?).isSome) :
    ∃ n, SpellsUnit [a, b, c, d] n := by
  obtain ⟨i, ha⟩ := Option.isSome_iff_exists.mp (h a (by simp))
  obtain ⟨j, hb⟩ := Option.isSome_iff_exists.mp (h b (by simp))
  obtain ⟨k, hc⟩ := Option.isSome_iff_exists.mp (h c (by simp))
  obtain ⟨l, hd⟩ := Option.isSome_iff_exists.mp (h d (by simp))
  exact ⟨_, .intro ha hb hc hd⟩

/-- A letter that may be escaped stands for a character. -/
lemma exists_escapeLetter {e : CodePoint} (h : e ∈ ("\"\\/bfnrt" : Text)) :
    ∃ c, (e, c) ∈ escapeLetters := by
  have hall : ∀ e ∈ ("\"\\/bfnrt" : Text), ∃ p ∈ escapeLetters, p.1 = e := by decide
  obtain ⟨⟨_, c⟩, hp, rfl⟩ := hall e h
  exact ⟨c, hp⟩

/-- The escape of the second half of a pair is a part of a string as a whole. -/
lemma exists_parts_of_beginsLow {parts : List Text} (hparts : ∀ part ∈ parts, IsPart part)
    (h : BeginsLow parts.flatten) :
    ∃ digits low rest, SpellsUnit digits low ∧ 0xDC00 ≤ low ∧ low < 0xE000 ∧
      parts = (("\\u" : Text) ++ digits) :: rest := by
  obtain ⟨digits, low, behind, hunit, hlow, hhigh, hflat⟩ := h
  have hu : ("\\u" : Text) = [CodePoint.ofNat 0x5C, CodePoint.ofNat 0x75] := by decide
  cases parts with
  | nil => cases hflat
  | cons part rest =>
    refine ⟨digits, low, rest, hunit, hlow, hhigh, congrArg (· :: rest) ?_⟩
    rw [List.flatten_cons, hu] at hflat
    cases hparts part List.mem_cons_self with
    | plain hplain =>
      have hc := (List.cons.inj hflat).1
      rw [hc] at hplain
      exact absurd rfl hplain.2.2
    | letter hletter =>
      have hc := (List.cons.inj (List.cons.inj hflat).2).1
      rw [hc] at hletter
      exact absurd hletter (by decide)
    | unit hunit' =>
      cases hunit with
      | intro ha hb hc hd =>
        simp only [List.cons_append, List.nil_append, List.cons.injEq, true_and] at hflat
        obtain ⟨rfl, rfl, rfl, rfl, -⟩ := hflat
        rw [hu]
        rfl

/-- Parts of a string spell a text if halves of pairs are permitted. -/
lemma exists_spells {parts : List Text} (hparts : ∀ part ∈ parts, IsPart part) :
    ∃ s, Spells true parts.flatten s := by
  -- a pair takes two parts, so the induction is on their number
  induction hlength : parts.length using Nat.strongRecOn generalizing parts with
  | _ length ih =>
    cases parts with
    | nil => exact ⟨[], .nil⟩
    | cons part rest =>
      obtain ⟨hpart, hrest⟩ := List.forall_mem_cons.mp hparts
      have hshorter : rest.length < length := by
        rw [← hlength, List.length_cons]
        omega
      obtain ⟨s, hs⟩ := ih rest.length hshorter hrest rfl
      rw [List.flatten_cons]
      cases hpart with
      | plain h => exact ⟨_, .plain h hs⟩
      | letter h =>
        obtain ⟨c, hc⟩ := exists_escapeLetter h
        exact ⟨_, .letter hc hs⟩
      | unit h =>
        obtain ⟨n, hn⟩ := exists_spellsUnit h
        by_cases hsurrogate : n < 0xD800 ∨ 0xE000 ≤ n
        · exact ⟨_, .unit hn hsurrogate hs⟩
        by_cases hpair : n < 0xDC00 ∧ BeginsLow rest.flatten
        · obtain ⟨digits, low, rest', hlow, hmin, hmax, rfl⟩ :=
            exists_parts_of_beginsLow hrest hpair.2
          obtain ⟨s', hs'⟩ := ih rest'.length (by rw [List.length_cons] at hshorter; omega)
            (List.forall_mem_cons.mp hrest).2 rfl
          rw [List.flatten_cons]
          exact ⟨_, .pair hn hlow ⟨by omega, hpair.1⟩ ⟨hmin, hmax⟩ hs'⟩
        · exact ⟨_, .half rfl hn (by omega) hpair hs⟩

/-- A string means a text if halves of pairs are permitted. -/
lemma IsString.exists_means {t : Text} (h : IsString t) : ∃ s, StringMeans true t s := by
  obtain ⟨parts, hparts, rfl⟩ := h
  obtain ⟨s, hs⟩ := exists_spells hparts
  exact ⟨s, .intro hs⟩

/-- A fraction has digits, or it is not there. -/
lemma IsFraction.exists_means {t : Text} (h : IsFraction t) : ∃ ds, FractionMeans t ds := by
  cases h with
  | none => exact ⟨_, .none⟩
  | some h => exact ⟨_, .some h⟩

/-- An exponent has a sign and digits, or it is not there. -/
lemma IsExponent.exists_means {t : Text} (h : IsExponent t) : ∃ ds, ExponentMeans t ds := by
  cases h with
  | none => exact ⟨_, .none⟩
  | some hletter hsign h => exact ⟨_, .some hletter hsign h⟩

/-- A number has a value if it may have as many digits as it has. -/
lemma IsNumber.exists_means {t : Text} (h : IsNumber t) :
    ∃ digits v, NumberMeans digits false t v := by
  obtain ⟨hsign, hwhole, hfraction, hexponent⟩ := h
  obtain ⟨fraction, hf⟩ := hfraction.exists_means
  obtain ⟨exponent, he⟩ := hexponent.exists_means
  exact ⟨_, _, .intro hsign hwhole (Nat.zero_add _).le hf he⟩

/-! ## More leeway -/

section

variable {l l' : Leeway}

/-- What spells a text also spells it where more is permitted. -/
lemma Spells.mono {lone lone' : Bool} (hlone : lone = true → lone' = true) {t s : Text}
    (h : Spells lone t s) : Spells lone' t s := by
  induction h with
  | nil => exact .nil
  | plain h _ ih => exact .plain h ih
  | letter h _ ih => exact .letter h ih
  | unit h hn _ ih => exact .unit h hn ih
  | pair h h' hhigh hlow _ ih => exact .pair h h' hhigh hlow ih
  | half h hunit hn hpair _ ih => exact .half (hlone h) hunit hn hpair ih

/-- So does a string. -/
lemma StringMeans.mono {lone lone' : Bool} (hlone : lone = true → lone' = true) {t s : Text}
    (h : StringMeans lone t s) : StringMeans lone' t s := by
  cases h with
  | intro h => exact .intro (h.mono hlone)

/-- A number has its value where more digits are permitted. -/
lemma NumberMeans.mono {m n : Nat} (hmn : m ≤ n) {a b : Bool} (hab : b = true → a = true) {t : Text}
    {v : Value} (h : NumberMeans m a t v) : NumberMeans n b t v := by
  cases h with
  | @intro sign _ _ _ _ _ hsign hwhole hdigits hfraction hexponent =>
    have hlength : (if b then sign.length else 0) ≤ if a then sign.length else 0 := by
      cases b
      · exact Nat.zero_le _
      · rw [hab rfl]
    exact .intro hsign hwhole (by omega) hfraction hexponent

/-- What a text means with some leeway it means with more. -/
theorem Means.mono (hl : l.LE l') {n m : Nat} (hnm : n ≤ m) {t : Text} {c : Content}
    (h : Means l n t c) : Means l' m t c := by
  induction h generalizing m with
  | word h => exact .word h
  | number h => exact .number (h.mono hl.digits hl.signed)
  | string h => exact .string (h.mono hl.lone)
  | emptyList h => exact .emptyList h
  | list _ ih =>
    obtain ⟨m, rfl⟩ := Nat.exists_eq_add_of_le' (Nat.le_of_add_left_le hnm)
    exact .list (ih (by omega))
  | lastItem hbefore _ hafter ih => exact .lastItem hbefore (ih hnm) hafter
  | item hbefore _ hafter _ ih ihrest => exact .item hbefore (ih hnm) hafter (ihrest hnm)
  | emptyObject h => exact .emptyObject h
  | object _ hnames ih =>
    obtain ⟨m, rfl⟩ := Nat.exists_eq_add_of_le' (Nat.le_of_add_left_le hnm)
    exact .object (ih (by omega)) (hnames.imp_left hl.repeated)
  | lastMember hbefore hname hbetween hgap _ hafter ih =>
    exact .lastMember hbefore (hname.mono hl.lone) hbetween hgap (ih hnm) hafter
  | member hbefore hname hbetween hgap _ hafter _ ih ihrest =>
    exact .member hbefore (hname.mono hl.lone) hbetween hgap (ih hnm) hafter (ihrest hnm)

end

/-! ## Documents -/

/-- The text means something of this form, if enough leeway is left. -/
def IsMeant (f : Form) (t : Text) : Prop :=
  ∃ digits n c, c.form = f ∧ Means ⟨digits, false, true, true⟩ n t c

/-- Two texts that mean something mean it with the same leeway. -/
lemma IsMeant.both {f g : Form} {t u : Text} (ht : IsMeant f t) (hu : IsMeant g u) :
    ∃ digits n c d, c.form = f ∧ d.form = g ∧ Means ⟨digits, false, true, true⟩ n t c ∧
      Means ⟨digits, false, true, true⟩ n u d := by
  obtain ⟨digits, n, c, hc, ht⟩ := ht
  obtain ⟨digits', m, d, hd, hu⟩ := hu
  have hleft : Leeway.LE ⟨digits, false, true, true⟩ ⟨max digits digits', false, true, true⟩ :=
    ⟨le_max_left _ _, id, id, id⟩
  have hright : Leeway.LE ⟨digits', false, true, true⟩ ⟨max digits digits', false, true, true⟩ :=
    ⟨le_max_right _ _, id, id, id⟩
  exact ⟨_, max n m, c, d, hc, hd, ht.mono hleft (le_max_left _ _),
    hu.mono hright (le_max_right _ _)⟩

/-- What is derived means something. -/
lemma Derives.isMeant {f : Form} {t : Text} (h : Derives f t) : IsMeant f t := by
  induction h with
  | word h =>
    rcases h with rfl | rfl | rfl
    · exact ⟨0, 0, .value .null, rfl, .word (by simp [literals])⟩
    · exact ⟨0, 0, .value (.bool true), rfl, .word (by simp [literals])⟩
    · exact ⟨0, 0, .value (.bool false), rfl, .word (by simp [literals])⟩
  | number h =>
    obtain ⟨digits, v, hv⟩ := h.exists_means
    exact ⟨digits, 0, .value v, rfl, .number hv⟩
  | string h =>
    obtain ⟨s, hs⟩ := h.exists_means
    exact ⟨0, 0, .value (.string s), rfl, .string hs⟩
  | emptyList h => exact ⟨0, 0, .value (.list []), rfl, .emptyList h⟩
  | list _ ih =>
    obtain ⟨digits, n, _ | vs | _, hform, hmeans⟩ := ih <;> cases hform
    exact ⟨digits, n + 1, .value (.list vs), rfl, .list hmeans⟩
  | lastItem hbefore _ hafter ih =>
    obtain ⟨digits, n, v | _ | _, hform, hmeans⟩ := ih <;> cases hform
    exact ⟨digits, n, .items [v], rfl, .lastItem hbefore hmeans hafter⟩
  | item hbefore _ hafter _ ih ihrest =>
    obtain ⟨digits, n, v | _ | _, _ | vs | _, hform, hform', hmeans, hrest⟩ := ih.both ihrest <;>
      cases hform <;> cases hform'
    exact ⟨digits, n, .items (v :: vs), rfl, .item hbefore hmeans hafter hrest⟩
  | emptyObject h => exact ⟨0, 0, .value (.object []), rfl, .emptyObject h⟩
  | object _ ih =>
    obtain ⟨digits, n, _ | _ | ms, hform, hmeans⟩ := ih <;> cases hform
    exact ⟨digits, n + 1, .value (.object (Table.ofPairs ms)), rfl, .object hmeans (Or.inl rfl)⟩
  | lastMember hbefore hname hbetween hgap _ hafter ih =>
    obtain ⟨s, hs⟩ := hname.exists_means
    obtain ⟨digits, n, v | _ | _, hform, hmeans⟩ := ih <;> cases hform
    exact ⟨digits, n, .members [(s, v)], rfl, .lastMember hbefore hs hbetween hgap hmeans hafter⟩
  | member hbefore hname hbetween hgap _ hafter _ ih ihrest =>
    obtain ⟨s, hs⟩ := hname.exists_means
    obtain ⟨digits, n, v | _ | _, _ | _ | ms, hform, hform', hmeans, hrest⟩ := ih.both ihrest <;>
      cases hform <;> cases hform'
    exact ⟨digits, n, .members ((s, v) :: ms), rfl,
      .member hbefore hs hbetween hgap hmeans hafter hrest⟩

/-- The documents are the texts that have a value, if all is permitted that can be. -/
theorem isDocument_iff_exists_value (t : Text) :
    IsDocument t ↔ ∃ digits depth v, Says ⟨digits, false, true, true⟩ depth t v := by
  constructor
  · rintro ⟨before, value, after, hbefore, hvalue, hafter, rfl⟩
    obtain ⟨digits, depth, v | _ | _, hform, hmeans⟩ := hvalue.isMeant <;> cases hform
    exact ⟨digits, depth, v, before, value, after, hbefore, hmeans, hafter, rfl⟩
  · rintro ⟨digits, depth, v, before, value, after, hbefore, hmeans, hafter, rfl⟩
    exact ⟨before, value, after, hbefore, hmeans.derives, hafter, rfl⟩

end EditorDocs.Json
