import EditorDocs.Proofs.Json.Outside
import Mathlib.Tactic.Lemma

/-!
# The grammar of JSON

`Json.IsDocument` is the strict grammar of JSON texts: no number but digits with a sign, a fraction
and an exponent, no word but `null`, `true` and `false`.  A reader may be more lenient than this; the
grammar is stated by itself, as a derivation of a text from its parts (`Json.Derives`).

The words for values that are no numbers begin with `N` or `I`, and neither of these stands outside of
the strings of a document.  That is seen by going through a derivation: every part of it leaves the
reader outside of strings and shows him no such letter there (`Json.IsQuiet`), and so does the whole
(`Json.IsDocument.isQuiet`).
-/

namespace EditorDocs.Json

/-! ## Numbers -/

/-- One digit or more. -/
structure IsDigits (t : Text) : Prop where
  /-- There is one. -/
  nonempty : t ≠ []
  /-- They are all decimal digits. -/
  digits : ∀ c ∈ t, c.isDigit = true

/-- The digits of a whole number, of which the first is not zero unless it is the only one. -/
structure IsWhole (t : Text) : Prop extends IsDigits t where
  /-- There is no zero in front. -/
  plain : t.head? = some ('0' : CodePoint) → t = "0"

/-- No fraction, or a point and digits. -/
inductive IsFraction : Text → Prop
  /-- There is none. -/
  | none : IsFraction []
  /-- Digits stand behind a point. -/
  | some {t : Text} (h : IsDigits t) : IsFraction (('.' : CodePoint) :: t)

/-- No exponent, or a letter, a sign if there is one, and digits. -/
inductive IsExponent : Text → Prop
  /-- There is none. -/
  | none : IsExponent []
  /-- Digits stand behind a letter and possibly a sign. -/
  | some {letter : CodePoint} {sign t : Text} (hletter : letter = 'e' ∨ letter = 'E')
    (hsign : sign = [] ∨ sign = "+" ∨ sign = "-") (h : IsDigits t) :
    IsExponent (letter :: (sign ++ t))

/-- A number: possibly a minus sign, a whole number, a fraction and an exponent. -/
inductive IsNumber : Text → Prop
  /-- The parts of the number stand one after the other. -/
  | intro {sign whole fraction exponent : Text} (hsign : sign = [] ∨ sign = "-")
    (hwhole : IsWhole whole) (hfraction : IsFraction fraction) (hexponent : IsExponent exponent) :
    IsNumber (sign ++ whole ++ fraction ++ exponent)

/-! ## Strings -/

/-- A character of a string, or its escape. -/
inductive IsPart : Text → Prop
  /-- The character stands for itself: it is no control, no quote and no backslash. -/
  | plain {c : CodePoint} (h : 0x20 ≤ c.val ∧ c.val ≠ 0x22 ∧ c.val ≠ 0x5C) : IsPart [c]
  /-- The escape is a letter. -/
  | letter {c : CodePoint} (h : c ∈ ("\"\\/bfnrt" : Text)) : IsPart [CodePoint.ofNat 0x5C, c]
  /-- The escape is a unit of four hexadecimal digits. -/
  | unit {a b c d : CodePoint} (h : ∀ x ∈ [a, b, c, d], (x.hexValue?).isSome) :
    IsPart [CodePoint.ofNat 0x5C, CodePoint.ofNat 0x75, a, b, c, d]

/-- A string: parts between quotes. -/
def IsString (t : Text) : Prop :=
  ∃ parts : List Text, (∀ part ∈ parts, IsPart part) ∧
    t = (("\"" : Text) ++ parts.flatten) ++ ("\"" : Text)

/-! ## Values -/

/-- White space between the parts of a document. -/
def IsGap (t : Text) : Prop :=
  ∀ c ∈ t, c.val = 0x20 ∨ c.val = 0x09 ∨ c.val = 0x0A ∨ c.val = 0x0D

/-- What a text is derived as. -/
inductive Form where
  /-- A value. -/
  | value
  /-- The items of a list, and its closing bracket. -/
  | items
  /-- The members of an object, and its closing brace. -/
  | members

/-- The text is derived from its parts. -/
inductive Derives : Form → Text → Prop
  /-- A word. -/
  | word {t : Text} (h : t = "null" ∨ t = "true" ∨ t = "false") : Derives .value t
  /-- A number. -/
  | number {t : Text} (h : IsNumber t) : Derives .value t
  /-- A string. -/
  | string {t : Text} (h : IsString t) : Derives .value t
  /-- A list without items. -/
  | emptyList {gap : Text} (h : IsGap gap) : Derives .value (("[" : Text) ++ gap ++ ("]" : Text))
  /-- A list with items. -/
  | list {t : Text} (h : Derives .items t) : Derives .value (("[" : Text) ++ t)
  /-- The last item of a list. -/
  | lastItem {before t after : Text} (hbefore : IsGap before) (h : Derives .value t)
    (hafter : IsGap after) : Derives .items (before ++ t ++ after ++ ("]" : Text))
  /-- An item of a list, and those behind it. -/
  | item {before t after rest : Text} (hbefore : IsGap before) (h : Derives .value t)
    (hafter : IsGap after) (hrest : Derives .items rest) :
    Derives .items (before ++ t ++ after ++ ("," : Text) ++ rest)
  /-- An object without members. -/
  | emptyObject {gap : Text} (h : IsGap gap) :
    Derives .value (("\x7b" : Text) ++ gap ++ ("\x7d" : Text))
  /-- An object with members. -/
  | object {t : Text} (h : Derives .members t) : Derives .value (("\x7b" : Text) ++ t)
  /-- The last member of an object. -/
  | lastMember {before name between gap t after : Text} (hbefore : IsGap before)
    (hname : IsString name) (hbetween : IsGap between) (hgap : IsGap gap) (h : Derives .value t)
    (hafter : IsGap after) :
    Derives .members
      (before ++ name ++ between ++ (":" : Text) ++ gap ++ t ++ after ++ ("\x7d" : Text))
  /-- A member of an object, and those behind it. -/
  | member {before name between gap t after rest : Text} (hbefore : IsGap before)
    (hname : IsString name) (hbetween : IsGap between) (hgap : IsGap gap) (h : Derives .value t)
    (hafter : IsGap after) (hrest : Derives .members rest) :
    Derives .members
      (before ++ name ++ between ++ (":" : Text) ++ gap ++ t ++ after ++ ("," : Text) ++ rest)

/-- The text is a document: a value, possibly with white space around it. -/
def IsDocument (t : Text) : Prop :=
  ∃ before value after, IsGap before ∧ Derives .value value ∧ IsGap after ∧
    t = before ++ value ++ after

/-! ## What stands outside of strings -/

/-- The first letter of the words for values that are no numbers. -/
def isCapital (c : CodePoint) : Bool := c.val = 0x4E || c.val = 0x49

/-- Where the reader is behind a text. -/
def Spot.after (s : Spot) (t : Text) : Spot := t.foldl Spot.next s

/-- Such a letter stands outside of strings. -/
def shouts : Spot → Text → Bool
  | _, [] => false
  | s, c :: t => (decide (s = .outside) && isCapital c) || shouts (s.next c) t

/-- What stands in the first of two texts or behind it stands in both together. -/
lemma shouts_append (s : Spot) (a b : Text) :
    shouts s (a ++ b) = (shouts s a || shouts (s.after a) b) := by
  induction a generalizing s with
  | nil => rfl
  | cons c a ih => rw [List.cons_append, shouts, shouts, ih, Bool.or_assoc]; rfl

/-- Behind two texts the reader is where the second one takes him. -/
lemma Spot.after_append (s : Spot) (a b : Text) : s.after (a ++ b) = (s.after a).after b :=
  List.foldl_append

/-- The text leaves the reader outside of strings. -/
def IsClosed (t : Text) : Prop := Spot.outside.after t = .outside

/-- Two closed texts are closed together. -/
lemma IsClosed.append {a b : Text} (ha : IsClosed a) (hb : IsClosed b) : IsClosed (a ++ b) := by
  rw [IsClosed, Spot.after_append, ha, hb]

/-- Behind a closed text, such a letter stands outside of strings as it does by itself. -/
lemma IsClosed.shouts_append {a : Text} (ha : IsClosed a) (b : Text) :
    shouts .outside (a ++ b) = (shouts .outside a || shouts .outside b) := by
  rw [Json.shouts_append, ha]

/-- The text is closed, and no such letter stands outside of its strings. -/
structure IsQuiet (t : Text) : Prop where
  /-- The text leaves the reader outside of strings. -/
  closed : IsClosed t
  /-- It shows no such letter there. -/
  silent : shouts .outside t = false

/-- Two quiet texts are quiet together. -/
lemma IsQuiet.append {a b : Text} (ha : IsQuiet a) (hb : IsQuiet b) : IsQuiet (a ++ b) :=
  ⟨ha.closed.append hb.closed, by rw [ha.closed.shouts_append, ha.silent, hb.silent]; rfl⟩

/-- A text without such letters and without quotes is quiet. -/
lemma isQuiet_of_forall {t : Text} (h : ∀ c ∈ t, c.val ≠ 0x22 ∧ c.val ≠ 0x4E ∧ c.val ≠ 0x49) :
    IsQuiet t := by
  induction t with
  | nil => exact ⟨rfl, rfl⟩
  | cons c t ih =>
    obtain ⟨hquote, hn, hi⟩ := h c List.mem_cons_self
    obtain ⟨hclosed, hsilent⟩ := ih fun d hd => h d (List.mem_cons_of_mem c hd)
    have hnext : Spot.outside.next c = .outside := if_neg hquote
    have hcapital : isCapital c = false := by simp [isCapital, hn, hi]
    refine ⟨?_, ?_⟩
    · change (Spot.outside.next c).after t = .outside
      rw [hnext]
      exact hclosed
    · rw [shouts, hcapital, Bool.and_false, Bool.false_or, hnext]
      exact hsilent

/-! ## Documents are quiet -/

/-- White space is quiet. -/
lemma IsGap.isQuiet {t : Text} (h : IsGap t) : IsQuiet t := by
  refine isQuiet_of_forall fun c hc => ?_
  have hval := h c hc
  omega

/-- Digits are quiet. -/
lemma IsDigits.isQuiet {t : Text} (h : IsDigits t) : IsQuiet t := by
  refine isQuiet_of_forall fun c hc => ?_
  have hdigit := h.digits c hc
  simp only [CodePoint.isDigit, Bool.and_eq_true, decide_eq_true_eq] at hdigit
  omega

/-- A number is quiet. -/
lemma IsNumber.isQuiet {t : Text} (h : IsNumber t) : IsQuiet t := by
  obtain ⟨hsign, hwhole, hfraction, hexponent⟩ := h
  have hminus : IsQuiet _ := hsign.elim
    (fun h => h ▸ (⟨rfl, rfl⟩ : IsQuiet [])) fun h => h ▸ isQuiet_of_forall (by decide)
  refine ((hminus.append hwhole.isQuiet).append ?_).append ?_
  · cases hfraction with
    | none => exact ⟨rfl, rfl⟩
    | some h =>
      have hpoint : IsQuiet [('.' : CodePoint)] := isQuiet_of_forall (by decide)
      exact hpoint.append h.isQuiet
  · cases hexponent with
    | none => exact ⟨rfl, rfl⟩
    | @some letter sign t hletter hsign h =>
      have hletter : IsQuiet [letter] := by
        rcases hletter with rfl | rfl <;> exact isQuiet_of_forall (by decide)
      have hsign : IsQuiet sign := by
        rcases hsign with rfl | rfl | rfl <;> exact isQuiet_of_forall (by decide)
      exact hletter.append (hsign.append h.isQuiet)

/-- The text stands within a string and shows no such letter outside. -/
structure IsInner (t : Text) : Prop where
  /-- The reader stays in the string. -/
  stays : Spot.inside.after t = .inside
  /-- No such letter is shown outside. -/
  silent : shouts .inside t = false

/-- Two texts within a string are within it together. -/
lemma IsInner.append {a b : Text} (ha : IsInner a) (hb : IsInner b) : IsInner (a ++ b) :=
  ⟨by rw [Spot.after_append, ha.stays, hb.stays],
    by rw [shouts_append, ha.silent, ha.stays, hb.silent]; rfl⟩

/-- A part of a string stands within it. -/
lemma IsPart.isInner {t : Text} (h : IsPart t) : IsInner t := by
  cases h with
  | @plain c h =>
    have hnext : Spot.inside.next c = .inside := by
      rw [Spot.next, if_neg h.2.1, if_neg h.2.2]
    exact ⟨hnext, rfl⟩
  | @letter c h =>
    have hc : c.val ≠ 0x75 := by
      revert c
      decide
    have hnext : Spot.escape.next c = .inside := if_neg hc
    exact ⟨hnext, rfl⟩
  | unit h => exact ⟨rfl, rfl⟩

/-- A text between quotes is quiet if it stands within a string. -/
lemma IsInner.isQuiet {t : Text} (h : IsInner t) :
    IsQuiet ((("\"" : Text) ++ t) ++ ("\"" : Text)) := by
  have hquote : Spot.outside.after "\"" = .inside := rfl
  refine ⟨?_, ?_⟩
  · rw [IsClosed, Spot.after_append, Spot.after_append, hquote, h.stays]
    rfl
  · rw [shouts_append, shouts_append, Spot.after_append, hquote, h.silent, h.stays]
    rfl

/-- A string is quiet. -/
lemma IsString.isQuiet {t : Text} (h : IsString t) : IsQuiet t := by
  obtain ⟨parts, hparts, rfl⟩ := h
  have hinner : IsInner parts.flatten := by
    induction parts with
    | nil => exact ⟨rfl, rfl⟩
    | cons part parts ih =>
      obtain ⟨hpart, hrest⟩ := List.forall_mem_cons.mp hparts
      rw [List.flatten_cons]
      exact hpart.isInner.append (ih hrest)
  exact hinner.isQuiet

/-- Whatever is derived is quiet. -/
lemma Derives.isQuiet {f : Form} {t : Text} (h : Derives f t) : IsQuiet t := by
  have hmark : ∀ t ∈ (["[", "]", "\x7b", "\x7d", ",", ":"] : List Text), IsQuiet t := by
    intro t ht
    refine isQuiet_of_forall ?_
    revert t
    decide
  induction h with
  | word h => rcases h with rfl | rfl | rfl <;> exact isQuiet_of_forall (by decide)
  | number h => exact h.isQuiet
  | string h => exact h.isQuiet
  | emptyList h => exact ((hmark _ (by decide)).append h.isQuiet).append (hmark _ (by decide))
  | list h ih => exact (hmark _ (by decide)).append ih
  | lastItem hbefore h hafter ih =>
    exact ((hbefore.isQuiet.append ih).append hafter.isQuiet).append (hmark _ (by decide))
  | item hbefore h hafter hrest ih ihrest =>
    exact (((hbefore.isQuiet.append ih).append hafter.isQuiet).append
      (hmark _ (by decide))).append ihrest
  | emptyObject h => exact ((hmark _ (by decide)).append h.isQuiet).append (hmark _ (by decide))
  | object h ih => exact (hmark _ (by decide)).append ih
  | lastMember hbefore hname hbetween hgap h hafter ih =>
    exact ((((((hbefore.isQuiet.append hname.isQuiet).append hbetween.isQuiet).append
      (hmark _ (by decide))).append hgap.isQuiet).append ih).append hafter.isQuiet).append
      (hmark _ (by decide))
  | member hbefore hname hbetween hgap h hafter hrest ih ihrest =>
    exact (((((((hbefore.isQuiet.append hname.isQuiet).append hbetween.isQuiet).append
      (hmark _ (by decide))).append hgap.isQuiet).append ih).append hafter.isQuiet).append
      (hmark _ (by decide))).append ihrest

/-- Neither of the two letters stands outside of the strings of a document. -/
theorem IsDocument.isQuiet {t : Text} (h : IsDocument t) : IsQuiet t := by
  obtain ⟨before, value, after, hbefore, hvalue, hafter, rfl⟩ := h
  exact (hbefore.isQuiet.append hvalue.isQuiet).append hafter.isQuiet

end EditorDocs.Json
