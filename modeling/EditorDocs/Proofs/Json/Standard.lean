import EditorDocs.Proofs.Json.Numerals
import EditorDocs.Proofs.Json.Strings
import Mathlib.Tactic.Lemma

/-!
# What is written on a line is JSON

A value that is written on a line is a document of the strict grammar if and only if every number in
it is finite (`Json.isDocument_render_iff`).  Numbers that are infinite or none at all are written as
words that the grammar does not have, and there is nothing else that it would not have: strings are
escaped as it says, and the shortest decimal of a number is never zero, so no number is written with a
zero in front or without digits.
-/

namespace EditorDocs

namespace Json

open Value

/-! ## Finite values -/

mutual

/-- All numbers in the value are finite. -/
def Value.isFinite : Value → Bool
  | .float x => x.isFinite
  | .list items | .unordered items => areFinite items
  | .object members => areFiniteMembers members
  | _ => true

/-- All numbers in the values are finite. -/
def areFinite : List Value → Bool
  | [] => true
  | v :: rest => v.isFinite && areFinite rest

/-- All numbers in the members are finite. -/
def areFiniteMembers : List (Text × Value) → Bool
  | [] => true
  | (_, v) :: rest => v.isFinite && areFiniteMembers rest

end

/-! ## Strings -/

/-- The text consists of parts of a string. -/
def HasParts (t : Text) : Prop :=
  ∃ parts : List Text, (∀ part ∈ parts, IsPart part) ∧ t = parts.flatten

/-- A part is one. -/
lemma IsPart.hasParts {t : Text} (h : IsPart t) : HasParts t :=
  ⟨[t], by simpa using h, by simp⟩

/-- Parts and parts are parts. -/
lemma HasParts.append {a b : Text} (ha : HasParts a) (hb : HasParts b) : HasParts (a ++ b) := by
  obtain ⟨ps, hps, rfl⟩ := ha
  obtain ⟨qs, hqs, rfl⟩ := hb
  refine ⟨ps ++ qs, fun part hpart => ?_, List.flatten_append.symm⟩
  exact (List.mem_append.mp hpart).elim (hps part) (hqs part)

/-- A unit is written as a part of a string. -/
lemma isPart_escapeUnit {n : Nat} (h : n < 0x10000) : IsPart (escapeUnit n) := by
  have hdigit : ∀ d : Fin 16, ((CodePoint.ofHexDigit d).hexValue?).isSome = true := by decide
  rw [escapeUnit, Text.ofHex_four h]
  refine IsPart.unit fun x hx => ?_
  simp only [List.mem_cons, List.not_mem_nil, or_false] at hx
  rcases hx with rfl | rfl | rfl | rfl
  · exact hdigit ⟨n / 0x1000, by omega⟩
  · exact hdigit ⟨n / 0x100 % 16, by omega⟩
  · exact hdigit ⟨n / 0x10 % 16, by omega⟩
  · exact hdigit ⟨n % 16, by omega⟩

/-- The escape of a letter is a part of a string. -/
lemma isPart_shortEscape {c : CodePoint} {t : Text} (h : shortEscape? c = some t) : IsPart t := by
  have hletter : ∀ e ∈ ("\"\\nrtfb" : Text), IsPart [CodePoint.ofNat 0x5C, e] := by
    intro e he
    refine IsPart.letter ?_
    revert e
    decide
  unfold shortEscape? at h
  repeat' split at h
  all_goals first
    | (cases h; exact hletter _ (by decide))
    | cases h

/-- A character is written as parts of a string. -/
lemma hasParts_escapeOne (c : CodePoint) : HasParts (escapeOne true c) := by
  unfold escapeOne
  cases hshort : shortEscape? c with
  | some t => exact (isPart_shortEscape hshort).hasParts
  | none =>
    have hplain : c.val ≠ 0x22 ∧ c.val ≠ 0x5C := by
      constructor <;> (intro hc; simp [shortEscape?, hc] at hshort)
    have hlt : c.val < 0x110000 := c.isLt
    simp only [Bool.not_true, Bool.false_or, decide_eq_true_eq]
    split
    · exact (isPart_escapeUnit (by omega)).hasParts
    split
    · exact (IsPart.plain ⟨by omega, hplain.1, hplain.2⟩).hasParts
    split
    · exact (isPart_escapeUnit (by omega)).hasParts
    · exact (isPart_escapeUnit (by omega)).hasParts.append (isPart_escapeUnit (by omega)).hasParts

/-- A text is written as a string. -/
lemma isString_quote (t : Text) : IsString (quote true t) := by
  have hparts : HasParts (t.flatMap (escapeOne true)) := by
    induction t with
    | nil => exact ⟨[], by simp, rfl⟩
    | cons c t ih =>
      rw [List.flatMap_cons]
      exact (hasParts_escapeOne c).append ih
  obtain ⟨parts, hall, hflat⟩ := hparts
  exact ⟨parts, hall, by rw [quote, hflat]; rfl⟩

/-! ## Finite values are written in the grammar -/

/-- No white space is white space. -/
lemma isGap_nil : IsGap [] := fun c hc => by cases hc

/-- A blank is white space. -/
lemma isGap_blank : IsGap " " := by
  unfold IsGap
  decide

mutual

/-- A value of which all numbers are finite is written as a value. -/
theorem derives_render : (v : Value) → v.isFinite = true → Derives .value (v.render .line)
  | .null, _ => .word (Or.inl rfl)
  | .bool b, _ => by
    cases b
    · exact .word (Or.inr (Or.inr rfl))
    · exact .word (Or.inr (Or.inl rfl))
  | .int n, _ => .number (isNumber_ofInt n)
  | .float x, h => .number (isNumber_floatText h)
  | .string t, _ => .string (isString_quote t)
  | .list items, h => by
    have hitems := derives_renderItems items h
    by_cases hnil : items = []
    · subst hnil
      exact .emptyList isGap_nil
    · exact .list (hitems.1 hnil)
  | .unordered items, h => by
    have hitems := derives_renderItems items h
    by_cases hnil : items = []
    · subst hnil
      exact .emptyList isGap_nil
    · exact .list (hitems.1 hnil)
  | .object members, h => by
    have hmembers := derives_renderMembers members h
    by_cases hnil : members = []
    · subst hnil
      exact .emptyObject isGap_nil
    · exact .object (hmembers.1 hnil)

/-- Values of which all numbers are finite are written as items, with one before them or without. -/
theorem derives_renderItems : (vs : List Value) → areFinite vs = true →
    (vs ≠ [] → Derives .items (renderItems .line true vs)) ∧
      ∀ gap t : Text, IsGap gap → Derives .value t →
        Derives .items (gap ++ t ++ renderItems .line false vs)
  | [], _ => by
    refine ⟨fun h => absurd rfl h, fun gap t hgap ht => ?_⟩
    have hlast := Derives.lastItem hgap ht isGap_nil
    rw [List.append_nil] at hlast
    exact hlast
  | v :: vs, h => by
    rw [areFinite, Bool.and_eq_true] at h
    -- the rest is written behind a comma and a blank, which goes with the item after it
    have hrest := (derives_renderItems vs h.2).2
    have hvalue := derives_render v h.1
    refine ⟨fun _ => hrest [] _ isGap_nil hvalue, fun gap t hgap ht => ?_⟩
    have hitem := Derives.item hgap ht isGap_nil (hrest _ _ isGap_blank hvalue)
    rw [List.append_nil, List.append_assoc (gap ++ t)] at hitem
    exact hitem

/-- Members of which all numbers are finite are written as members, with one before them or
without. -/
theorem derives_renderMembers : (ms : List (Text × Value)) → areFiniteMembers ms = true →
    (ms ≠ [] → Derives .members (renderMembers .line true ms)) ∧
      ∀ gap name t : Text, IsGap gap → IsString name → Derives .value t →
        Derives .members (gap ++ name ++ Style.line.colon ++ t ++ renderMembers .line false ms)
  | [], _ => by
    refine ⟨fun h => absurd rfl h, fun gap name t hgap hname ht => ?_⟩
    have hlast := Derives.lastMember hgap hname isGap_nil isGap_blank ht isGap_nil
    rw [List.append_nil, List.append_nil, List.append_assoc (gap ++ name)] at hlast
    exact hlast
  | (name, v) :: ms, h => by
    rw [areFiniteMembers, Bool.and_eq_true] at h
    have hrest := (derives_renderMembers ms h.2).2
    have hvalue := derives_render v h.1
    have hname := isString_quote name
    refine ⟨fun _ => hrest [] _ _ isGap_nil hname hvalue, fun gap name' t hgap hname' ht => ?_⟩
    have hmember := Derives.member hgap hname' isGap_nil isGap_blank ht isGap_nil
      (hrest _ _ _ isGap_blank hname hvalue)
    rw [List.append_nil, List.append_nil, List.append_assoc (gap ++ name'),
      List.append_assoc (gap ++ name' ++ _ ++ t)] at hmember
    exact hmember

end

/-! ## Other values are not -/

/-- The text is closed, and shows a capital outside of its strings unless it is `quiet`. -/
structure Tells (t : Text) (quiet : Bool) : Prop where
  /-- The text leaves the reader outside of strings. -/
  closed : IsClosed t
  /-- What it shows there. -/
  shown : shouts .outside t = !quiet

/-- A quiet text is one. -/
lemma IsQuiet.tells {t : Text} (h : IsQuiet t) : Tells t true := ⟨h.closed, h.silent⟩

/-- Two texts are quiet together if both are. -/
lemma Tells.append {a b : Text} {x y : Bool} (ha : Tells a x) (hb : Tells b y) :
    Tells (a ++ b) (x && y) :=
  ⟨ha.closed.append hb.closed, by rw [ha.closed.shouts_append, ha.shown, hb.shown, Bool.not_and]⟩

/-- The text of a number shows a capital unless the number is finite. -/
lemma tells_floatText (x : Binary64) : Tells (floatText x) x.isFinite := by
  cases x with
  | nan => exact ⟨rfl, by decide⟩
  | infinity s => cases s <;> exact ⟨rfl, by decide⟩
  | finite s m e => exact (isNumber_floatText rfl).isQuiet.tells

/-- The marks between values are quiet. -/
lemma tells_mark {t : Text} (h : t ∈ (["[", "]", "\x7b", "\x7d", ", ", ": ", ""] : List Text)) :
    Tells t true := by
  refine (isQuiet_of_forall ?_).tells
  revert t
  decide

mutual

/-- The text of a value shows a capital unless all numbers in it are finite. -/
theorem tells_render : (v : Value) → Tells (v.render .line) v.isFinite
  | .null => (isQuiet_of_forall (by decide)).tells
  | .bool b => by cases b <;> exact (isQuiet_of_forall (by decide)).tells
  | .int n => (isNumber_ofInt n).isQuiet.tells
  | .float x => tells_floatText x
  | .string t => (isString_quote t).isQuiet.tells
  | .list items => (tells_mark (by decide)).append (tells_renderItems true items)
  | .unordered items => (tells_mark (by decide)).append (tells_renderItems true items)
  | .object members => (tells_mark (by decide)).append (tells_renderMembers true members)

/-- The text of items shows a capital unless all numbers in them are finite. -/
theorem tells_renderItems (isFirst : Bool) :
    (vs : List Value) → Tells (renderItems .line isFirst vs) (areFinite vs)
  | [] => (tells_mark (by decide) : Tells "]" true)
  | v :: vs => by
    have hcomma : Tells (if isFirst then [] else Style.line.comma) true := by
      cases isFirst <;> exact tells_mark (by decide)
    exact (hcomma.append (tells_render v)).append (tells_renderItems false vs)

/-- The text of members shows a capital unless all numbers in them are finite. -/
theorem tells_renderMembers (isFirst : Bool) :
    (ms : List (Text × Value)) → Tells (renderMembers .line isFirst ms) (areFiniteMembers ms)
  | [] => (tells_mark (by decide) : Tells "\x7d" true)
  | (name, v) :: ms => by
    have hcomma : Tells (if isFirst then [] else Style.line.comma) true := by
      cases isFirst <;> exact tells_mark (by decide)
    have hname : Tells (quote true name) true := (isString_quote name).isQuiet.tells
    exact (((hcomma.append hname).append (tells_mark (by decide))).append
      (tells_render v)).append (tells_renderMembers false ms)

end

/-- A value is written as a document if and only if all numbers in it are finite. -/
theorem isDocument_render_iff (v : Value) : IsDocument (v.render .line) ↔ v.isFinite = true := by
  constructor
  · intro h
    have hsilent := h.isQuiet.silent
    rw [(tells_render v).shown] at hsilent
    simpa using hsilent
  · intro h
    exact ⟨[], _, [], isGap_nil, derives_render v h, isGap_nil, by simp⟩

end Json

end EditorDocs
