import EditorDocs.Json.Line
import EditorDocs.Proofs.Json.Document
import EditorDocs.Proofs.Text.Digits
import Mathlib.Data.List.TakeDrop
import Mathlib.Data.List.TakeWhile

/-!
# Values on a line

What is read stands where it is read: `Json.Line.IsValue` has one case for each kind of value, and
`Json.Line.isValue_of_value` takes the reader apart once.

What was read from a line can be written on one again: its containers are nested no deeper than the
limit, its integers have no more digits than the limit, and it holds no collection without order
(`Json.fault?_of_readLine`).  And a value that is written on one line is a line: its text is
printable, so that no line break is in it (`Json.isPrintable_render`).
-/

namespace EditorDocs.Json

/-! ## What can be written -/

/-- The items of a list can be written if each of them can. -/
lemma faultItems?_eq_none_iff {budget : Nat} {vs : List Value} :
    faultItems? budget vs = none ↔ ∀ v ∈ vs, v.fault? budget = none := by
  induction vs with
  | nil => simp [faultItems?]
  | cons v vs ih =>
    rw [faultItems?, List.forall_mem_cons]
    cases v.fault? budget with
    | some fault => simp
    | none => simp [ih]

/-- The members of an object can be written if each of them can. -/
lemma faultMembers?_eq_none_iff {budget : Nat} {ms : List (Text × Value)} :
    faultMembers? budget ms = none ↔ ∀ m ∈ ms, m.2.fault? budget = none := by
  induction ms with
  | nil => simp [faultMembers?]
  | cons m ms ih =>
    obtain ⟨name, v⟩ := m
    rw [faultMembers?, List.forall_mem_cons]
    cases v.fault? budget with
    | some fault => simp
    | none => simp [ih]

mutual

/-- What can be written within one budget can fail to be written within another one for its depth
alone. -/
theorem Value.fault?_eq_tooDeep {a b : Nat} {f : WriteFault} :
    {v : Value} → v.fault? a = none → v.fault? b = some f → f = .tooDeep
  | .null | .bool _ | .float _ | .string _ => fun _ hb => by cases hb
  | .int n => fun ha hb => by
    have hsame : (Value.int n).fault? a = (Value.int n).fault? b := by simp only [Value.fault?]
    exact absurd (ha.symm.trans (hsame.trans hb)) (Option.some_ne_none f).symm
  | .unordered _ => fun ha _ => by cases ha
  | .list items => fun ha hb => by
    cases a with
    | zero => cases ha
    | succ a =>
      cases b with
      | zero => exact (Option.some.inj hb).symm
      | succ b => exact faultItems?_eq_tooDeep ha hb
  | .object members => fun ha hb => by
    cases a with
    | zero => cases ha
    | succ a =>
      cases b with
      | zero => exact (Option.some.inj hb).symm
      | succ b => exact faultMembers?_eq_tooDeep ha hb

/-- So it is for items. -/
theorem faultItems?_eq_tooDeep {a b : Nat} {f : WriteFault} :
    {vs : List Value} → faultItems? a vs = none → faultItems? b vs = some f → f = .tooDeep
  | [] => fun _ hb => by cases hb
  | v :: rest => fun ha hb => by
    have hall := faultItems?_eq_none_iff.mp ha
    rw [faultItems?] at hb
    split at hb
    · rename_i hv
      cases hb
      exact Value.fault?_eq_tooDeep (hall v List.mem_cons_self) hv
    · exact faultItems?_eq_tooDeep
        (faultItems?_eq_none_iff.mpr fun v hv => hall v (List.mem_cons_of_mem _ hv)) hb

/-- So it is for members. -/
theorem faultMembers?_eq_tooDeep {a b : Nat} {f : WriteFault} :
    {ms : List (Text × Value)} → faultMembers? a ms = none → faultMembers? b ms = some f →
      f = .tooDeep
  | [] => fun _ hb => by cases hb
  | (name, v) :: rest => fun ha hb => by
    have hall := faultMembers?_eq_none_iff.mp ha
    rw [faultMembers?] at hb
    split at hb
    · rename_i hv
      cases hb
      exact Value.fault?_eq_tooDeep (hall (name, v) List.mem_cons_self) hv
    · exact faultMembers?_eq_tooDeep
        (faultMembers?_eq_none_iff.mpr fun m hm => hall m (List.mem_cons_of_mem _ hm)) hb

end

/-- So many digits spell a number below their bound. -/
lemma decimalValue_lt_digitBound {ds : Text} (hdigits : ∀ c ∈ ds, c.isDigit = true) {n : Nat}
    (hlength : ds.length ≤ n) : Text.decimalValue ds < digitBound n :=
  Nat.lt_of_lt_of_le (Text.decimalValue_lt hdigits) (Nat.pow_le_pow_right (by omega) hlength)

/-- An integer of so many digits can be written. -/
lemma fault?_int {budget : Nat} {n : Int} (h : n.natAbs < digitBound integerLimit) :
    (Value.int n).fault? budget = none := by
  rw [Value.fault?, if_neg (by omega)]

/-- A numeral can be written if it is not an integer with too many digits. -/
lemma fault?_numeral (budget : Nat) {n : Numeral} (hdigits : ∀ c ∈ n.whole, c.isDigit = true)
    (hlength : n.isInteger = true → n.whole.length ≤ integerLimit) :
    n.value.fault? budget = none := by
  unfold Numeral.value
  split
  · rename_i hinteger
    have hsize := decimalValue_lt_digitBound hdigits (hlength hinteger)
    refine fault?_int ?_
    split <;> simpa using hsize
  · rfl

namespace Line

variable {budget : Nat} {item : Text → Except ReadFault (Value × Text)}

/-! ## What is read -/

/-- The items stand at the start of the text, with the end of the list behind the last one. -/
inductive IsItems (item : Text → Except ReadFault (Value × Text)) :
    Text → List Value → Text → Prop
  /-- The list ends behind the item. -/
  | last {t v after c rest} (hitem : item (skip t) = .ok (v, after)) (hend : skip after = c :: rest)
    (hc : c.val = 0x5D) : IsItems item t [v] rest
  /-- More items stand behind a comma. -/
  | cons {t v after c behind vs rest} (hitem : item (skip t) = .ok (v, after))
    (hcomma : skip after = c :: behind) (hc : c.val = 0x2C) (hmore : IsItems item behind vs rest) :
    IsItems item t (v :: vs) rest

/-- A member stands at the start of the text: a name, a colon and a value. -/
inductive IsMember (item : Text → Except ReadFault (Value × Text)) :
    Text → Text → Value → Text → Prop
  /-- The name stands behind a quote, and the value behind a colon. -/
  | intro {t q inside name between c gap v after} (hquote : skip t = q :: inside)
    (hq : q.val = 0x22) (hname : string inside = .ok (name, between))
    (hcolon : skip between = c :: gap) (hc : c.val = 0x3A)
    (hitem : item (skip gap) = .ok (v, after)) : IsMember item t name v after

/-- The members stand at the start of the text, with the end of the object behind the last one. -/
inductive IsMembers (item : Text → Except ReadFault (Value × Text)) :
    Text → List (Text × Value) → Text → Prop
  /-- The object ends behind the member. -/
  | last {t name v after c rest} (hmember : IsMember item t name v after)
    (hend : skip after = c :: rest) (hc : c.val = 0x7D) : IsMembers item t [(name, v)] rest
  /-- More members stand behind a comma. -/
  | cons {t name v after c behind ms rest} (hmember : IsMember item t name v after)
    (hcomma : skip after = c :: behind) (hc : c.val = 0x2C) (hmore : IsMembers item behind ms rest) :
    IsMembers item t ((name, v) :: ms) rest

/-- The words that stand for values, as they are spelled. -/
def words : List (Text × Value) := [("null", .null), ("true", .bool true), ("false", .bool false),
  ("NaN", .float .nan), ("Infinity", .float (.infinity false))]

/-- The value stands at the start of the text, with containers nested so deep. -/
inductive IsValue : Nat → Text → Value → Text → Prop
  /-- A string stands there. -/
  | string {budget c t s rest} (hc : c.val = 0x22) (h : string t = .ok (s, rest)) :
    IsValue budget (c :: t) (.string s) rest
  /-- A list without items stands there. -/
  | emptyList {inner c t d rest} (hc : c.val = 0x5B) (hend : skip t = d :: rest)
    (hd : d.val = 0x5D) : IsValue (inner + 1) (c :: t) (.list []) rest
  /-- A list with items stands there. -/
  | list {inner c t vs rest} (hc : c.val = 0x5B) (h : IsItems (value inner) t vs rest) :
    IsValue (inner + 1) (c :: t) (.list vs) rest
  /-- An object without members stands there. -/
  | emptyObject {inner c t d rest} (hc : c.val = 0x7B) (hend : skip t = d :: rest)
    (hd : d.val = 0x7D) : IsValue (inner + 1) (c :: t) (.object []) rest
  /-- An object with members stands there. -/
  | object {inner c t ms rest} (hc : c.val = 0x7B) (h : IsMembers (value inner) t ms rest) :
    IsValue (inner + 1) (c :: t) (.object (Table.ofPairs ms)) rest
  /-- A word stands there. -/
  | word {budget s x t v rest} (hs : (s, x) ∈ words) (h : word s x t = .ok (v, rest)) :
    IsValue budget t v rest
  /-- The word for infinity stands there, behind a minus sign. -/
  | negativeInfinity {budget c t v rest} (hc : c.val = 0x2D)
    (h : Line.word "Infinity" (.float (.infinity true)) t = .ok (v, rest)) :
    IsValue budget (c :: t) v rest
  /-- A number stands there. -/
  | number {budget t v rest} (h : number false t = .ok (v, rest)) : IsValue budget t v rest
  /-- A number stands there, behind a minus sign. -/
  | negative {budget c t v rest} (hc : c.val = 0x2D) (h : Line.number true t = .ok (v, rest)) :
    IsValue budget (c :: t) v rest

/-- Items that are read stand where they are read. -/
lemma isItems_of_items {rounds t rest : Text} {vs : List Value}
    (h : items item rounds t = .ok (vs, rest)) : IsItems item t vs rest := by
  induction rounds generalizing t vs with
  | nil => cases h
  | cons r rounds ih =>
    rw [items] at h
    obtain ⟨⟨v, after⟩, hitem, h⟩ := Result.of_bind h
    simp only at h
    split at h
    · rename_i c behind hbehind
      split at h
      · cases h
        exact .last hitem hbehind ‹_›
      split at h
      · obtain ⟨⟨more, after'⟩, hmore, h⟩ := Result.of_bind h
        cases h
        exact .cons hitem hbehind ‹_› (ih hmore)
      · cases h
    · cases h

/-- Members that are read stand where they are read. -/
lemma isMembers_of_members {rounds t rest : Text} {ms : List (Text × Value)}
    (h : members item rounds t = .ok (ms, rest)) : IsMembers item t ms rest := by
  induction rounds generalizing t ms with
  | nil => cases h
  | cons r rounds ih =>
    rw [members] at h
    split at h
    · rename_i q inside hinside
      split at h
      · rename_i hquote
        obtain ⟨⟨name, between⟩, hname, h⟩ := Result.of_bind h
        simp only at h
        split at h
        · rename_i colon gap hgap
          split at h
          · rename_i hcolon
            obtain ⟨⟨v, after⟩, hitem, h⟩ := Result.of_bind h
            have hmember : IsMember item t name v after :=
              .intro hinside hquote hname hgap hcolon hitem
            simp only at h
            split at h
            · rename_i c behind hbehind
              split at h
              · cases h
                exact .last hmember hbehind ‹_›
              split at h
              · obtain ⟨⟨more, after'⟩, hmore, h⟩ := Result.of_bind h
                cases h
                exact .cons hmember hbehind ‹_› (ih hmore)
              · cases h
            · cases h
          · cases h
        · cases h
      · cases h
    · cases h

/-- Items that stand somewhere are read there, one in every round. -/
lemma items_of_isItems {t rest : Text} {vs : List Value} (h : IsItems item t vs rest) {rounds : Text}
    (hrounds : vs.length ≤ rounds.length) : items item rounds t = .ok (vs, rest) := by
  induction h generalizing rounds with
  | last hitem hend hc =>
    obtain ⟨r, rounds, rfl⟩ := List.exists_cons_of_length_pos (l := rounds) hrounds
    rw [items, hitem]
    simp only [bind, Except.bind, hend, hc, if_true]
    rfl
  | cons hitem hcomma hc _ ih =>
    obtain ⟨r, rounds, rfl⟩ :=
      List.exists_cons_of_length_pos (l := rounds) (Nat.zero_lt_of_lt hrounds)
    rw [items, hitem]
    simp only [bind, Except.bind, hcomma, hc, if_true, ih (Nat.le_of_succ_le_succ hrounds)]
    rfl

/-- Members that stand somewhere are read there, one in every round. -/
lemma members_of_isMembers {t rest : Text} {ms : List (Text × Value)} (h : IsMembers item t ms rest)
    {rounds : Text} (hrounds : ms.length ≤ rounds.length) :
    members item rounds t = .ok (ms, rest) := by
  induction h generalizing rounds with
  | last hmember hend hc =>
    obtain ⟨r, rounds, rfl⟩ := List.exists_cons_of_length_pos (l := rounds) hrounds
    obtain ⟨hquote, hq, hname, hcolon, hmark, hitem⟩ := hmember
    rw [members]
    simp only [bind, Except.bind, hquote, hq, hname, hcolon, hmark, hitem, hend, hc, if_true]
    rfl
  | cons hmember hcomma hc _ ih =>
    obtain ⟨r, rounds, rfl⟩ :=
      List.exists_cons_of_length_pos (l := rounds) (Nat.zero_lt_of_lt hrounds)
    obtain ⟨hquote, hq, hname, hcolon, hmark, hitem⟩ := hmember
    rw [members]
    simp only [bind, Except.bind, hquote, hq, hname, hcolon, hmark, hitem, hcomma, hc, if_true,
      ih (Nat.le_of_succ_le_succ hrounds)]
    rfl

/-- A value that is read stands where it is read. -/
theorem isValue_of_value {t rest : Text} {v : Value} (h : value budget t = .ok (v, rest)) :
    IsValue budget t v rest := by
  have hword : ∀ {s x}, (s, x) ∈ words → word s x t = .ok (v, rest) → IsValue budget t v rest :=
    fun hs hread => .word hs hread
  rw [value.eq_def] at h
  cases t with
  | nil => cases h
  | cons c t =>
    simp only at h
    by_cases hquote : c.val = 0x22
    · rw [if_pos hquote] at h
      obtain ⟨⟨s, rest'⟩, hs, heq⟩ := Result.of_map h
      cases heq
      exact .string hquote hs
    rw [if_neg hquote] at h
    by_cases hbracket : c.val = 0x5B
    · rw [if_pos hbracket] at h
      cases budget with
      | zero => cases h
      | succ inner =>
        simp only at h
        split at h
        · cases h
        rename_i d behind hskip
        split at h
        · cases h
          exact .emptyList hbracket hskip ‹_›
        · obtain ⟨⟨vs, rest'⟩, hvs, heq⟩ := Result.of_map h
          cases heq
          exact .list hbracket (isItems_of_items hvs)
    rw [if_neg hbracket] at h
    by_cases hbrace : c.val = 0x7B
    · rw [if_pos hbrace] at h
      cases budget with
      | zero => cases h
      | succ inner =>
        simp only at h
        split at h
        · cases h
        rename_i d behind hskip
        split at h
        · cases h
          exact .emptyObject hbrace hskip ‹_›
        · obtain ⟨⟨ms, rest'⟩, hms, heq⟩ := Result.of_map h
          cases heq
          exact .object hbrace (isMembers_of_members hms)
    rw [if_neg hbrace] at h
    -- what is left are words and numbers
    split at h
    · exact hword (by simp [words]) h
    split at h
    · exact hword (by simp [words]) h
    split at h
    · exact hword (by simp [words]) h
    split at h
    · exact hword (by simp [words]) h
    split at h
    · exact hword (by simp [words]) h
    split at h
    · rename_i hminus
      split at h
      · exact .negativeInfinity hminus h
      · exact .negative hminus h
    · exact .number h

/-! ## What is read can be written -/

/-- What a reader reads can be written with containers nested so deep. -/
def Keeps (budget : Nat) (item : Text → Except ReadFault (Value × Text)) : Prop :=
  ∀ t v rest, item t = .ok (v, rest) → v.fault? budget = none

/-- A word that is read stands for its value. -/
lemma eq_of_word {spelling : Text} {x v : Value} {t rest : Text}
    (h : word spelling x t = .ok (v, rest)) : v = x := by
  unfold word at h
  split at h
  · cases h
    rfl
  · cases h

/-- The digits before the point of a number are digits. -/
lemma isDigit_of_mem_digits {t : Text} {c : CodePoint} (h : c ∈ (digits t).1) :
    c.isDigit = true := by
  rw [digits, List.span_eq_takeWhile_dropWhile] at h
  exact List.mem_takeWhile_imp h

/-- A number that is read can be written. -/
lemma fault?_number {negative : Bool} {t rest : Text} {v : Value}
    (h : number negative t = .ok (v, rest)) : v.fault? budget = none := by
  unfold number at h
  cases t with
  | nil => cases h
  | cons c t =>
    have hdigits : ∀ d ∈ (if c.val = 0x30 then ([c], t) else digits (c :: t)).1,
        d.isDigit = true := by
      intro d hd
      split at hd
      · rename_i hzero
        rw [List.mem_singleton.mp hd, CodePoint.isDigit, hzero]
        decide
      · exact isDigit_of_mem_digits hd
    simp only at h
    generalize (if c.val = 0x30 then ([c], t) else digits (c :: t)) = start at h hdigits
    split at h
    · cases h
    · split at h
      · cases h
      · rename_i hlong
        cases h
        refine fault?_numeral budget hdigits fun hinteger => ?_
        simpa [hinteger] using hlong

/-- Items can be written if each of them can. -/
lemma IsItems.fault? (hitem : Keeps budget item) {t rest : Text} {vs : List Value}
    (h : IsItems item t vs rest) : ∀ v ∈ vs, v.fault? budget = none := by
  induction h with
  | last hone hend hc => exact List.forall_mem_singleton.mpr (hitem _ _ _ hone)
  | cons hone hcomma hc hmore ih => exact List.forall_mem_cons.mpr ⟨hitem _ _ _ hone, ih⟩

/-- Members can be written if their values can. -/
lemma IsMembers.fault? (hitem : Keeps budget item) {t rest : Text} {ms : List (Text × Value)}
    (h : IsMembers item t ms rest) : ∀ m ∈ ms, m.2.fault? budget = none := by
  have hone : ∀ {t name v after}, IsMember item t name v after → v.fault? budget = none := by
    intro t name v after hmember
    cases hmember with
    | intro hquote hq hname hcolon hc hread => exact hitem _ _ _ hread
  induction h with
  | last hmember hend hc => exact List.forall_mem_singleton.mpr (hone hmember)
  | cons hmember hcomma hc hmore ih => exact List.forall_mem_cons.mpr ⟨hone hmember, ih⟩

/-- A value with containers nested so deep can be written so, if this holds of the values that stand in
it. -/
lemma IsValue.fault? (hinner : ∀ inner, budget = inner + 1 → Keeps inner (value inner))
    {t rest : Text} {v : Value} (h : IsValue budget t v rest) : v.fault? budget = none := by
  cases h with
  | string hc h => rfl
  | emptyList hc hend hd => rfl
  | list hc h => exact faultItems?_eq_none_iff.mpr (h.fault? (hinner _ rfl))
  | emptyObject hc hend hd => rfl
  | object hc h =>
    have hall := h.fault? (hinner _ rfl)
    exact faultMembers?_eq_none_iff.mpr fun m hm => hall m (Table.mem_of_mem_ofPairs hm)
  | @word _ s x _ _ _ hs h =>
    have hplain : ∀ w ∈ words, w.2.fault? budget = none := by
      simp only [words, List.forall_mem_cons]
      exact ⟨rfl, rfl, rfl, rfl, rfl, List.forall_mem_nil _⟩
    rw [eq_of_word h]
    exact hplain _ hs
  | negativeInfinity hc h =>
    rw [eq_of_word h]
    rfl
  | number h => exact fault?_number h
  | negative hc h => exact fault?_number h

/-- A value that is read with containers nested so deep can be written so. -/
theorem keeps_value (budget : Nat) : Keeps budget (value budget) := by
  induction budget with
  | zero =>
    exact fun t v rest h => (isValue_of_value h).fault? fun inner hzero => absurd hzero (by omega)
  | succ budget ih =>
    refine fun t v rest h => (isValue_of_value h).fault? fun inner hsucc => ?_
    rw [← Nat.succ.inj hsucc]
    exact ih

end Line

/-- A value that was read from a line can be written on one. -/
theorem fault?_of_readLine {budget : Nat} {t : Text} {v : Value} (h : readLine budget t = .ok v) :
    v.fault? budget = none := by
  unfold readLine at h
  obtain ⟨⟨v', rest⟩, hv, h⟩ := Result.of_bind h
  simp only at h
  split at h
  · cases h
    exact Line.keeps_value budget _ _ _ hv
  · cases h

/-! ## What is written is a line -/

open Text (IsPrintable)

/-- The escape of a unit is printable. -/
lemma isPrintable_escapeUnit (n : Nat) : IsPrintable (escapeUnit n) :=
  IsPrintable.append (by decide) (Text.isPrintable_ofHex 4 n)

/-- A short escape is printable. -/
lemma isPrintable_shortEscape {c : CodePoint} {t : Text} (h : shortEscape? c = some t) :
    IsPrintable t := by
  unfold shortEscape? at h
  repeat' split at h
  all_goals first
    | (cases h; decide)
    | cases h

/-- A character is written printably. -/
lemma isPrintable_escapeOne (c : CodePoint) : IsPrintable (escapeOne true c) := by
  unfold escapeOne
  cases hshort : shortEscape? c with
  | some t => exact isPrintable_shortEscape hshort
  | none =>
    simp only [Bool.not_true, Bool.false_or, decide_eq_true_eq]
    split
    · exact isPrintable_escapeUnit _
    split
    · intro d hd
      rw [List.mem_singleton.mp hd]
      omega
    split
    · exact isPrintable_escapeUnit _
    · exact (isPrintable_escapeUnit _).append (isPrintable_escapeUnit _)

/-- A string is written printably. -/
lemma isPrintable_quote (t : Text) : IsPrintable (quote true t) := by
  refine (IsPrintable.append (by decide) ?_).append (by decide)
  intro c hc
  obtain ⟨d, -, hmem⟩ := List.mem_flatMap.mp hc
  exact isPrintable_escapeOne d c hmem

/-- The digits of a decimal without its zeros are printable. -/
lemma isPrintable_significant (d : Binary64.Decimal) : IsPrintable d.significant.1 := by
  refine (Text.isPrintable_ofNat d.digits).mono fun c hc => ?_
  have hc' := (List.dropWhile_sublist _).subset (List.mem_reverse.mp hc)
  exact List.mem_reverse.mp hc'

/-- A positive number is written printably. -/
lemma isPrintable_positiveText (m : Nat) (e : Int) : IsPrintable (Binary64.positiveText m e) := by
  have hdigits := isPrintable_significant (Binary64.shortest m e)
  unfold Binary64.positiveText
  generalize (Binary64.shortest m e).significant = parts at hdigits
  obtain ⟨digits, p⟩ := parts
  have htake : ∀ n, IsPrintable (digits.take n) := fun n =>
    hdigits.mono fun c hc => List.mem_of_mem_take hc
  have hdrop : ∀ n, IsPrintable (digits.drop n) := fun n =>
    hdigits.mono fun c hc => List.mem_of_mem_drop hc
  simp only
  split
  · exact ((IsPrintable.append (by decide) (Text.isPrintable_zeros _))).append hdigits
  split
  · split
    · exact (hdigits.append (Text.isPrintable_zeros _)).append (by decide)
    · exact ((htake _).append (by decide)).append (hdrop _)
  · refine IsPrintable.append (IsPrintable.append (IsPrintable.append (IsPrintable.append
      ((htake 1).append ?_) (by decide)) ?_) (Text.isPrintable_zeros _)) (Text.isPrintable_ofNat _)
    · split
      · exact Text.isPrintable_nil
      · exact IsPrintable.append (by decide) (hdrop 1)
    · split <;> decide

/-- A number is written printably. -/
lemma isPrintable_floatText (x : Binary64) : IsPrintable (floatText x) := by
  unfold floatText Binary64.textWith
  cases x with
  | nan => decide
  | infinity s => cases s <;> decide
  | finite s m e =>
    refine IsPrintable.append (by cases s <;> decide) ?_
    split
    · decide
    · exact isPrintable_positiveText m e

mutual

/-- A value that is written on a line is printable. -/
theorem isPrintable_render : (v : Value) → IsPrintable (v.render .line)
  | .null => by decide
  | .bool b => by cases b <;> decide
  | .int n => Text.isPrintable_ofInt n
  | .float x => isPrintable_floatText x
  | .string t => isPrintable_quote t
  | .list items => IsPrintable.append (by decide) (isPrintable_renderItems true items)
  | .object members => IsPrintable.append (by decide) (isPrintable_renderMembers true members)
  | .unordered items => IsPrintable.append (by decide) (isPrintable_renderItems true items)

/-- The rest of a list is written printably. -/
theorem isPrintable_renderItems (isFirst : Bool) :
    (vs : List Value) → IsPrintable (renderItems .line isFirst vs)
  | [] => by
    rw [renderItems]
    decide
  | v :: vs => by
    refine (IsPrintable.append ?_ (isPrintable_render v)).append (isPrintable_renderItems false vs)
    cases isFirst <;> decide

/-- The rest of an object is written printably. -/
theorem isPrintable_renderMembers (isFirst : Bool) :
    (ms : List (Text × Value)) → IsPrintable (renderMembers .line isFirst ms)
  | [] => by
    rw [renderMembers]
    decide
  | (name, v) :: ms => by
    refine (IsPrintable.append (IsPrintable.append (IsPrintable.append ?_ (isPrintable_quote name))
      (by decide)) (isPrintable_render v)).append (isPrintable_renderMembers false ms)
    cases isFirst <;> decide

end

end EditorDocs.Json
