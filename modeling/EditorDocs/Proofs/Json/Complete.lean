import EditorDocs.Proofs.Json.Tokens

/-!
# Documents are read as what they say

The reader of documents takes every document of the grammar that keeps within its limits, and reads it
as the value that it has (`Json.readDocument_eq_ok`).  Its limits are the number of digits that a
number may have, the depth to which containers may be nested, and that no half of a surrogate pair is
escaped by itself; it does not mind names that are repeated.

The proof follows the derivation of the document.  A value is read wherever it stands, as long as no
number goes on behind it (`Document.IsRead`), and items and members are read up to the end of their
container.  The reader does not know how many of these there are: it gives itself as many rounds as
there are bytes, and each round takes one at least.
-/

namespace EditorDocs.Json

namespace Document

/-! ## Pieces of documents -/

/-- The reader reads the text as what it means, wherever it stands: a value where no number goes on
behind it, and items and members in as many rounds as they have bytes. -/
def IsRead (r : Reader) (n : Nat) (t : Text) : Content → Prop
  | .value v => ∃ b bytes, Utf8.encodeAll t = b :: bytes ∧ IsStart b ∧
      ∀ {rest : Bytes}, Follows rest → value r n (b :: bytes ++ rest) = .ok (v, rest)
  | .items vs => ∀ (rest : Bytes) {rounds : Bytes}, (Utf8.encodeAll t).length ≤ rounds.length →
      ∃ b bytes, skip (Utf8.encodeAll t ++ rest) = b :: bytes ∧ b ≠ 0x5D ∧
        items (value r n) rounds (b :: bytes) = .ok (vs, rest)
  | .members ms => ∀ (rest : Bytes) {rounds : Bytes}, (Utf8.encodeAll t).length ≤ rounds.length →
      ∃ b bytes, skip (Utf8.encodeAll t ++ rest) = b :: bytes ∧ b ≠ 0x7D ∧
        members (value r n) rounds (b :: bytes) = .ok (ms, rest)

/-- A byte that ends what stands before it: a comma or the end of a container. -/
structure IsMark (b : UInt8) : Prop where
  /-- It is no blank. -/
  noGap : isGap b = false
  /-- No number goes on with it. -/
  follows : ∀ rest, Follows (b :: rest)

/-- A comma is one. -/
lemma isMark_comma : IsMark 0x2C := ⟨rfl, fun _ b hb => by cases hb; decide⟩

/-- The end of a list is one. -/
lemma isMark_bracket : IsMark 0x5D := ⟨rfl, fun _ b hb => by cases hb; decide⟩

/-- The end of an object is one. -/
lemma isMark_brace : IsMark 0x7D := ⟨rfl, fun _ b hb => by cases hb; decide⟩

variable {r : Reader} {n : Nat}

/-- Values are read in one way at all depths, but for what stands in containers. -/
lemma exists_value_eq (n : Nat) : ∃ item, value r n = valueWith r item := by
  cases n with
  | zero => exact ⟨_, rfl⟩
  | succ n => exact ⟨_, rfl⟩

/-- A value with white space around it is read, up to the mark behind it. -/
lemma IsRead.between {before t after : Text} {v : Value} (hbefore : IsGap before)
    (h : IsRead r n t (.value v)) (hafter : IsGap after) {mark : UInt8} (hmark : IsMark mark)
    (tail : Bytes) :
    ∃ b bytes behind, IsStart b ∧
      skip (Utf8.encodeAll (before ++ t ++ after) ++ mark :: tail) = b :: bytes ∧
      value r n (b :: bytes) = .ok (v, behind) ∧ skip behind = mark :: tail := by
  obtain ⟨b, bytes, hspell, hstart, hread⟩ := h
  have hfollows : Follows (Utf8.encodeAll after ++ mark :: tail) :=
    Follows.gap hafter (hmark.follows tail)
  refine ⟨b, bytes ++ (Utf8.encodeAll after ++ mark :: tail), _, hstart, ?_, hread hfollows, ?_⟩
  · rw [Utf8.encodeAll_append, Utf8.encodeAll_append, List.append_assoc, List.append_assoc,
      skip_gap hbefore, hspell, List.cons_append, skip_cons hstart.noGap]
  · rw [skip_gap hafter, skip_cons hmark.noGap]

/-- A member is read, up to the mark behind it. -/
lemma IsRead.member {before name between gap t after s : Text} {v : Value} (hbefore : IsGap before)
    (hname : StringMeans false name s) (hscalar : name.IsScalar) (hbetween : IsGap between)
    (hgap : IsGap gap) (h : IsRead r n t (.value v)) (hafter : IsGap after) {mark : UInt8}
    (hmark : IsMark mark) (tail : Bytes) :
    ∃ bytes behind,
      skip (Utf8.encodeAll (before ++ name ++ between ++ (":" : Text) ++ gap ++ t ++ after) ++
        mark :: tail) = 0x22 :: bytes ∧
      IsMember (value r n) (0x22 :: bytes) s v behind ∧ skip behind = mark :: tail := by
  obtain ⟨bytes, hquote, hstring⟩ := string_means hname hscalar
  obtain ⟨b, first, behind, hstart, hskip, hread, hbehind⟩ := h.between hgap hafter hmark tail
  have hcolon : Utf8.encodeAll ":" = [0x3A] := by decide
  let inner := Utf8.encodeAll (gap ++ t ++ after) ++ mark :: tail
  have hbehindName : skip (Utf8.encodeAll between ++ 0x3A :: inner) = 0x3A :: inner := by
    rw [skip_gap hbetween, skip_cons rfl]
  have hitem : value r n (skip inner) = .ok (v, behind) := by rw [hskip, hread]
  refine ⟨_, behind, ?_, .intro (hstring _) hbehindName hitem, hbehind⟩
  have hparts : before ++ name ++ between ++ (":" : Text) ++ gap ++ t ++ after =
      before ++ (name ++ (between ++ ((":" : Text) ++ (gap ++ t ++ after)))) := by simp
  rw [hparts, Utf8.encodeAll_append, List.append_assoc, skip_gap hbefore, Utf8.encodeAll_append,
    hquote, Utf8.encodeAll_append, Utf8.encodeAll_append, hcolon, List.cons_append,
    List.cons_append, skip_cons rfl]
  simp [inner]

/-! ## Containers -/

/-- The text of a mark is one byte at the end, in bytes, too. -/
lemma encodeAll_mark {mark : Text} {b : UInt8} (h : Utf8.encodeAll mark = [b]) (t rest : Text)
    (tail : Bytes) : Utf8.encodeAll (t ++ mark ++ rest) ++ tail =
      Utf8.encodeAll t ++ b :: (Utf8.encodeAll rest ++ tail) := by
  rw [Utf8.encodeAll_append, Utf8.encodeAll_append, h]
  simp

/-- The last item of a list is read. -/
lemma IsRead.lastItem {before t after : Text} {v : Value} (hbefore : IsGap before)
    (h : IsRead r n t (.value v)) (hafter : IsGap after) :
    IsRead r n (before ++ t ++ after ++ ("]" : Text)) (.items [v]) := by
  have hend : Utf8.encodeAll "]" = [0x5D] := by decide
  intro rest rounds hrounds
  obtain ⟨b, bytes, behind, hstart, hskip, hread, hbehind⟩ :=
    h.between hbefore hafter isMark_bracket rest
  obtain ⟨r, rounds, rfl⟩ := List.exists_cons_of_length_pos (l := rounds) (by
    rw [Utf8.encodeAll_append, hend, List.length_append, List.length_singleton] at hrounds
    omega)
  refine ⟨b, bytes, ?_, hstart.noBracket, ?_⟩
  · rw [Utf8.encodeAll_append, hend, List.append_assoc, List.singleton_append, hskip]
  · rw [items]
    simp only [hread, hbehind, bind, Except.bind, if_true]
    rfl

/-- An item of a list is read, and those behind it. -/
lemma IsRead.item {before t after rest : Text} {v : Value} {vs : List Value}
    (hbefore : IsGap before) (h : IsRead r n t (.value v)) (hafter : IsGap after)
    (hrest : IsRead r n rest (.items vs)) :
    IsRead r n (before ++ t ++ after ++ ("," : Text) ++ rest) (.items (v :: vs)) := by
  have hcomma : Utf8.encodeAll "," = [0x2C] := by decide
  intro tail rounds hrounds
  obtain ⟨b, bytes, behind, hstart, hskip, hread, hbehind⟩ :=
    h.between hbefore hafter isMark_comma (Utf8.encodeAll rest ++ tail)
  rw [Utf8.encodeAll_append, Utf8.encodeAll_append, hcomma, List.length_append, List.length_append,
    List.length_singleton] at hrounds
  obtain ⟨r, rounds, rfl⟩ := List.exists_cons_of_length_pos (l := rounds) (by omega)
  have hfewer : (Utf8.encodeAll rest).length ≤ rounds.length := by
    rw [List.length_cons] at hrounds
    omega
  obtain ⟨d, more, hmore, hbracket, hitems⟩ := hrest tail hfewer
  refine ⟨b, bytes, ?_, hstart.noBracket, ?_⟩
  · rw [encodeAll_mark hcomma, hskip]
  · rw [items]
    simp only [hread, hbehind, bind, Except.bind, hmore, hitems, if_neg hbracket, if_true]
    rw [if_neg (by decide)]
    rfl

/-- The last member of an object is read. -/
lemma IsRead.lastMember {before name between gap t after s : Text} {v : Value}
    (hbefore : IsGap before) (hname : StringMeans false name s) (hscalar : name.IsScalar)
    (hbetween : IsGap between) (hgap : IsGap gap) (h : IsRead r n t (.value v))
    (hafter : IsGap after) :
    IsRead r n (before ++ name ++ between ++ (":" : Text) ++ gap ++ t ++ after ++ ("\x7d" : Text))
      (.members [(s, v)]) := by
  have hend : Utf8.encodeAll "\x7d" = [0x7D] := by decide
  intro rest rounds hrounds
  obtain ⟨bytes, behind, hskip, hmember, hbehind⟩ :=
    h.member hbefore hname hscalar hbetween hgap hafter isMark_brace rest
  obtain ⟨r, rounds, rfl⟩ := List.exists_cons_of_length_pos (l := rounds) (by
    rw [Utf8.encodeAll_append, hend, List.length_append, List.length_singleton] at hrounds
    omega)
  refine ⟨0x22, bytes, ?_, by decide, ?_⟩
  · rw [Utf8.encodeAll_append, hend, List.append_assoc, List.singleton_append, hskip]
  · cases hmember with
    | intro hname hcolon hitem =>
      rw [members, if_pos rfl]
      simp only [hname, hcolon, hitem, hbehind, bind, Except.bind, if_true]
      rfl

/-- A member of an object is read, and those behind it. -/
lemma IsRead.moreMembers {before name between gap t after rest s : Text} {v : Value}
    {ms : List (Text × Value)} (hbefore : IsGap before) (hname : StringMeans false name s)
    (hscalar : name.IsScalar) (hbetween : IsGap between) (hgap : IsGap gap)
    (h : IsRead r n t (.value v)) (hafter : IsGap after) (hrest : IsRead r n rest (.members ms)) :
    IsRead r n
      (before ++ name ++ between ++ (":" : Text) ++ gap ++ t ++ after ++ ("," : Text) ++ rest)
      (.members ((s, v) :: ms)) := by
  have hcomma : Utf8.encodeAll "," = [0x2C] := by decide
  intro tail rounds hrounds
  obtain ⟨bytes, behind, hskip, hmember, hbehind⟩ :=
    h.member hbefore hname hscalar hbetween hgap hafter isMark_comma (Utf8.encodeAll rest ++ tail)
  rw [Utf8.encodeAll_append, Utf8.encodeAll_append, hcomma, List.length_append, List.length_append,
    List.length_singleton] at hrounds
  obtain ⟨r, rounds, rfl⟩ := List.exists_cons_of_length_pos (l := rounds) (by omega)
  have hfewer : (Utf8.encodeAll rest).length ≤ rounds.length := by
    rw [List.length_cons] at hrounds
    omega
  obtain ⟨d, more, hmore, hbrace, hmembers⟩ := hrest tail hfewer
  refine ⟨0x22, bytes, ?_, by decide, ?_⟩
  · rw [encodeAll_mark hcomma, hskip]
  · cases hmember with
    | intro hname hcolon hitem =>
      rw [members, if_pos rfl]
      simp only [hname, hcolon, hitem, hbehind, hmore, hmembers, if_neg hbrace, bind, Except.bind,
        if_true]
      rw [if_neg (by decide)]
      rfl

/-- Behind a bracket stands a list. -/
lemma valueWith_bracket (item : ItemReader) (bs : Bytes) :
    valueWith r item (0x5B :: bs) = match skip bs with
      | [] => refuse .endInList []
      | d :: rest =>
        if d = 0x5D then .ok (.list [], rest)
        else (items item bs (d :: rest)).map fun (vs, rest) => (.list vs, rest) := rfl

/-- Behind a brace stands an object. -/
lemma valueWith_brace (item : ItemReader) (bs : Bytes) :
    valueWith r item (0x7B :: bs) = match skip bs with
      | [] => refuse .endInObject []
      | d :: rest =>
        if d = 0x7D then .ok (.object [], rest)
        else (members item bs (d :: rest)).map fun (ms, rest) =>
          (.object (Table.ofPairs ms), rest) := rfl

/-- A list or an object without anything in it is read. -/
lemma isRead_empty {gap : Text} (h : IsGap gap) :
    IsRead r n (("[" : Text) ++ gap ++ ("]" : Text)) (.value (.list [])) ∧
      IsRead r n (("\x7b" : Text) ++ gap ++ ("\x7d" : Text)) (.value (.object [])) := by
  obtain ⟨item, hvalue⟩ := exists_value_eq n
  have hopen : Utf8.encodeAll "[" = [0x5B] ∧ Utf8.encodeAll "\x7b" = [0x7B] := by decide
  have hend : Utf8.encodeAll "]" = [0x5D] ∧ Utf8.encodeAll "\x7d" = [0x7D] := by decide
  constructor
  · refine ⟨0x5B, Utf8.encodeAll gap ++ [0x5D], ?_, ⟨rfl, by decide, by decide⟩, fun hrest => ?_⟩
    · rw [Utf8.encodeAll_append, Utf8.encodeAll_append, hopen.1, hend.1]
      rfl
    · rw [hvalue, List.cons_append, List.append_assoc, List.singleton_append, valueWith_bracket,
        skip_gap h, skip_cons rfl]
      rfl
  · refine ⟨0x7B, Utf8.encodeAll gap ++ [0x7D], ?_, ⟨rfl, by decide, by decide⟩, fun hrest => ?_⟩
    · rw [Utf8.encodeAll_append, Utf8.encodeAll_append, hopen.2, hend.2]
      rfl
    · rw [hvalue, List.cons_append, List.append_assoc, List.singleton_append, valueWith_brace,
        skip_gap h, skip_cons rfl]
      rfl

/-- A list is read if its items are, one level further in. -/
lemma IsRead.list {t : Text} {vs : List Value} (h : IsRead r n t (.items vs)) :
    IsRead r (n + 1) (("[" : Text) ++ t) (.value (.list vs)) := by
  have hopen : Utf8.encodeAll "[" = [0x5B] := by decide
  refine ⟨0x5B, Utf8.encodeAll t, ?_, ⟨rfl, by decide, by decide⟩, fun {rest} _ => ?_⟩
  · rw [Utf8.encodeAll_append, hopen]
    rfl
  · have hrounds : (Utf8.encodeAll t).length ≤ (Utf8.encodeAll t ++ rest).length := by simp
    obtain ⟨b, bytes, hskip, hbracket, hitems⟩ := h rest hrounds
    rw [value, List.cons_append, valueWith_bracket, hskip]
    simp only [if_neg hbracket, hitems]
    rfl

/-- An object is read if its members are, one level further in. -/
lemma IsRead.object {t : Text} {ms : List (Text × Value)} (h : IsRead r n t (.members ms)) :
    IsRead r (n + 1) (("\x7b" : Text) ++ t) (.value (.object (Table.ofPairs ms))) := by
  have hopen : Utf8.encodeAll "\x7b" = [0x7B] := by decide
  refine ⟨0x7B, Utf8.encodeAll t, ?_, ⟨rfl, by decide, by decide⟩, fun {rest} _ => ?_⟩
  · rw [Utf8.encodeAll_append, hopen]
    rfl
  · have hrounds : (Utf8.encodeAll t).length ≤ (Utf8.encodeAll t ++ rest).length := by simp
    obtain ⟨b, bytes, hskip, hbrace, hmembers⟩ := h rest hrounds
    rw [value, List.cons_append, valueWith_brace, hskip]
    simp only [if_neg hbrace, hmembers]
    rfl

/-- What means something within the limits of the reader is read as that. -/
theorem isRead_of_means {repeated : Bool} {t : Text} {c : Content}
    (h : Means ⟨wholeLimit, r.countsSign, false, repeated⟩ n t c) (ht : t.IsScalar) : IsRead r n t c := by
  have hparts : ∀ {a b : Text}, Text.IsScalar (a ++ b) → a.IsScalar ∧ b.IsScalar :=
    List.forall_mem_append.mp
  induction h with
  | @word n t v h =>
    obtain ⟨item, hvalue⟩ := exists_value_eq n
    obtain ⟨b, bytes, hspell, hstart, -⟩ := valueWith_word (r := r) h item []
    refine ⟨b, bytes, hspell, hstart, fun {rest} _ => ?_⟩
    obtain ⟨b', bytes', hspell', -, hread⟩ := valueWith_word h item rest
    rw [hvalue, ← hspell, hspell', hread]
  | @number n t v h =>
    obtain ⟨item, hvalue⟩ := exists_value_eq n
    obtain ⟨b, bytes, hspell, hstart, hread⟩ := valueWith_number h
    exact ⟨b, bytes, hspell, hstart, fun hrest => hvalue ▸ hread item hrest⟩
  | @string n t s h =>
    obtain ⟨item, hvalue⟩ := exists_value_eq n
    obtain ⟨bytes, hspell, hread⟩ := string_means h ht
    refine ⟨0x22, bytes, hspell, ⟨rfl, by decide, by decide⟩, fun {rest} _ => ?_⟩
    rw [hvalue, List.cons_append, valueWith.eq_def]
    simp only [if_true, hread]
    rfl
  | emptyList h => exact (isRead_empty h).1
  | list _ ih => exact (ih (hparts ht).2).list
  | lastItem hbefore _ hafter ih =>
    exact (ih (hparts (hparts (hparts ht).1).1).2).lastItem hbefore hafter
  | item hbefore _ hafter _ ih ihrest =>
    obtain ⟨hfirst, hrest⟩ := hparts ht
    exact (ih (hparts (hparts (hparts hfirst).1).1).2).item hbefore hafter (ihrest hrest)
  | emptyObject h => exact (isRead_empty h).2
  | object _ _ ih => exact (ih (hparts ht).2).object
  | lastMember hbefore hname hbetween hgap _ hafter ih =>
    obtain ⟨hmember, hvalue⟩ := hparts (hparts (hparts ht).1).1
    have hscalar := (hparts (hparts (hparts (hparts hmember).1).1).1).2
    exact (ih hvalue).lastMember hbefore hname hscalar hbetween hgap hafter
  | member hbefore hname hbetween hgap _ hafter _ ih ihrest =>
    obtain ⟨hfirst, hrest⟩ := hparts ht
    obtain ⟨hmember, hvalue⟩ := hparts (hparts (hparts hfirst).1).1
    have hscalar := (hparts (hparts (hparts (hparts hmember).1).1).1).2
    exact (ih hvalue).moreMembers hbefore hname hscalar hbetween hgap hafter (ihrest hrest)

end Document

/-! ## Documents -/

/-- A document within the limits of the reader is read as the value that it has. -/
theorem readDocument_eq_ok {r : Reader} {repeated : Bool} {t : Text} {v : Value}
    (h : Says ⟨wholeLimit, r.countsSign, false, repeated⟩ depthLimit t v) (ht : t.IsScalar) :
    readDocument r (Utf8.encodeAll t) = .ok v := by
  obtain ⟨before, value, after, hbefore, hmeans, hafter, rfl⟩ := h
  obtain ⟨hleft, -⟩ := List.forall_mem_append.mp ht
  obtain ⟨b, bytes, hspell, hstart, hread⟩ :=
    Document.isRead_of_means hmeans (List.forall_mem_append.mp hleft).2
  have hfollows : Document.Follows (Utf8.encodeAll after ++ []) :=
    Document.Follows.gap hafter fun b hb => by cases hb
  have hend : Document.skip (Utf8.encodeAll after) = [] := by
    rw [← List.append_nil (Utf8.encodeAll after), Document.skip_gap hafter]
    rfl
  rw [List.append_nil] at hfollows
  rw [readDocument, Utf8.encodeAll_append, Utf8.encodeAll_append, List.append_assoc,
    Document.skip_gap hbefore, hspell, List.cons_append, Document.skip_cons hstart.noGap,
    ← List.cons_append, hread hfollows]
  simp only [bind, Except.bind, hend]
  rfl

end EditorDocs.Json
