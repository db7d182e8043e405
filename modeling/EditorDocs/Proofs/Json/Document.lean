import EditorDocs.Proofs.Json.Strings
import EditorDocs.Proofs.Result
import EditorDocs.Proofs.Table

/-!
# Documents that are written and read

A value made of strings, lists and objects is written on one line without blanks, and the reader
gives it back from there, whatever follows.  `Document.Reads` says this of one reader and one value;
it passes from the parts of a value to the whole (`reads_string`, `reads_list`, `reads_object`), one
level of nesting deeper.

An object is a table, so its names have to be distinct; that the table of distinct names is the list
itself is `Table.ofPairs_eq_self`.

Conversely, what is read stands where it is read.  `Document.IsValue` says so with one case for each kind
of value, and `Document.isValue_of_valueWith` takes the reader apart once, so that whatever holds of all
documents is proved case by case.
-/

namespace EditorDocs

namespace Json.Document

/-- How the values below one level are read. -/
abbrev ItemReader := Bytes → Except Offence (Value × Bytes)

variable {r : Reader}

/-- The reader gives the value back from where it was written, whatever follows.  What is written
begins neither with a blank nor with the end of a container. -/
def Reads (item : ItemReader) (v : Value) : Prop :=
  ∃ b bytes, Utf8.encodeAll (v.render .compact) = b :: bytes ∧
    isGap b = false ∧ b ≠ 0x5D ∧ b ≠ 0x7D ∧
      ∀ rest, item (b :: bytes ++ rest) = .ok (v, rest)

/-- Nothing is skipped before a byte that is no blank. -/
lemma skip_cons {b : UInt8} (h : isGap b = false) (bs : Bytes) : skip (b :: bs) = b :: bs := by
  rw [skip, List.dropWhile_cons, h]
  rfl

/-- A string is read where it was written. -/
theorem reads_string {t : Text} (ht : t.IsScalar) (item : ItemReader) :
    Reads (valueWith r item) (.string t) := by
  obtain ⟨bytes, hspell, -⟩ := string_quote ht []
  refine ⟨0x22, bytes, ?_, by decide, by decide, by decide, ?_⟩
  · rw [Value.render]
    exact hspell
  · intro rest
    obtain ⟨bytes', hspell', hread⟩ := string_quote ht rest
    rw [hspell, List.cons.injEq] at hspell'
    rw [← hspell'.2] at hread
    rw [List.cons_append, valueWith.eq_def]
    simp only [if_true, hread]
    rfl

/-! ## Lists -/

/-- What stands between items, in bytes. -/
lemma encodeAll_comma : Utf8.encodeAll Style.compact.comma = [0x2C] := by decide

/-- What stands between a name and its value, in bytes. -/
lemma encodeAll_colon : Utf8.encodeAll Style.compact.colon = [0x3A] := by decide

/-- The rest of a list after an item takes at least one byte for every item. -/
lemma length_renderItems (vs : List Value) :
    vs.length < (Utf8.encodeAll (renderItems .compact false vs)).length := by
  induction vs with
  | nil => decide
  | cons v vs ih =>
    rw [renderItems, if_neg Bool.false_ne_true, Utf8.encodeAll_append, Utf8.encodeAll_append,
      encodeAll_comma]
    simp only [List.length_append, List.length_cons, List.length_nil]
    omega

/-- Items are read where they were written, one in every round. -/
lemma items_render {item : ItemReader} {v : Value} {vs : List Value}
    (h : ∀ w ∈ v :: vs, Reads item w) (rounds rest : Bytes) (hrounds : vs.length < rounds.length) :
    items item rounds (Utf8.encodeAll (v.render .compact ++ renderItems .compact false vs) ++ rest) =
      .ok (v :: vs, rest) := by
  induction vs generalizing v rounds with
  | nil =>
    obtain ⟨r, rounds, rfl⟩ := List.exists_cons_of_length_pos hrounds
    obtain ⟨b, bytes, hspell, -, -, -, hread⟩ := h v List.mem_cons_self
    have hend : Utf8.encodeAll (renderItems .compact false []) = [0x5D] := by decide
    rw [Utf8.encodeAll_append, hend, hspell, List.append_assoc, items, hread]
    simp only [bind, Except.bind, List.singleton_append, skip_cons (b := 0x5D) (by decide), if_true]
    rfl
  | cons w vs ih =>
    obtain ⟨r, rounds, rfl⟩ :=
      List.exists_cons_of_length_pos (l := rounds) (Nat.zero_lt_of_lt hrounds)
    rw [List.length_cons, List.length_cons, Nat.add_lt_add_iff_right] at hrounds
    obtain ⟨b, bytes, hspell, -, -, -, hread⟩ := h v List.mem_cons_self
    obtain ⟨b', bytes', hspell', hgap', hlist', -, -⟩ :=
      h w (List.mem_cons_of_mem v List.mem_cons_self)
    have hih := ih (fun u hu => h u (List.mem_cons_of_mem v hu)) rounds hrounds
    rw [Utf8.encodeAll_append, hspell', List.append_assoc, List.cons_append] at hih
    rw [renderItems, if_neg Bool.false_ne_true, Utf8.encodeAll_append, Utf8.encodeAll_append,
      Utf8.encodeAll_append, encodeAll_comma, hspell, hspell', List.append_assoc, items, hread]
    simp only [bind, Except.bind, List.cons_append, List.nil_append, List.append_assoc,
      skip_cons (b := 0x2C) (by decide), skip_cons hgap']
    rw [if_neg (by decide), if_pos trivial, if_neg hlist', hih]
    rfl

/-- A list is read where it was written if its items are. -/
theorem reads_list {item : ItemReader} {vs : List Value} (h : ∀ v ∈ vs, Reads item v) :
    Reads (valueWith r item) (.list vs) := by
  refine ⟨0x5B, Utf8.encodeAll (renderItems .compact true vs), ?_, by decide, by decide,
    by decide, ?_⟩
  · rw [Value.render, Utf8.encodeAll_append]
    rfl
  intro rest
  rw [List.cons_append, valueWith.eq_def]
  simp only
  rw [if_neg (by decide), if_pos trivial]
  cases vs with
  | nil =>
    have hend : Utf8.encodeAll (renderItems .compact true []) = [0x5D] := by decide
    rw [hend, List.singleton_append, skip_cons (by decide)]
    rfl
  | cons v vs =>
    obtain ⟨b, bytes, hspell, hgap, hlist, -, -⟩ := h v List.mem_cons_self
    have hitems := items_render h
      (Utf8.encodeAll (v.render .compact ++ renderItems .compact false vs) ++ rest) rest (by
        have := length_renderItems vs
        simp only [Utf8.encodeAll_append, List.length_append]
        omega)
    have hfirst : renderItems .compact true (v :: vs) =
        v.render .compact ++ renderItems .compact false vs := by simp [renderItems]
    rw [hfirst]
    rw [Utf8.encodeAll_append, hspell, List.append_assoc, List.cons_append] at hitems ⊢
    rw [skip_cons hgap]
    simp only
    rw [if_neg hlist, hitems]
    rfl

/-! ## Objects -/

/-- A member of an object as it is written, in bytes. -/
def memberBytes (name : Text) (v : Value) : Bytes :=
  Utf8.encodeAll (quote false name) ++ 0x3A :: Utf8.encodeAll (v.render .compact)

/-- The rest of an object is a member after a comma, and the rest after it. -/
lemma encodeAll_renderMembers_cons (name : Text) (v : Value) (ms : List (Text × Value)) :
    Utf8.encodeAll (renderMembers .compact false ((name, v) :: ms)) =
      0x2C :: memberBytes name v ++ Utf8.encodeAll (renderMembers .compact false ms) := by
  rw [renderMembers, if_neg Bool.false_ne_true]
  simp only [Utf8.encodeAll_append, encodeAll_comma, encodeAll_colon, memberBytes]
  simp [Style.compact]

/-- The rest of an object after a member takes at least one byte for every member. -/
lemma length_renderMembers (ms : List (Text × Value)) :
    ms.length < (Utf8.encodeAll (renderMembers .compact false ms)).length := by
  induction ms with
  | nil => decide
  | cons m ms ih =>
    rw [encodeAll_renderMembers_cons]
    simp only [List.length_append, List.length_cons]
    omega

/-- The name of a member and its value are read where they were written. -/
lemma memberBytes_read {item : ItemReader} {name : Text} {v : Value} (hname : name.IsScalar)
    (hv : Reads item v) (rest : Bytes) :
    ∃ bytes value, memberBytes name v ++ rest = 0x22 :: bytes ∧
      string bytes = .ok (name, 0x3A :: value) ∧ item (skip value) = .ok (v, rest) := by
  obtain ⟨b, bytes, hspell, hgap, -, -, hread⟩ := hv
  obtain ⟨nameBytes, hquote, hstring⟩ := string_quote hname (0x3A :: (b :: bytes ++ rest))
  refine ⟨nameBytes ++ 0x3A :: (b :: bytes ++ rest), b :: bytes ++ rest, ?_, hstring, ?_⟩
  · rw [memberBytes, hquote, hspell]
    simp
  · rw [List.cons_append, skip_cons hgap, ← List.cons_append]
    exact hread rest

/-- Members are read where they were written, one in every round. -/
lemma members_render {item : ItemReader} {name : Text} {v : Value} {ms : List (Text × Value)}
    (h : ∀ m ∈ (name, v) :: ms, m.1.IsScalar ∧ Reads item m.2) (rounds rest : Bytes)
    (hrounds : ms.length < rounds.length) :
    members item rounds
        (memberBytes name v ++ Utf8.encodeAll (renderMembers .compact false ms) ++ rest) =
      .ok ((name, v) :: ms, rest) := by
  induction ms generalizing name v rounds with
  | nil =>
    obtain ⟨r, rounds, rfl⟩ := List.exists_cons_of_length_pos hrounds
    obtain ⟨hname, hv⟩ := h (name, v) List.mem_cons_self
    have hend : Utf8.encodeAll (renderMembers .compact false []) = [0x7D] := by decide
    obtain ⟨bytes, value, hspell, hstring, hread⟩ := memberBytes_read hname hv (0x7D :: rest)
    rw [hend, List.append_assoc, List.singleton_append, hspell, members, if_pos rfl]
    simp only [bind, Except.bind, hstring, skip_cons (b := 0x3A) (by decide), if_true, hread,
      skip_cons (b := 0x7D) (by decide)]
    rfl
  | cons m ms ih =>
    obtain ⟨name', v'⟩ := m
    obtain ⟨r, rounds, rfl⟩ :=
      List.exists_cons_of_length_pos (l := rounds) (Nat.zero_lt_of_lt hrounds)
    rw [List.length_cons, List.length_cons, Nat.add_lt_add_iff_right] at hrounds
    obtain ⟨hname, hv⟩ := h (name, v) List.mem_cons_self
    have hih := ih (fun m hm => h m (List.mem_cons_of_mem _ hm)) rounds hrounds
    obtain ⟨bytes', -, hspell', -, -⟩ := memberBytes_read
      (h (name', v') (List.mem_cons_of_mem _ List.mem_cons_self)).1
      (h (name', v') (List.mem_cons_of_mem _ List.mem_cons_self)).2
      (Utf8.encodeAll (renderMembers .compact false ms) ++ rest)
    rw [List.append_assoc, hspell'] at hih
    obtain ⟨bytes, value, hspell, hstring, hread⟩ := memberBytes_read hname hv
      (0x2C :: 0x22 :: bytes')
    rw [encodeAll_renderMembers_cons, List.append_assoc, List.cons_append, List.cons_append,
      List.append_assoc, hspell', hspell, members, if_pos rfl]
    simp only [bind, Except.bind, hstring, skip_cons (b := 0x3A) (by decide), if_true, hread,
      skip_cons (b := 0x2C) (by decide), skip_cons (b := 0x22) (by decide), hih]
    rfl

/-- An object is read where it was written if its names are distinct texts without surrogates and
its values are read. -/
theorem reads_object {item : ItemReader} {ms : List (Text × Value)} (hkeys : (Table.keys ms).Nodup)
    (h : ∀ m ∈ ms, m.1.IsScalar ∧ Reads item m.2) : Reads (valueWith r item) (.object ms) := by
  refine ⟨0x7B, Utf8.encodeAll (renderMembers .compact true ms), ?_, by decide, by decide,
    by decide, ?_⟩
  · rw [Value.render, Utf8.encodeAll_append]
    rfl
  intro rest
  rw [List.cons_append, valueWith.eq_def]
  simp only
  rw [if_neg (by decide), if_neg (by decide), if_pos trivial]
  cases ms with
  | nil =>
    have hend : Utf8.encodeAll (renderMembers .compact true []) = [0x7D] := by decide
    rw [hend, List.singleton_append, skip_cons (by decide)]
    rfl
  | cons m ms =>
    obtain ⟨name, v⟩ := m
    have hfirst : Utf8.encodeAll (renderMembers .compact true ((name, v) :: ms)) =
        memberBytes name v ++ Utf8.encodeAll (renderMembers .compact false ms) := by
      rw [renderMembers, if_pos rfl]
      simp only [Utf8.encodeAll_append, encodeAll_colon, memberBytes]
      simp [Style.compact, Utf8.encodeAll_nil]
    have hmembers := members_render h
      (memberBytes name v ++ Utf8.encodeAll (renderMembers .compact false ms) ++ rest) rest (by
        have := length_renderMembers ms
        simp only [List.length_append]
        omega)
    obtain ⟨bytes, -, hspell, -, -⟩ := memberBytes_read (h (name, v) List.mem_cons_self).1
      (h (name, v) List.mem_cons_self).2
      (Utf8.encodeAll (renderMembers .compact false ms) ++ rest)
    rw [hfirst]
    rw [List.append_assoc, hspell] at hmembers ⊢
    rw [skip_cons (by decide)]
    simp only
    rw [if_neg (by decide), hmembers]
    simp only [Except.map, Table.ofPairs_eq_self hkeys]

end Json.Document

namespace Json

variable {r : Reader}

/-- A value that the reader gives back is the document that was written. -/
theorem readDocument_render {v : Value} (h : Document.Reads (Document.value r depthLimit) v) :
    readDocument r (Utf8.encodeAll (v.render .compact)) = .ok v := by
  obtain ⟨b, bytes, hspell, hgap, -, -, hread⟩ := h
  have hwhole := hread []
  rw [List.append_nil] at hwhole
  rw [hspell, readDocument, Document.skip_cons hgap, hwhole]
  rfl

/-! ## What is read -/

namespace Document

/-- The items stand at the start of the bytes, with the end of the list behind the last one. -/
inductive IsItems (item : ItemReader) : Bytes → List Value → Bytes → Prop
  /-- The list ends behind the item. -/
  | last {bs v after rest} (hitem : item bs = .ok (v, after)) (hend : skip after = 0x5D :: rest) :
    IsItems item bs [v] rest
  /-- More items stand behind a comma. -/
  | cons {bs v after behind vs rest} (hitem : item bs = .ok (v, after))
    (hcomma : skip after = 0x2C :: behind) (hmore : IsItems item (skip behind) vs rest) :
    IsItems item bs (v :: vs) rest

/-- A member stands at the start of the bytes: a name, a colon and a value. -/
inductive IsMember (item : ItemReader) : Bytes → Text → Value → Bytes → Prop
  /-- The name stands behind a quote, and the value behind a colon. -/
  | intro {bs name between gap v after} (hname : string bs = .ok (name, between))
    (hcolon : skip between = 0x3A :: gap) (hitem : item (skip gap) = .ok (v, after)) :
    IsMember item (0x22 :: bs) name v after

/-- The members stand at the start of the bytes, with the end of the object behind the last one. -/
inductive IsMembers (item : ItemReader) : Bytes → List (Text × Value) → Bytes → Prop
  /-- The object ends behind the member. -/
  | last {bs name v after rest} (hmember : IsMember item bs name v after)
    (hend : skip after = 0x7D :: rest) : IsMembers item bs [(name, v)] rest
  /-- More members stand behind a comma. -/
  | cons {bs name v after behind ms rest} (hmember : IsMember item bs name v after)
    (hcomma : skip after = 0x2C :: behind) (hmore : IsMembers item (skip behind) ms rest) :
    IsMembers item bs ((name, v) :: ms) rest

/-- The words that stand for values, as they are spelled. -/
def words : List (String × Value) := [("null", .null), ("true", .bool true), ("false", .bool false),
  ("NaN", .float .nan), ("Infinity", .float (.infinity false))]

/-- The value stands at the start of the bytes. -/
inductive IsValue (r : Reader) (item : ItemReader) : Bytes → Value → Bytes → Prop
  /-- A string stands there. -/
  | string {bs t rest} (h : string bs = .ok (t, rest)) : IsValue r item (0x22 :: bs) (.string t) rest
  /-- A list without items stands there. -/
  | emptyList {bs rest} (h : skip bs = 0x5D :: rest) : IsValue r item (0x5B :: bs) (.list []) rest
  /-- A list with items stands there. -/
  | list {bs vs rest} (h : IsItems item (skip bs) vs rest) : IsValue r item (0x5B :: bs) (.list vs) rest
  /-- An object without members stands there. -/
  | emptyObject {bs rest} (h : skip bs = 0x7D :: rest) :
    IsValue r item (0x7B :: bs) (.object []) rest
  /-- An object with members stands there. -/
  | object {bs ms rest} (h : IsMembers item (skip bs) ms rest) :
    IsValue r item (0x7B :: bs) (.object (Table.ofPairs ms)) rest
  /-- A word stands there. -/
  | word {bs s x v rest} (hs : (s, x) ∈ words) (h : word x (spelled s) bs = .ok (v, rest)) :
    IsValue r item bs v rest
  /-- The word for infinity stands there, behind a minus sign. -/
  | negativeInfinity {bs v rest}
    (h : Document.word (.float (.infinity true)) (spelled "Infinity") bs = .ok (v, rest)) :
    IsValue r item (0x2D :: bs) v rest
  /-- A number stands there. -/
  | number {bs v rest} (h : number r false bs = .ok (v, rest)) : IsValue r item bs v rest
  /-- A number stands there, behind a minus sign. -/
  | negative {bs v rest} (h : Document.number r true bs = .ok (v, rest)) :
    IsValue r item (0x2D :: bs) v rest

variable {item : ItemReader}

/-- Items that are read stand where they are read. -/
lemma isItems_of_items {rounds bs rest : Bytes} {vs : List Value}
    (h : items item rounds bs = .ok (vs, rest)) : IsItems item bs vs rest := by
  induction rounds generalizing bs vs rest with
  | nil => cases h
  | cons r rounds ih =>
    rw [items] at h
    obtain ⟨⟨v, after⟩, hitem, h⟩ := Result.of_bind h
    simp only at h
    split at h
    · cases h
    rename_i c behind hc
    split at h
    · rename_i hend
      cases h
      exact .last hitem (hend ▸ hc)
    split at h
    · rename_i hcomma
      split at h
      · cases h
      rename_i d behind' hd
      split at h
      · cases h
      · obtain ⟨⟨more, after'⟩, hmore, h⟩ := Result.of_bind h
        cases h
        exact .cons hitem (hcomma ▸ hc) (hd ▸ ih hmore)
    · cases h

/-- Members that are read stand where they are read. -/
lemma isMembers_of_members {rounds bs rest : Bytes} {ms : List (Text × Value)}
    (h : members item rounds bs = .ok (ms, rest)) : IsMembers item bs ms rest := by
  induction rounds generalizing bs ms rest with
  | nil => cases h
  | cons r rounds ih =>
    cases bs with
    | nil => cases h
    | cons q bs =>
      rw [members] at h
      split at h
      · rename_i hquote
        subst hquote
        obtain ⟨⟨name, between⟩, hname, h⟩ := Result.of_bind h
        simp only at h
        split at h
        · cases h
        rename_i colon gap hgap
        split at h
        · rename_i hcolon
          obtain ⟨⟨v, after⟩, hitem, h⟩ := Result.of_bind h
          have hmember : IsMember item (0x22 :: bs) name v after :=
            .intro hname (hcolon ▸ hgap) hitem
          simp only at h
          split at h
          · cases h
          rename_i c behind hc
          split at h
          · rename_i hend
            cases h
            exact .last hmember (hend ▸ hc)
          split at h
          · rename_i hcomma
            split at h
            · cases h
            rename_i d behind' hd
            split at h
            · cases h
            · obtain ⟨⟨more, after'⟩, hmore, h⟩ := Result.of_bind h
              cases h
              exact .cons hmember (hcomma ▸ hc) (hd ▸ ih hmore)
          · cases h
        · cases h
      · cases h

/-- A value that is read stands where it is read. -/
theorem isValue_of_valueWith {bs rest : Bytes} {v : Value}
    (h : valueWith r item bs = .ok (v, rest)) : IsValue r item bs v rest := by
  have hword : ∀ {s x}, (s, x) ∈ words → word x (spelled s) bs = .ok (v, rest) →
      IsValue r item bs v rest := fun hs hread => .word hs hread
  cases bs with
  | nil => cases h
  | cons b bs =>
    rw [valueWith.eq_def] at h
    simp only at h
    by_cases hquote : b = 0x22
    · subst hquote
      rw [if_pos rfl] at h
      obtain ⟨⟨t, rest'⟩, ht, heq⟩ := Result.of_map h
      cases heq
      exact .string ht
    rw [if_neg hquote] at h
    by_cases hbracket : b = 0x5B
    · subst hbracket
      rw [if_pos rfl] at h
      split at h
      · cases h
      rename_i d behind hd
      split at h
      · rename_i hend
        cases h
        exact .emptyList (hend ▸ hd)
      · obtain ⟨⟨vs, rest'⟩, hvs, heq⟩ := Result.of_map h
        cases heq
        exact .list (hd ▸ isItems_of_items hvs)
    rw [if_neg hbracket] at h
    by_cases hbrace : b = 0x7B
    · subst hbrace
      rw [if_pos rfl] at h
      split at h
      · cases h
      rename_i d behind hd
      split at h
      · rename_i hend
        cases h
        exact .emptyObject (hend ▸ hd)
      · obtain ⟨⟨ms, rest'⟩, hms, heq⟩ := Result.of_map h
        cases heq
        exact .object (hd ▸ isMembers_of_members hms)
    rw [if_neg hbrace] at h
    -- what is left are words and numbers
    split at h
    · exact hword (by simp [words]) h
    split at h
    · exact hword (by simp [words]) h
    split at h
    · exact hword (by simp [words]) h
    split at h
    · exact hword (by simp [words]) h
    split at h
    · exact hword (by simp [words]) h
    split at h
    · rename_i hminus
      subst hminus
      split at h
      · split at h
        · exact .negativeInfinity h
        · exact .negative h
      · exact .negative h
    split at h
    · exact .number h
    · cases h

end Document

/-! ## Texts that are read -/

/-- The texts of the value hold no surrogates. -/
inductive Value.IsScalar : Value → Prop where
  /-- The null value has no texts. -/
  | null : IsScalar .null
  /-- A truth value has no texts. -/
  | bool (b : Bool) : IsScalar (.bool b)
  /-- An integer has no texts. -/
  | int (n : Int) : IsScalar (.int n)
  /-- A number has no texts. -/
  | float (x : Binary64) : IsScalar (.float x)
  /-- A text is its own. -/
  | string {t : Text} (h : t.IsScalar) : IsScalar (.string t)
  /-- The texts of a list are those of its items. -/
  | list {vs : List Value} (h : ∀ v ∈ vs, IsScalar v) : IsScalar (.list vs)
  /-- The texts of an object are those of its members. -/
  | object {ms : List (Text × Value)} (h : ∀ m ∈ ms, IsScalar m.2) : IsScalar (.object ms)

namespace Document

variable {r : Reader} {item : ItemReader}

/-- A string that is read holds no surrogates. -/
lemma isScalar_of_string {bs rest : Bytes} {t : Text} (h : string bs = .ok (t, rest)) :
    t.IsScalar := by
  unfold string at h
  cases hcontent : stringAfter [] bs bs with
  | error o => simp [hcontent, bind, Except.bind] at h
  | ok content =>
    simp only [hcontent, bind, Except.bind] at h
    cases hdecode : Utf8.decode content.1 with
    | error m => simp [hdecode] at h
    | ok t' =>
      simp only [hdecode, pure, Except.pure, Except.ok.injEq, Prod.mk.injEq] at h
      rw [← h.1]
      exact Utf8.isScalar_of_decode hdecode

/-- A word that is read is the value that it stands for. -/
lemma eq_of_word {v w : Value} {spelling bs rest : Bytes}
    (h : word v spelling bs = .ok (w, rest)) : w = v := by
  induction spelling generalizing bs with
  | nil =>
    rw [word, Except.ok.injEq, Prod.mk.injEq] at h
    exact h.1.symm
  | cons s spelling ih =>
    cases bs with
    | nil => cases h
    | cons b bs =>
      rw [word] at h
      split at h
      · exact ih h
      · cases h

/-- A number that is read has no texts. -/
lemma isScalar_of_number {negative : Bool} {bs rest : Bytes} {v : Value}
    (h : number r negative bs = .ok (v, rest)) : v.IsScalar := by
  unfold number at h
  cases hw : whole (signLength r negative) bs with
  | error o => simp [hw, bind, Except.bind] at h
  | ok w =>
    cases hf : fraction w.2 with
    | error o => simp [hw, hf, bind, Except.bind] at h
    | ok f =>
      cases he : exponent f.2 with
      | error o => simp [hw, hf, he, bind, Except.bind] at h
      | ok e =>
        simp only [hw, hf, he, bind, Except.bind, pure, Except.pure, Except.ok.injEq,
          Prod.mk.injEq] at h
        rw [← h.1, Numeral.value]
        split
        · exact .int _
        · exact .float _

/-- Items hold no surrogates if none of them does. -/
lemma IsItems.isScalar (hitem : ∀ bs v rest, item bs = .ok (v, rest) → v.IsScalar)
    {bs rest : Bytes} {vs : List Value} (h : IsItems item bs vs rest) : ∀ v ∈ vs, v.IsScalar := by
  induction h with
  | last hone hend => exact List.forall_mem_singleton.mpr (hitem _ _ _ hone)
  | cons hone hcomma hmore ih => exact List.forall_mem_cons.mpr ⟨hitem _ _ _ hone, ih⟩

/-- Members hold no surrogates if no value does. -/
lemma IsMembers.isScalar (hitem : ∀ bs v rest, item bs = .ok (v, rest) → v.IsScalar)
    {bs rest : Bytes} {ms : List (Text × Value)} (h : IsMembers item bs ms rest) :
    ∀ m ∈ ms, m.2.IsScalar := by
  have hone : ∀ {bs name v after}, IsMember item bs name v after → v.IsScalar := by
    intro bs name v after hmember
    cases hmember with
    | intro hname hcolon hread => exact hitem _ _ _ hread
  induction h with
  | last hmember hend => exact List.forall_mem_singleton.mpr (hone hmember)
  | cons hmember hcomma hmore ih => exact List.forall_mem_cons.mpr ⟨hone hmember, ih⟩

/-- A value holds no surrogates if none does that stands in it. -/
lemma IsValue.isScalar (hitem : ∀ bs v rest, item bs = .ok (v, rest) → v.IsScalar)
    {bs rest : Bytes} {v : Value} (h : IsValue r item bs v rest) : v.IsScalar := by
  cases h with
  | string h => exact .string (isScalar_of_string h)
  | emptyList h => exact .list (List.forall_mem_nil _)
  | list h => exact .list (h.isScalar hitem)
  | emptyObject h => exact .object (List.forall_mem_nil _)
  | object h => exact .object fun m hm => h.isScalar hitem m (Table.mem_of_mem_ofPairs hm)
  | @word _ s x _ _ hs h =>
    have hscalar : ∀ w ∈ words, w.2.IsScalar := by
      simp only [words, List.forall_mem_cons]
      exact ⟨.null, .bool true, .bool false, .float _, .float _, List.forall_mem_nil _⟩
    rw [eq_of_word h]
    exact hscalar _ hs
  | negativeInfinity h =>
    rw [eq_of_word h]
    exact .float _
  | number h => exact isScalar_of_number h
  | negative h => exact isScalar_of_number h

/-- A value that is read holds no surrogates. -/
lemma isScalar_of_value {budget : Nat} {bs rest : Bytes} {v : Value}
    (h : value r budget bs = .ok (v, rest)) : v.IsScalar := by
  induction budget generalizing bs v rest with
  | zero =>
    refine (isValue_of_valueWith h).isScalar fun bs v rest hitem => ?_
    cases bs <;> cases hitem
  | succ budget ih => exact (isValue_of_valueWith h).isScalar fun _ _ _ => ih

end Document

/-- A document that is read holds no surrogates. -/
theorem isScalar_of_readDocument {bs : Bytes} {v : Value} (h : readDocument r bs = .ok v) :
    v.IsScalar := by
  unfold readDocument at h
  cases hv : Document.value r depthLimit (Document.skip bs) with
  | error o => simp [hv, bind, Except.bind] at h
  | ok r =>
    simp only [hv, bind, Except.bind] at h
    split at h
    · cases h
      exact Document.isScalar_of_value hv
    · cases h

end Json

end EditorDocs
