import EditorDocs.Proofs.Index.Shape
import EditorDocs.Proofs.Json.Complete

/-!
# What is said about a document that is no index

A document that does not have the shape of an index breaks it somewhere: it is no object, it has no list
of entries, an item of this list is no object, or one of the members of an item is missing or no string
(`Index.Breaks`).  These are the violations that are found, each of them once and in the order of the
document (`Index.reports_ofJson`): valid items, and members that an entry does not have, add nothing.

The message names one violation and says how many more there are (`Index.IsSummary`).  It names the first
one, so that no item before the one that it names has any.  This holds of every document within the limits
of the reader (`Index.receive_summary`); about a document beyond them nothing is said but that it cannot
be read (`Index.receive_summary_fails_beyond_limits`).
-/

namespace EditorDocs.Index

open Json (Value Says Means Content Leeway)

/-! ## Places -/

/-- A place in a document that the shape of an index says something about. -/
inductive Place where
  /-- The whole document. -/
  | root
  /-- The list of entries. -/
  | entries
  /-- An item of the list. -/
  | element (i : Nat)
  /-- A member of an item. -/
  | member (i : Nat) (name : Text)
  deriving DecidableEq

namespace Place

/-- How a message names the place. -/
def text : Place → Text
  | .root => "<root>"
  | .entries => "entries"
  | .element i => ("entries." : Text) ++ Text.ofNat i
  | .member i name => ("entries." : Text) ++ Text.ofNat i ++ "." ++ name

/-- The names and positions that lead to the place. -/
def names : Place → List Text
  | .root => []
  | .entries => ["entries"]
  | .element i => ["entries", Text.ofNat i]
  | .member i name => ["entries", Text.ofNat i, name]

/-- The position of the item in which the place is, if it is inside of the list. -/
def position? : Place → Option Nat
  | .root | .entries => none
  | .element i | .member i _ => some i

/-- The first place stands before the second one: in an item before it, or in the same item under a
name that comes before. -/
inductive Before : Place → Place → Prop
  /-- The items stand in this order. -/
  | position {p q : Place} {i j : Nat} (hp : p.position? = some i) (hq : q.position? = some j)
    (h : i < j) : Before p q
  /-- The names come in this order. -/
  | name {i : Nat} {a b : Text} (h : [a, b].Sublist memberNames) : Before (.member i a) (.member i b)

/-- No place stands before itself. -/
lemma not_before_self (p : Place) : ¬ p.Before p := by
  intro h
  cases h with
  | position hp hq h =>
    rw [hp] at hq
    cases hq
    omega
  | name h =>
    have hnodup : memberNames.Nodup := by decide
    simpa using h.nodup hnodup

/-- A place in an item stands before no place in an item before. -/
lemma Before.le {p q : Place} (h : p.Before q) {j : Nat} (hq : q.position? = some j) :
    ∃ i, p.position? = some i ∧ i ≤ j := by
  cases h with
  | position hp hq' h =>
    rw [hq] at hq'
    cases hq'
    exact ⟨_, hp, h.le⟩
  | name _ => exact ⟨_, hq, le_rfl⟩

/-- The names that lead to a place are joined to what a message calls it. -/
lemma join_names (p : Place) :
    (if p.names.isEmpty then ("<root>" : Text) else Text.join "." p.names) = p.text := by
  have hsplit : ("entries." : Text) = ("entries" : Text) ++ ("." : Text) := by decide
  cases p with
  | root => rfl
  | entries => simp [names, text, Text.join]
  | element i => simp [names, text, Text.join, List.intersperse, hsplit]
  | member i name => simp [names, text, Text.join, List.intersperse, hsplit]

end Place

/-! ## Violations -/

/-- What stands under a name of an entry, if anything does, is not what an entry has there. -/
inductive MemberBreaks : Option Value → ShapeFault → Prop
  /-- There is nothing. -/
  | missing : MemberBreaks none .missing
  /-- It is no string. -/
  | notString {v : Value} (h : ∀ t, v ≠ .string t) : MemberBreaks (some v) .notString

/-- The item at position `i` does not have the shape of an entry at a place. -/
inductive EntryBreaks (i : Nat) : Value → Place → ShapeFault → Prop
  /-- It is no object. -/
  | notObject {v : Value} (h : ∀ ms, v ≠ .object ms) : EntryBreaks i v (.element i) .notObject
  /-- It is an object in which something is wrong under one of the names of an entry. -/
  | member {ms : List (Text × Value)} {name : Text} {fault : ShapeFault} (hname : name ∈ memberNames)
    (h : MemberBreaks (Table.get? name ms) fault) :
    EntryBreaks i (.object ms) (.member i name) fault

/-- What stands under the name of the entries, if anything does, is not what an index has there. -/
inductive EntriesBreak : Option Value → Place → ShapeFault → Prop
  /-- There is nothing. -/
  | missing : EntriesBreak none .entries .missing
  /-- It is no list. -/
  | notArray {v : Value} (h : ∀ items, v ≠ .list items) : EntriesBreak (some v) .entries .notArray
  /-- An item of the list does not have the shape of an entry. -/
  | item {items : List Value} {i : Nat} {v : Value} {p : Place} {fault : ShapeFault}
    (hitem : items[i]? = some v) (h : EntryBreaks i v p fault) :
    EntriesBreak (some (.list items)) p fault

/-- A document does not have the shape of an index at a place. -/
inductive Breaks : Value → Place → ShapeFault → Prop
  /-- It is no object. -/
  | notObject {v : Value} (h : ∀ ms, v ≠ .object ms) : Breaks v .root .notObject
  /-- It is an object in which something is wrong with the entries. -/
  | entries {ms : List (Text × Value)} {p : Place} {fault : ShapeFault}
    (h : EntriesBreak (Table.get? ("entries" : Text) ms) p fault) : Breaks (.object ms) p fault

/-- What is wrong with an item is wrong at its position. -/
lemma EntryBreaks.position {i : Nat} {v : Value} {p : Place} {fault : ShapeFault}
    (h : EntryBreaks i v p fault) : p.position? = some i := by
  cases h <;> rfl

/-- What stands under a name is a string if and only if it is what an entry has there. -/
lemma isString_iff_not_breaks (v : Option Value) :
    (∃ t, v = some (.string t)) ↔ ∀ fault, ¬ MemberBreaks v fault := by
  constructor
  · rintro ⟨t, rfl⟩ fault hbreaks
    cases hbreaks with
    | notString h => exact h t rfl
  · intro h
    cases v with
    | none => exact absurd .missing (h _)
    | some v =>
      by_contra hstring
      exact h _ (.notString fun t ht => hstring ⟨t, congrArg some ht⟩)

/-- An item has the shape of an entry if and only if nothing is wrong with it. -/
lemma isEntryShaped_iff_not_breaks {v : Value} (i : Nat) :
    IsEntryShaped v ↔ ∀ p fault, ¬ EntryBreaks i v p fault := by
  constructor
  · intro h p fault hbreaks
    cases hbreaks with
    | notObject hobject =>
      obtain ⟨t, ht⟩ := h "name" (by decide)
      cases v <;> first | cases ht | exact hobject _ rfl
    | member hname hbreaks => exact (isString_iff_not_breaks _).mp (h _ hname) _ hbreaks
  · intro h name hname
    by_cases hobject : ∃ ms, v = .object ms
    · obtain ⟨ms, rfl⟩ := hobject
      exact (isString_iff_not_breaks _).mpr fun fault hbreaks => h _ _ (.member hname hbreaks)
    · exact absurd (.notObject (not_exists.mp hobject)) (h _ _)

/-- A document has the shape of an index if and only if nothing is wrong with it. -/
theorem isIndexShaped_iff_not_breaks {v : Value} :
    IsIndexShaped v ↔ ∀ p fault, ¬ Breaks v p fault := by
  constructor
  · rintro ⟨items, hmember, hshaped⟩ p fault hbreaks
    cases hbreaks with
    | notObject hobject => cases v <;> first | cases hmember | exact hobject _ rfl
    | entries h =>
      rw [show Table.get? _ _ = _ from hmember] at h
      cases h with
      | notArray h => exact h items rfl
      | item hitem h =>
        exact (isEntryShaped_iff_not_breaks _).mp (hshaped _ (List.mem_of_getElem? hitem)) _ _ h
  · intro h
    by_cases hobject : ∃ ms, v = .object ms
    · obtain ⟨ms, rfl⟩ := hobject
      have hentries : ∀ p fault, ¬ EntriesBreak (Table.get? ("entries" : Text) ms) p fault :=
        fun p fault hbreaks => h p fault (.entries hbreaks)
      cases hget : Table.get? ("entries" : Text) ms with
      | none => exact absurd .missing (hget ▸ hentries _ _)
      | some w =>
        rw [hget] at hentries
        by_cases hlist : ∃ items, w = .list items
        · obtain ⟨items, rfl⟩ := hlist
          refine ⟨items, hget, fun item hitem => ?_⟩
          obtain ⟨i, hi⟩ := List.mem_iff_getElem?.mp hitem
          exact (isEntryShaped_iff_not_breaks i).mpr fun p fault hbreaks =>
            hentries p fault (.item hi hbreaks)
        · exact absurd (.notArray (not_exists.mp hlist)) (hentries _ _)
    · exact absurd (.notObject (not_exists.mp hobject)) (h _ _)

/-! ## Reports -/

/-- The violations that are found are these, each of them once, in the order of the document. -/
def Reports (breaks : Place → ShapeFault → Prop) (violations : List Violation) : Prop :=
  ∃ found : List (Place × ShapeFault), (found.Pairwise fun a b => a.1.Before b.1) ∧
    (∀ p fault, (p, fault) ∈ found ↔ breaks p fault) ∧
    violations = found.map fun (p, fault) => ⟨p.names, fault⟩

/-- The violations that a check has found: none if it went well. -/
def found {α : Type} : Except (List Violation) α → List Violation
  | .ok _ => []
  | .error violations => violations

namespace Reports

variable {breaks breaks' : Place → ShapeFault → Prop} {vs ws : List Violation}

/-- Where nothing is wrong, nothing is found. -/
lemma nil (h : ∀ p fault, ¬ breaks p fault) : Reports breaks [] :=
  ⟨[], .nil, fun p fault => iff_of_false List.not_mem_nil (h p fault), rfl⟩

/-- Where one thing is wrong, it is found. -/
lemma single {p : Place} {fault : ShapeFault}
    (h : ∀ q g, breaks q g ↔ q = p ∧ g = fault) : Reports breaks [⟨p.names, fault⟩] := by
  refine ⟨[(p, fault)], List.pairwise_singleton _ _, fun q g => ?_, rfl⟩
  rw [List.mem_singleton, Prod.mk.injEq, h]

/-- What is found in one part and then in another one. -/
lemma append (h : Reports breaks vs) (h' : Reports breaks' ws)
    (hbefore : ∀ p f q g, breaks p f → breaks' q g → p.Before q) :
    Reports (fun p f => breaks p f ∨ breaks' p f) (vs ++ ws) := by
  obtain ⟨xs, horder, hxs, rfl⟩ := h
  obtain ⟨ys, horder', hys, rfl⟩ := h'
  refine ⟨xs ++ ys, List.pairwise_append.mpr ⟨horder, horder', ?_⟩, fun p f => ?_, by simp⟩
  · rintro ⟨p, f⟩ hp ⟨q, g⟩ hq
    exact hbefore p f q g ((hxs p f).mp hp) ((hys q g).mp hq)
  · rw [List.mem_append, hxs, hys]

/-- It does not matter how it is said what is wrong. -/
lemma congr (h : Reports breaks vs) (hiff : ∀ p f, breaks p f ↔ breaks' p f) :
    Reports breaks' vs := by
  obtain ⟨xs, horder, hxs, rfl⟩ := h
  exact ⟨xs, horder, fun p f => (hxs p f).trans (hiff p f), rfl⟩

end Reports

/-! ## What the checks find -/

/-- A member is looked at by itself. -/
lemma reports_field (i : Nat) (ms : List (Text × Value)) (name : Text) :
    Reports (fun p fault => p = .member i name ∧ MemberBreaks (Table.get? name ms) fault)
      (violation? (field ["entries", Text.ofNat i] ms name)) := by
  unfold field
  split
  · rename_i t hget
    refine .nil ?_
    rintro p fault ⟨-, hbreaks⟩
    exact (isString_iff_not_breaks _).mp ⟨t, hget⟩ fault hbreaks
  · rename_i w hother hget
    refine Reports.single (p := .member i name) fun p fault => and_congr_right fun _ => ?_
    rw [hget]
    constructor
    · rintro (_ | _)
      rfl
    · rintro rfl
      exact .notString fun t ht => hother t ht
  · rename_i hget
    refine Reports.single (p := .member i name) fun p fault => and_congr_right fun _ => ?_
    rw [hget]
    constructor
    · rintro (_ | _)
      rfl
    · rintro rfl
      exact .missing

/-- The members of an item are looked at one after the other, and all that is found is kept. -/
lemma found_entryAt_object (i : Nat) (ms : List (Text × Value)) :
    found (entryAt i (.object ms)) =
      violation? (field ["entries", Text.ofNat i] ms "name") ++
        violation? (field ["entries", Text.ofNat i] ms "path") ++
        violation? (field ["entries", Text.ofNat i] ms "type") := by
  rw [entryAt]
  split
  · rename_i hname hpath hkind
    simp only [hname, hpath, hkind]
    rfl
  · rfl

/-- All that is wrong with an item is found. -/
lemma reports_entryAt (i : Nat) (v : Value) : Reports (EntryBreaks i v) (found (entryAt i v)) := by
  by_cases hobject : ∃ ms, v = .object ms
  · obtain ⟨ms, rfl⟩ := hobject
    rw [found_entryAt_object]
    refine (((reports_field i ms "name").append (reports_field i ms "path") ?_).append
      (reports_field i ms "type") ?_).congr fun p fault => ?_
    · rintro _ _ _ _ ⟨rfl, -⟩ ⟨rfl, -⟩
      exact .name (by decide)
    · rintro _ _ _ _ (⟨rfl, -⟩ | ⟨rfl, -⟩) ⟨rfl, -⟩
      · exact .name (by decide)
      · exact .name (by decide)
    · constructor
      · rintro ((⟨rfl, h⟩ | ⟨rfl, h⟩) | ⟨rfl, h⟩) <;> exact .member (by decide) h
      · intro hbreaks
        cases hbreaks with
        | notObject h => exact absurd rfl (h ms)
        | member hname h =>
          simp only [memberNames, List.mem_cons, List.not_mem_nil, or_false] at hname
          rcases hname with rfl | rfl | rfl
          · exact .inl (.inl ⟨rfl, h⟩)
          · exact .inl (.inr ⟨rfl, h⟩)
          · exact .inr ⟨rfl, h⟩
  · have hnone := not_exists.mp hobject
    have hfound : found (entryAt i v) = [⟨Place.names (.element i), .notObject⟩] := by
      cases v <;> first | rfl | exact absurd rfl (hnone _)
    rw [hfound]
    refine .single fun q g => ⟨fun hbreaks => ?_, ?_⟩
    · cases hbreaks with
      | notObject => exact ⟨rfl, rfl⟩
      | member => exact absurd rfl (hnone _)
    · rintro ⟨rfl, rfl⟩
      exact .notObject hnone

/-- The items are looked at one after the other, and all that is found is kept. -/
lemma found_entriesFrom_cons (n : Nat) (v : Value) (items : List Value) :
    found (entriesFrom n (v :: items)) =
      found (entryAt n v) ++ found (entriesFrom (n + 1) items) := by
  rw [entriesFrom]
  cases entryAt n v <;> cases entriesFrom (n + 1) items <;> simp [found]

/-- All that is wrong with the items from a position on is found. -/
lemma reports_entriesFrom (n : Nat) (items : List Value) :
    Reports (fun p fault => ∃ k v, items[k]? = some v ∧ EntryBreaks (n + k) v p fault)
      (found (entriesFrom n items)) := by
  induction items generalizing n with
  | nil =>
    refine .nil ?_
    rintro p fault ⟨k, v, hv, -⟩
    cases hv
  | cons first items ih =>
    rw [found_entriesFrom_cons]
    refine ((reports_entryAt n first).append (ih (n + 1)) ?_).congr fun p fault => ?_
    · -- what is found later is in an item at a higher position
      rintro p f q g hp ⟨k, v, -, hq⟩
      exact .position hp.position hq.position (by omega)
    · constructor
      · rintro (hbreaks | ⟨k, v, hv, hbreaks⟩)
        · exact ⟨0, first, rfl, hbreaks⟩
        · refine ⟨k + 1, v, hv, ?_⟩
          rwa [Nat.add_comm k, ← Nat.add_assoc]
      · rintro ⟨_ | k, v, hv, hbreaks⟩
        · cases hv
          exact .inl hbreaks
        · refine .inr ⟨k, v, hv, ?_⟩
          rwa [Nat.add_assoc, Nat.add_comm 1]

/-- All that is wrong with the entries of an object is found. -/
lemma reports_object (ms : List (Text × Value)) :
    Reports (EntriesBreak (Table.get? ("entries" : Text) ms)) (found (ofJson (.object ms))) := by
  rw [ofJson]
  split
  · rename_i items hget
    have hfound : found ((entriesFrom 0 items).map Index.mk) = found (entriesFrom 0 items) := by
      cases entriesFrom 0 items <;> rfl
    rw [hfound, hget]
    refine (reports_entriesFrom 0 items).congr fun p fault => ?_
    simp only [Nat.zero_add]
    constructor
    · rintro ⟨k, v, hv, hbreaks⟩
      exact .item hv hbreaks
    · rintro (_ | h | ⟨hitem, hbreaks⟩)
      · exact absurd rfl (h items)
      · exact ⟨_, _, hitem, hbreaks⟩
  · rename_i w hother hget
    rw [hget]
    refine Reports.single (p := .entries) fun q g => ⟨?_, ?_⟩
    · rintro (_ | _ | _)
      · exact ⟨rfl, rfl⟩
      · exact absurd rfl (hother _)
    · rintro ⟨rfl, rfl⟩
      exact .notArray fun items hitems => hother items hitems
  · rename_i hget
    rw [hget]
    refine Reports.single (p := .entries) fun q g => ⟨?_, ?_⟩
    · rintro (_ | _ | _)
      exact ⟨rfl, rfl⟩
    · rintro ⟨rfl, rfl⟩
      exact .missing

/-- All that is wrong with a document is found, each once and in the order of the document. -/
theorem reports_ofJson (v : Value) : Reports (Breaks v) (found (ofJson v)) := by
  by_cases hobject : ∃ ms, v = .object ms
  · obtain ⟨ms, rfl⟩ := hobject
    refine (reports_object ms).congr fun p fault => ⟨.entries, fun hbreaks => ?_⟩
    cases hbreaks with
    | notObject h => exact absurd rfl (h ms)
    | entries h => exact h
  · have hnone := not_exists.mp hobject
    have hfound : found (ofJson v) = [⟨Place.names .root, .notObject⟩] := by
      cases v <;> first | rfl | exact absurd rfl (hnone _)
    rw [hfound]
    refine .single fun q g => ⟨fun hbreaks => ?_, ?_⟩
    · cases hbreaks with
      | notObject => exact ⟨rfl, rfl⟩
      | entries => exact absurd rfl (hnone _)
    · rintro ⟨rfl, rfl⟩
      exact .notObject hnone

/-! ## The message -/

/-- So many things are wrong with a document. -/
def HasViolations (v : Value) (k : Nat) : Prop :=
  ∃ found : List (Place × ShapeFault), (found.map Prod.fst).Nodup ∧
    (∀ p fault, (p, fault) ∈ found ↔ Breaks v p fault) ∧ found.length = k

/-- The message says of `k` violations of a document from a source the one at `p`, and no item before
`p` has one. -/
structure IsSummary (source : Text) (v : Value) (k : Nat) (p : Place) (fault : ShapeFault)
    (message : Text) : Prop where
  /-- There are so many violations. -/
  count : HasViolations v k
  /-- One of them is the one at `p`. -/
  breaks : Breaks v p fault
  /-- If there is one in an item, then `p` is in an item, and in none behind it. -/
  smallest : ∀ q fault' j, Breaks v q fault' → q.position? = some j →
    ∃ i, p.position? = some i ∧ i ≤ j
  /-- The message names the source, the place and what is wrong there, and how many more there are. -/
  wording : message = ("failed to decode " : Text) ++ source ++ ": " ++ p.text ++ ": " ++
    fault.message ++ (if 1 < k then (" (+" : Text) ++ Text.ofNat (k - 1) ++ " more)" else [])

/-- What is found is counted, and the first of it stands before the rest. -/
lemma exists_first {v : Value} {violations : List Violation} (h : Reports (Breaks v) violations)
    (hv : ¬ IsIndexShaped v) :
    ∃ p fault rest, violations = ⟨p.names, fault⟩ :: rest ∧ HasViolations v (rest.length + 1) ∧
      Breaks v p fault ∧ ∀ q fault', Breaks v q fault' → q = p ∨ p.Before q := by
  obtain ⟨xs, horder, hxs, rfl⟩ := h
  have hnodup : (xs.map Prod.fst).Nodup := by
    rw [List.nodup_iff_pairwise_ne, List.pairwise_map]
    refine horder.imp fun {a b} hbefore heq => ?_
    rw [heq] at hbefore
    exact b.1.not_before_self hbefore
  cases xs with
  | nil =>
    refine absurd (isIndexShaped_iff_not_breaks.mpr fun p fault hbreaks => ?_) hv
    exact List.not_mem_nil ((hxs p fault).mpr hbreaks)
  | cons x xs =>
    obtain ⟨p, fault⟩ := x
    refine ⟨p, fault, _, rfl, ⟨_, hnodup, hxs, by simp⟩, (hxs p fault).mp List.mem_cons_self, ?_⟩
    intro q fault' hbreaks
    rcases List.mem_cons.mp ((hxs q fault').mpr hbreaks) with hfirst | hlater
    · exact .inl (Prod.mk.inj hfirst).1
    · exact .inr ((List.pairwise_cons.mp horder).1 _ hlater)

/-- A document that is no index is refused, and what is found in it is summed up. -/
lemma exists_isSummary {v : Value} (hv : ¬ IsIndexShaped v) (source : Text) :
    ∃ violations k p fault, ofJson v = .error violations ∧
      IsSummary source v k p fault (Failure.malformed source (summarize violations)).message := by
  cases hjson : ofJson v with
  | ok i => exact absurd (isIndexShaped_iff.mpr ⟨i, ofJson_eq_ok.mp hjson⟩) hv
  | error violations =>
    have hreports : Reports (Breaks v) violations := by
      have h := reports_ofJson v
      rwa [hjson] at h
    obtain ⟨p, fault, rest, rfl, hcount, hbreaks, hfirst⟩ := exists_first hreports hv
    refine ⟨_, _, p, fault, rfl, hcount, hbreaks, fun q fault' j hq hj => ?_, ?_⟩
    · rcases hfirst q fault' hq with rfl | hbefore
      · exact ⟨j, hj, le_rfl⟩
      · exact hbefore.le hj
    · have hmore : (if rest.length = 0 then ([] : Text)
          else (" (+" : Text) ++ Text.ofNat rest.length ++ " more)") =
          if 1 < rest.length + 1 then (" (+" : Text) ++ Text.ofNat (rest.length + 1 - 1) ++ " more)"
          else [] := by
        cases rest with
        | nil => rfl
        | cons => simp
      rw [Failure.message, summarize, summary, Place.join_names, hmore]
      simp only [List.append_assoc]

/-- A document within the limits of the reader that does not repeat names and is no index is refused
with a summary of what is wrong with it, whether it comes as bytes or as a text. -/
theorem receive_summary (r : Json.Reader) (source : Text) {t : Text} {v : Value} (ht : t.IsScalar)
    (h : Says ⟨Json.wholeLimit, r.countsSign, false, false⟩ Json.depthLimit t v) (hv : ¬ IsIndexShaped v) :
    ∃ reason k p fault, receive r source (Utf8.encodeAll t) = .error (.malformed source reason) ∧
      receiveText r source t = .error (.malformed source reason) ∧
      IsSummary source v k p fault (Failure.malformed source reason).message := by
  obtain ⟨violations, k, p, fault, hjson, hsummary⟩ := exists_isSummary hv source
  have hreceive : receive r source (Utf8.encodeAll t) =
      .error (.malformed source (summarize violations)) := by
    rw [receive_of_readDocument (Json.readDocument_eq_ok h ht), hjson]
    rfl
  exact ⟨_, k, p, fault, hreceive, (receiveText_eq ht source).trans hreceive, hsummary⟩

/-- One item has a path that is a number, and neither a label nor a category. -/
theorem receive_summary_sample :
    ∃ (r : Json.Reader) (t : Text) (v : Value), t = "\x7b\"entries\":[\x7b\"path\":1\x7d]\x7d" ∧
      Says ⟨Json.wholeLimit, r.countsSign, false, false⟩ Json.depthLimit t v ∧ ¬ IsIndexShaped v ∧
      receive r "index.json" (Utf8.encodeAll t) =
        .error (.malformed "index.json" "entries.0.name: Field required (+2 more)") ∧
      ∃ k p fault, IsSummary "index.json" v k p fault
        "failed to decode index.json: entries.0.name: Field required (+2 more)" := by
  let r : Json.Reader := ⟨true⟩
  have hnumber : Json.NumberMeans Json.wholeLimit r.countsSign "1" (.int 1) :=
    @Json.NumberMeans.intro _ _ [] "1" [] [] none none (.inl rfl) ⟨⟨by decide, by decide⟩, by decide⟩
      (by decide) .none .none
  have hpath : Means ⟨Json.wholeLimit, r.countsSign, false, false⟩ (Json.depthLimit - 2)
      (Json.tagged "path" "1") (.value (.object [("path", .int 1)])) := (Means.number hnumber).tagged (by decide)
  have hdocument := (hpath.bracketed.tagged (show ∀ c ∈ ("entries" : Text), _ by decide)).document
  have hshape : ¬ IsIndexShaped (.object [("entries", .list [.object [("path", .int 1)]])]) := by
    rintro ⟨items, hitems, hshaped⟩
    cases hitems
    obtain ⟨t, ht⟩ := hshaped _ List.mem_cons_self "name" (by decide)
    cases ht
  obtain ⟨reason, k, p, fault, hreceive, -, hsummary⟩ :=
    receive_summary r "index.json" (by decide) hdocument hshape
  have hreason : receive r "index.json" (Utf8.encodeAll
      (Json.tagged "entries" (Json.bracketed (Json.tagged "path" "1")))) =
      .error (.malformed "index.json" "entries.0.name: Field required (+2 more)") := by decide +kernel
  rw [hreason] at hreceive
  cases hreceive
  exact ⟨r, _, _, by decide, hdocument, hshape, hreason, k, p, fault, hsummary⟩

/-! ## Beyond the limits -/

/-- A list in a list, so many times, around one that is empty. -/
def nested : Nat → Text
  | 0 => "[]"
  | n + 1 => Json.bracketed (nested n)

/-- Lists in lists are nested so deep. -/
lemma exists_means_nested (l : Leeway) (n : Nat) : ∃ v, Means l n (nested n) (.value v) := by
  induction n with
  | zero => exact ⟨.list [], .emptyList (List.forall_mem_nil _)⟩
  | succ n ih =>
    obtain ⟨v, hv⟩ := ih
    exact ⟨_, hv.bracketed⟩

/-- Half of a surrogate pair, escaped by itself. -/
def halfPair : Text := "\"\\ud800\""

/-- It is a string, if it may be. -/
lemma exists_means_halfPair {l : Leeway} (hl : l.lone = true) (n : Nat) :
    ∃ v, Means l n halfPair (.value v) := by
  have hunit : Json.SpellsUnit ("d800" : Text) 0xD800 :=
    .intro (i := 13) (j := 8) (k := 0) (l := 0) (by decide) (by decide) (by decide) (by decide)
  have hlast : ¬ (0xD800 < 0xDC00 ∧ Json.BeginsLow []) := by
    rintro ⟨-, digits, n, rest, -, -, -, hempty⟩
    cases hempty
  have htext : halfPair =
      ("\"" : Text) ++ (("\\u" : Text) ++ ("d800" : Text) ++ []) ++ ("\"" : Text) := by decide
  rw [htext]
  exact ⟨_, .string (.intro (.half hl hunit (by decide) hlast .nil))⟩

/-- A number with so many digits. -/
def ones (n : Nat) : Text := List.replicate n ('1' : CodePoint)

/-- It is a number, if it may have so many, also behind a minus sign that does not count as one. -/
lemma exists_means_ones {l : Leeway} (hl : 0 < l.digits) (hsigned : l.signed = false) {sign : Text}
    (hsign : sign = [] ∨ sign = "-") (n : Nat) :
    ∃ v, Means l n (sign ++ ones l.digits) (.value v) := by
  have hne : ones l.digits ≠ [] := by
    rw [ones, Ne, List.replicate_eq_nil_iff]
    omega
  have hone : ∀ c ∈ ones l.digits, c = ('1' : CodePoint) := fun c => List.eq_of_mem_replicate
  have hdigits : ∀ c ∈ ones l.digits, c.isDigit = true := by
    intro c hc
    rw [hone c hc]
    decide
  have hplain : (ones l.digits).head? = some ('0' : CodePoint) → ones l.digits = "0" := fun hhead =>
    absurd (hone _ (List.mem_of_head? hhead)) (by decide)
  have hnumber := @Json.NumberMeans.intro l.digits l.signed sign (ones l.digits) [] [] none none hsign
    ⟨⟨hne, hdigits⟩, hplain⟩ (by simp [ones, hsigned]) .none .none
  exact ⟨_, .number (by simpa using hnumber)⟩

/-- What is said about a document that is not read names nothing in it. -/
lemma not_isSummary (source rest : Text) (v : Value) (k : Nat) (p : Place) (fault : ShapeFault) :
    ¬ IsSummary source v k p fault
      (Failure.malformed source (("<root>: Invalid JSON: " : Text) ++ rest)).message := by
  intro h
  have hwording := h.wording
  simp only [Failure.message, List.append_assoc, List.append_cancel_left_eq] at hwording
  -- the first character tells the places apart, and the eleventh one the faults of the root
  have hfirst := congrArg List.head? hwording
  have heleventh := congrArg (fun t => t[10]?) hwording
  cases p with
  | root => cases fault <;> exact absurd (Option.some.inj heleventh) (by decide)
  | _ => exact absurd (Option.some.inj hfirst) (by decide)

/-- A document that is not read is refused with the reason why. -/
lemma receive_of_not_isOk {r : Json.Reader} {payload : Bytes}
    (h : (Json.readDocument r payload).isOk = false) (source : Text) : ∃ rest : Text,
      receive r source payload = .error (.malformed source (("<root>: Invalid JSON: " : Text) ++ rest)) := by
  cases hread : Json.readDocument r payload with
  | ok v =>
    rw [hread] at h
    cases h
  | error o =>
    unfold receive decode
    rw [hread]
    exact ⟨_, rfl⟩

/-- The text is a document that repeats no names and is no index, but the reader refuses it with
something else than a summary of what is wrong with it. -/
structure IsRefusedOtherwise (r : Json.Reader) (source t : Text) : Prop where
  /-- It is such a document, if all else is permitted. -/
  document : ∃ digits depth v, Says ⟨digits, false, true, false⟩ depth t v ∧ ¬ IsIndexShaped v
  /-- What it is refused with is no summary. -/
  refused : ∃ reason, receive r source (Utf8.encodeAll t) = .error (.malformed source reason) ∧
    ∀ v k p fault, ¬ IsSummary source v k p fault (Failure.malformed source reason).message

/-- So is an object whose one member is not read and has another name than the entries. -/
lemma isRefusedOtherwise_of_means {r : Json.Reader} {digits depth : Nat} {t : Text} {v : Value}
    (h : Means ⟨digits, false, true, false⟩ depth t (.value v)) (source : Text)
    (hunread : (Json.readDocument r (Utf8.encodeAll (Json.tagged "x" t))).isOk = false) :
    IsRefusedOtherwise r source (Json.tagged "x" t) where
  document := by
    refine ⟨digits, depth + 1, _, (h.tagged (by decide)).document, ?_⟩
    rintro ⟨items, hitems, -⟩
    cases hitems
  refused := by
    obtain ⟨rest, hreceive⟩ := receive_of_not_isOk hunread source
    exact ⟨_, hreceive, not_isSummary source rest⟩

/-- Documents beyond the limits of the reader are refused otherwise: nested too deep, with half of a
surrogate pair, and with too many digits.  A minus sign is one digit too many for a reader that counts
it. -/
theorem receive_summary_fails_beyond_limits :
    (∀ r, IsRefusedOtherwise r "SRC" (Json.tagged "x" (nested 200)) ∧
      IsRefusedOtherwise r "SRC" (Json.tagged "x" halfPair) ∧
      IsRefusedOtherwise r "SRC" (Json.tagged "x" (ones 4301))) ∧
    IsRefusedOtherwise ⟨true⟩ "SRC" (Json.tagged "x" ("-" ++ ones 4300)) := by
  obtain ⟨_, hnested⟩ := exists_means_nested ⟨0, false, true, false⟩ 200
  obtain ⟨_, hhalf⟩ := exists_means_halfPair (l := ⟨0, false, true, false⟩) rfl 0
  obtain ⟨_, hones⟩ := exists_means_ones (l := ⟨4301, false, true, false⟩) (by decide) rfl (.inl rfl) 0
  obtain ⟨_, hminus⟩ := exists_means_ones (l := ⟨4300, false, true, false⟩) (by decide) rfl (.inr rfl) 0
  refine ⟨fun r => ⟨isRefusedOtherwise_of_means hnested _ ?_, isRefusedOtherwise_of_means hhalf _ ?_,
    isRefusedOtherwise_of_means hones _ ?_⟩, isRefusedOtherwise_of_means hminus _ (by decide +kernel)⟩
  all_goals
    obtain ⟨_ | _⟩ := r
    · decide +kernel
    · decide +kernel

end EditorDocs.Index
