import EditorDocs.Proofs.Index.RoundTrip
import EditorDocs.Proofs.Json.Valid
import Mathlib.Data.List.Forall2

/-!
# The shape of an index

A document has the shape of an index if it is an object whose member `entries` is a list of objects
with the string members `name`, `path` and `type` (`Index.IsIndexShaped`).  Such documents are accepted
and no others, and what is received has one entry for every item, in their order, with these three
strings (`Index.ofJson_eq_ok`).  All other members are ignored, wherever they stand: documents that
agree on those that matter are received alike (`Index.ofJson_of_alike`).

The shape is checked from the inside to the outside, of a member (`Index.field_eq_ok`), of an entry
(`Index.entryAt_eq_ok`) and of the list of entries (`Index.entriesFrom_eq_ok`).
-/

namespace EditorDocs.Index

open Json (Value)

/-! ## Shapes -/

/-- The names of the members of an entry. -/
def memberNames : List Text := ["name", "path", "type"]

/-- The value is an object with the members of an entry, which are strings. -/
def IsEntryShaped (v : Value) : Prop :=
  ∀ name ∈ memberNames, ∃ t, v.member? name = some (.string t)

/-- The value is an object whose member `entries` is a list of such objects. -/
def IsIndexShaped (v : Value) : Prop :=
  ∃ items, v.member? "entries" = some (.list items) ∧ ∀ item ∈ items, IsEntryShaped item

/-- The value is an object in which the strings of the entry stand under their names. -/
structure HoldsEntry (v : Value) (e : Entry) : Prop where
  /-- The label stands in it. -/
  name : v.member? "name" = some (.string e.name)
  /-- The place of the document stands in it. -/
  path : v.member? "path" = some (.string e.path)
  /-- The category stands in it. -/
  kind : v.member? "type" = some (.string e.kind)

/-- The value is an object whose member `entries` lists the entries of the index in their order, one
item for each. -/
def Holds (v : Value) (i : Index) : Prop :=
  ∃ items, v.member? "entries" = some (.list items) ∧ List.Forall₂ HoldsEntry items i.entries

/-- An object has the shape of an entry if and only if it holds one. -/
lemma isEntryShaped_iff {v : Value} : IsEntryShaped v ↔ ∃ e, HoldsEntry v e := by
  constructor
  · intro h
    obtain ⟨name, hname⟩ := h "name" (by decide)
    obtain ⟨path, hpath⟩ := h "path" (by decide)
    obtain ⟨kind, hkind⟩ := h "type" (by decide)
    exact ⟨⟨name, path, kind⟩, hname, hpath, hkind⟩
  · rintro ⟨e, hname, hpath, hkind⟩
    exact List.forall_mem_cons.mpr ⟨⟨_, hname⟩, List.forall_mem_cons.mpr ⟨⟨_, hpath⟩,
      List.forall_mem_singleton.mpr ⟨_, hkind⟩⟩⟩

/-- Items all have the shape of an entry if and only if they hold entries. -/
lemma forall_isEntryShaped_iff {items : List Value} :
    (∀ item ∈ items, IsEntryShaped item) ↔ ∃ es, List.Forall₂ HoldsEntry items es := by
  induction items with
  | nil => exact ⟨fun _ => ⟨[], .nil⟩, fun _ => List.forall_mem_nil _⟩
  | cons item items ih =>
    rw [List.forall_mem_cons, ih, isEntryShaped_iff]
    constructor
    · rintro ⟨⟨e, he⟩, es, hes⟩
      exact ⟨e :: es, .cons he hes⟩
    · rintro ⟨_, h⟩
      obtain ⟨e, es, he, hes, -⟩ := List.forall₂_cons_left_iff.mp h
      exact ⟨⟨e, he⟩, es, hes⟩

/-- A document has the shape of an index if and only if it holds one. -/
theorem isIndexShaped_iff {v : Value} : IsIndexShaped v ↔ ∃ i, Holds v i := by
  constructor
  · rintro ⟨items, hitems, hshaped⟩
    obtain ⟨es, hes⟩ := forall_isEntryShaped_iff.mp hshaped
    exact ⟨⟨es⟩, items, hitems, hes⟩
  · rintro ⟨i, items, hitems, hes⟩
    exact ⟨items, hitems, forall_isEntryShaped_iff.mpr ⟨i.entries, hes⟩⟩

/-! ## Checking -/

/-- A member is accepted if and only if it is there and a string. -/
lemma field_eq_ok {place : List Text} {members : List (Text × Value)} {name t : Text} :
    field place members name = .ok t ↔ Table.get? name members = some (.string t) := by
  unfold field
  split
  · rename_i hget
    rw [hget]
    simp
  · rename_i hother hget
    rw [hget]
    simpa using hother t
  · rename_i hget
    rw [hget]
    simp

/-- An entry is accepted if and only if the item holds it. -/
lemma entryAt_eq_ok {n : Nat} {v : Value} {e : Entry} :
    entryAt n v = .ok e ↔ HoldsEntry v e := by
  cases v with
  | object members =>
    rw [entryAt]
    constructor
    · intro h
      split at h
      · rename_i hname hpath hkind
        cases h
        exact ⟨field_eq_ok.mp hname, field_eq_ok.mp hpath, field_eq_ok.mp hkind⟩
      · cases h
    · rintro ⟨hname, hpath, hkind⟩
      simp only [field_eq_ok.mpr hname, field_eq_ok.mpr hpath, field_eq_ok.mpr hkind]
  | _ =>
    constructor
    · intro h
      cases h
    · intro h
      cases h.name

/-- Entries are accepted if and only if the items hold them, in their order. -/
lemma entriesFrom_eq_ok {n : Nat} {items : List Value} {es : List Entry} :
    entriesFrom n items = .ok es ↔ List.Forall₂ HoldsEntry items es := by
  induction items generalizing n es with
  | nil =>
    rw [entriesFrom, List.forall₂_nil_left_iff, Except.ok.injEq]
    exact eq_comm
  | cons item items ih =>
    rw [entriesFrom]
    constructor
    · intro h
      split at h
      · rename_i hone hmore
        cases h
        exact .cons (entryAt_eq_ok.mp hone) (ih.mp hmore)
      · cases h
      · cases h
      · cases h
    · rintro (_ | ⟨hone, hmore⟩)
      simp only [entryAt_eq_ok.mpr hone, ih.mpr hmore]

/-- An index is accepted if and only if the document holds it. -/
theorem ofJson_eq_ok {v : Value} {i : Index} : ofJson v = .ok i ↔ Holds v i := by
  cases v with
  | object members =>
    rw [ofJson]
    constructor
    · intro h
      split at h
      · rename_i items hget
        obtain ⟨es, hes, rfl⟩ := Result.of_map h
        exact ⟨items, hget, entriesFrom_eq_ok.mp hes⟩
      · cases h
      · cases h
    · rintro ⟨items, hget, hes⟩
      have hget : Table.get? ("entries" : Text) members = some (.list items) := hget
      simp only [hget, entriesFrom_eq_ok.mpr hes]
      rfl
  | _ =>
    constructor
    · intro h
      cases h
    · rintro ⟨items, hmember, -⟩
      cases hmember

/-! ## Other members -/

/-- The items are the same, or objects that differ only in members that an entry does not have. -/
inductive AlikeEntry : Value → Value → Prop
  /-- They are the same. -/
  | refl (v : Value) : AlikeEntry v v
  /-- They are objects that agree on the members of an entry. -/
  | object {ms ms' : List (Text × Value)}
    (h : ∀ name ∈ memberNames, Table.get? name ms = Table.get? name ms') :
    AlikeEntry (.object ms) (.object ms')

/-- The documents are the same, or objects that differ only in members beside `entries` and in members
of its items that an entry does not have. -/
inductive Alike : Value → Value → Prop
  /-- They are the same. -/
  | refl (v : Value) : Alike v v
  /-- They are objects that agree on `entries`. -/
  | beside {ms ms' : List (Text × Value)}
    (h : Table.get? ("entries" : Text) ms = Table.get? ("entries" : Text) ms') :
    Alike (.object ms) (.object ms')
  /-- They are objects whose items are alike. -/
  | within {ms ms' : List (Text × Value)} {items items' : List Value}
    (h : Table.get? ("entries" : Text) ms = some (.list items))
    (h' : Table.get? ("entries" : Text) ms' = some (.list items'))
    (hitems : List.Forall₂ AlikeEntry items items') : Alike (.object ms) (.object ms')

/-- Items that are alike are accepted as the same entry, or refused for the same reasons. -/
lemma entryAt_of_alike {v w : Value} (h : AlikeEntry v w) (n : Nat) : entryAt n v = entryAt n w := by
  cases h with
  | refl => rfl
  | @object ms ms' h =>
    have hfield : ∀ name ∈ memberNames, ∀ place, field place ms name = field place ms' name := by
      intro name hname place
      rw [field, h name hname, ← field]
    rw [entryAt, entryAt]
    simp only [hfield "name" (by decide), hfield "path" (by decide), hfield "type" (by decide)]

/-- Lists of items that are alike are accepted as the same entries, or refused for the same reasons. -/
lemma entriesFrom_of_alike {items items' : List Value} (h : List.Forall₂ AlikeEntry items items')
    (n : Nat) : entriesFrom n items = entriesFrom n items' := by
  induction h generalizing n with
  | nil => rfl
  | cons hone _ ih => rw [entriesFrom, entriesFrom, entryAt_of_alike hone, ih]

/-- Documents that are alike are accepted as the same index, or refused for the same reasons. -/
theorem ofJson_of_alike {v w : Value} (h : Alike v w) : ofJson v = ofJson w := by
  cases h with
  | refl => rfl
  | beside h => rw [ofJson, ofJson, h]
  | within h h' hitems =>
    rw [ofJson, ofJson]
    simp only [h, h', entriesFrom_of_alike hitems]

/-! ## Receiving -/

variable {r : Json.Reader}

/-- A document that is read is received if its shape is accepted. -/
lemma receive_of_readDocument {payload : Bytes} {v : Value} (hread : Json.readDocument r payload = .ok v)
    (source : Text) : receive r source payload =
      (ofJson v).mapError fun violations => Failure.malformed source (summarize violations) := by
  unfold receive decode
  rw [hread]
  simp only
  cases ofJson v <;> rfl

/-- A document that is read is received as the index that it holds. -/
lemma receive_eq_ok {payload : Bytes} {v : Value} (hread : Json.readDocument r payload = .ok v)
    (source : Text) {i : Index} : receive r source payload = .ok i ↔ Holds v i := by
  rw [receive_of_readDocument hread, ← ofJson_eq_ok]
  constructor
  · intro h
    cases hshape : ofJson v with
    | error violations =>
      rw [hshape] at h
      cases h
    | ok j =>
      rw [hshape] at h
      cases h
      rfl
  · intro h
    rw [h]
    rfl

/-- What is not received is malformed, and comes from the source. -/
lemma eq_malformed_of_receive {source : Text} {payload : Bytes} {f : Failure}
    (h : receive r source payload = .error f) : ∃ reason, f = .malformed source reason := by
  unfold receive at h
  split at h
  · cases h
  · rename_i reason _
    cases h
    exact ⟨reason, rfl⟩

/-- Bytes that are not read as a document are not received. -/
lemma receive_of_unreadable {payload : Bytes} (h : ∀ v, Json.readDocument r payload ≠ .ok v)
    (source : Text) : ∃ reason, receive r source payload = .error (.malformed source reason) := by
  cases hreceive : receive r source payload with
  | error f =>
    obtain ⟨reason, rfl⟩ := eq_malformed_of_receive hreceive
    exact ⟨reason, rfl⟩
  | ok i =>
    unfold receive decode at hreceive
    cases hread : Json.readDocument r payload with
    | error o =>
      rw [hread] at hreceive
      cases hreceive
    | ok v => exact absurd hread (h v)

/-- A text without surrogates is received as its bytes are. -/
lemma receiveText_eq {t : Text} (ht : t.IsScalar) (source : Text) :
    receiveText r source t = receive r source (Utf8.encodeAll t) := by
  rw [receiveText, decodeText, Utf8.encode_eq_ok ht]
  rfl

/-- A payload that is a document is received if and only if this has the shape of an index, as the
index that it holds, whatever else it holds.  Any other payload is refused as malformed, with its
source, and so is one that is not UTF-8.  Texts are received as their bytes are. -/
theorem receive_shape (r : Json.Reader) (source : Text) (payload : Bytes) :
    (∀ v, Json.readDocument r payload = .ok v →
      ((∃ i, receive r source payload = .ok i) ↔ IsIndexShaped v) ∧
      (∀ i, receive r source payload = .ok i ↔ Holds v i) ∧
      ∀ other w, Json.readDocument r other = .ok w → Alike v w →
        receive r source other = receive r source payload) ∧
    (∀ f, receive r source payload = .error f → ∃ reason, f = .malformed source reason) ∧
    ((∀ v, Json.readDocument r payload ≠ .ok v) ∨ ¬ Utf8.IsValid payload →
      ∃ reason, receive r source payload = .error (.malformed source reason)) ∧
    ∀ t : Text, t.IsScalar → Utf8.encodeAll t = payload →
      receiveText r source t = receive r source payload := by
  refine ⟨fun v hread => ?_, fun f => eq_malformed_of_receive, fun h => ?_, ?_⟩
  · have hok : ∀ i, receive r source payload = .ok i ↔ Holds v i := fun _ =>
      receive_eq_ok hread source
    refine ⟨?_, hok, fun other w hother halike => ?_⟩
    · rw [isIndexShaped_iff]
      exact exists_congr hok
    · rw [receive_of_readDocument hread, receive_of_readDocument hother, ofJson_of_alike halike]
  · refine receive_of_unreadable (fun v hread => ?_) source
    rcases h with hunread | hinvalid
    · exact hunread v hread
    · exact hinvalid (Json.isValid_of_readDocument hread)
  · rintro t ht rfl
    exact receiveText_eq ht source

/-- An index is read with another member before its entries. -/
lemma readDocument_beside {i : Index} (hi : i.IsScalar) {name : Text} (hname : name.IsScalar)
    (hne : name ≠ "entries") {v : Value}
    (hv : Json.Document.Reads (Json.Document.value r (Json.depthLimit - 1)) v) :
    Json.readDocument r (Utf8.encodeAll (Value.render .compact
        (.object [(name, v), ("entries", .list (i.entries.map Entry.toJson))]))) =
      .ok (.object [(name, v), ("entries", .list (i.entries.map Entry.toJson))]) := by
  have hentries : ("entries" : Text).IsScalar := by decide
  refine Json.readDocument_render (Json.Document.reads_object (by simpa [Table.keys] using hne) ?_)
  exact List.forall_mem_cons.mpr ⟨⟨hname, hv⟩,
    List.forall_mem_singleton.mpr ⟨hentries, reads_entries hi⟩⟩

/-- An index with one entry is received, also with a list of types before it; nothing is not received,
and neither are bytes that are not UTF-8. -/
theorem receive_shape_sample :
    ∃ (r : Json.Reader) (i : Index) (payload other : Bytes), i = ⟨[⟨"map", "fn/map", "function"⟩]⟩ ∧
      Json.readDocument r payload = .ok i.toJson ∧
      receive r "index.json" payload = .ok i ∧
      Json.readDocument r other =
        .ok (.object [("types", .list []), ("entries", .list (i.entries.map Entry.toJson))]) ∧
      receive r "index.json" other = receive r "index.json" payload ∧
      (∃ reason, receive r "index.json" [] = .error (.malformed "index.json" reason)) ∧
      (∃ reason, receive r "index.json" [0xFF] = .error (.malformed "index.json" reason)) := by
  have hscalar : Index.IsScalar ⟨[⟨"map", "fn/map", "function"⟩]⟩ := by decide
  let r : Json.Reader := ⟨true⟩
  have hread := Json.readDocument_render (r := r) (reads_toJson hscalar)
  have hname : Text.IsScalar "types" := by decide
  have hnone : Json.Document.Reads (Json.Document.value r (Json.depthLimit - 1)) (.list []) :=
    Json.Document.reads_list (List.forall_mem_nil _)
  have hbeside := readDocument_beside hscalar hname (by decide) hnone
  obtain ⟨-, hholds, halike⟩ := (receive_shape r "index.json" _).1 _ hread
  have hinvalid : ¬ Utf8.IsValid [0xFF] := by
    rw [Utf8.isValid_iff_decode]
    rintro ⟨t, ht⟩
    cases ht
  refine ⟨r, _, _, _, rfl, hread, (hholds _).mpr (ofJson_eq_ok.mp (ofJson_toJson _)), hbeside,
    halike _ _ hbeside (.beside rfl), ?_, ?_⟩
  · exact (receive_shape r "index.json" []).2.2.1 (.inl fun v h => by cases h)
  · exact (receive_shape r "index.json" [0xFF]).2.2.1 (.inr hinvalid)

end EditorDocs.Index
