import EditorDocs.Index.Decode
import EditorDocs.Proofs.Json.Document
import EditorDocs.Proofs.Text.Digits

/-!
# Indices that are written and read

An index whose texts hold no surrogates is read back from its record, as bytes and as text, with its
entries in their order (`Index.decode_render`, `Index.decodeText_render`).  Conversely the texts of
an index that was read hold no surrogates (`Index.isScalar_of_decode`), so every index that was
received can be recorded.
-/

namespace EditorDocs

/-! ## Texts without surrogates -/

namespace Text

/-- Joined texts hold no surrogates if neither does. -/
lemma IsScalar.append {a b : Text} (ha : a.IsScalar) (hb : b.IsScalar) : (a ++ b).IsScalar := by
  intro c hc
  rcases List.mem_append.mp hc with h | h
  · exact ha c h
  · exact hb c h

/-- A text of ASCII holds no surrogates. -/
lemma isScalar_of_lt {t : Text} (h : ∀ c ∈ t, c.val < 0x80) : t.IsScalar := by
  intro c hc
  have hlt := h c hc
  simp only [CodePoint.isSurrogate, Bool.and_eq_false_iff, decide_eq_false_iff_not]
  omega

end Text

namespace Json

/-- An escape of a unit holds no surrogates. -/
lemma isScalar_escapeUnit (n : Nat) : (escapeUnit n).IsScalar := by
  refine Text.IsScalar.append (by decide) (Text.isScalar_of_lt ?_)
  intro c hc
  have := Text.isPrintable_ofHex 4 n c hc
  omega

/-- A character that is no surrogate is written without one. -/
lemma isScalar_escapeOne {c : CodePoint} (h : c.isSurrogate = false) :
    (escapeOne false c).IsScalar := by
  unfold escapeOne
  cases hshort : shortEscape? c with
  | some t => exact (Document.shortEscape?_eq_some hshort).1
  | none =>
    by_cases hcontrol : c.val < 0x20
    · simp only [hcontrol, if_true]
      exact isScalar_escapeUnit c.val
    · simp only [hcontrol, if_false, Bool.not_false, Bool.true_or, if_true]
      intro d hd
      rw [List.mem_singleton.mp hd]
      exact h

/-- A text without surrogates is quoted without them. -/
lemma isScalar_quote {t : Text} (ht : t.IsScalar) : (quote false t).IsScalar := by
  refine Text.IsScalar.append (Text.IsScalar.append (by decide) ?_) (by decide)
  intro c hc
  obtain ⟨d, hd, hmem⟩ := List.mem_flatMap.mp hc
  exact isScalar_escapeOne (ht d hd) c hmem

/-- The rest of a list is written without surrogates if the items are. -/
lemma isScalar_renderItems {vs : List Value} (isFirst : Bool)
    (h : ∀ v ∈ vs, (v.render .compact).IsScalar) : (renderItems .compact isFirst vs).IsScalar := by
  induction vs generalizing isFirst with
  | nil =>
    rw [renderItems]
    decide
  | cons v vs ih =>
    rw [renderItems]
    refine Text.IsScalar.append (Text.IsScalar.append ?_ (h v List.mem_cons_self))
      (ih false fun w hw => h w (List.mem_cons_of_mem v hw))
    cases isFirst <;> decide

end Json

namespace Entry

/-- The texts of the entry hold no surrogates. -/
def IsScalar (e : Entry) : Prop := e.name.IsScalar ∧ e.path.IsScalar ∧ e.kind.IsScalar

instance (e : Entry) : Decidable e.IsScalar := inferInstanceAs (Decidable (_ ∧ _ ∧ _))

open Json Json.Document in
/-- An entry is read where it was written. -/
lemma reads_toJson {e : Entry} (h : e.IsScalar) {r : Json.Reader} (item : ItemReader) :
    Reads (valueWith r (valueWith r item)) e.toJson := by
  have hnames : (["name", "path", "type"] : List Text).Nodup ∧
      ∀ name ∈ (["name", "path", "type"] : List Text), name.IsScalar := by decide
  refine reads_object hnames.1 ?_
  intro m hm
  refine ⟨hnames.2 m.1 (List.mem_map_of_mem hm), ?_⟩
  simp only [List.mem_cons, List.not_mem_nil, or_false] at hm
  rcases hm with rfl | rfl | rfl
  · exact reads_string h.1 item
  · exact reads_string h.2.1 item
  · exact reads_string h.2.2 item

/-- An entry is written without surrogates if it holds none. -/
lemma isScalar_render {e : Entry} (h : e.IsScalar) : (e.toJson.render .compact).IsScalar := by
  have hmember : ∀ {isFirst : Bool} {name : Text} {t : Text} {ms : List (Text × Json.Value)},
      name.IsScalar → t.IsScalar → (Json.renderMembers .compact false ms).IsScalar →
        (Json.renderMembers .compact isFirst ((name, .string t) :: ms)).IsScalar := by
    intro isFirst name t ms hname ht hms
    rw [Json.renderMembers, Json.Value.render]
    refine (((Text.IsScalar.append ?_ (Json.isScalar_quote hname)).append (by decide)).append
      (Json.isScalar_quote ht)).append hms
    cases isFirst <;> decide
  rw [toJson, Json.Value.render]
  refine Text.IsScalar.append (by decide) ?_
  exact hmember (by decide) h.1 (hmember (by decide) h.2.1 (hmember (by decide) h.2.2 (by decide)))

end Entry

namespace Index

/-- The texts of the index hold no surrogates. -/
def IsScalar (i : Index) : Prop := ∀ e ∈ i.entries, e.IsScalar

instance (i : Index) : Decidable i.IsScalar := inferInstanceAs (Decidable (∀ e ∈ i.entries, _))

/-- An index that holds no surrogates is written without them. -/
lemma isScalar_render {i : Index} (h : i.IsScalar) : i.render.IsScalar := by
  have hentries : (Json.Value.render .compact (.list (i.entries.map Entry.toJson))).IsScalar := by
    rw [Json.Value.render]
    refine Text.IsScalar.append (by decide) (Json.isScalar_renderItems true ?_)
    intro v hv
    obtain ⟨e, he, rfl⟩ := List.mem_map.mp hv
    exact Entry.isScalar_render (h e he)
  rw [render, toJson, Json.Value.render, Json.renderMembers]
  exact Text.IsScalar.append (by decide)
    (Text.IsScalar.append (Text.IsScalar.append (by decide) hentries) (by decide))

/-! ## Writing and reading -/

variable {r : Json.Reader}

/-- The entries of an index are read where they were written. -/
lemma reads_entries {i : Index} (h : i.IsScalar) :
    Json.Document.Reads (Json.Document.value r (Json.depthLimit - 1))
      (.list (i.entries.map Entry.toJson)) := by
  refine Json.Document.reads_list fun v hv => ?_
  obtain ⟨e, he, rfl⟩ := List.mem_map.mp hv
  exact Entry.reads_toJson (h e he) _

/-- An index is read where it was written. -/
lemma reads_toJson {i : Index} (h : i.IsScalar) :
    Json.Document.Reads (Json.Document.value r Json.depthLimit) i.toJson := by
  have hname : ("entries" : Text).IsScalar := by decide
  refine Json.Document.reads_object (by simp [Table.keys]) ?_
  intro m hm
  rw [List.mem_singleton.mp hm]
  exact ⟨hname, reads_entries h⟩

/-- The entry is what its value has the shape of. -/
lemma entryAt_toJson (n : Nat) (e : Entry) : entryAt n e.toJson = .ok e := by
  have hname : field ["entries", Text.ofNat n]
      [("name", .string e.name), ("path", .string e.path), ("type", .string e.kind)] "name" =
        .ok e.name := rfl
  have hpath : field ["entries", Text.ofNat n]
      [("name", .string e.name), ("path", .string e.path), ("type", .string e.kind)] "path" =
        .ok e.path := rfl
  have hkind : field ["entries", Text.ofNat n]
      [("name", .string e.name), ("path", .string e.path), ("type", .string e.kind)] "type" =
        .ok e.kind := rfl
  rw [Entry.toJson, entryAt]
  simp only [hname, hpath, hkind]

/-- The entries are what their values have the shape of. -/
lemma entriesFrom_toJson (n : Nat) (es : List Entry) :
    entriesFrom n (es.map Entry.toJson) = .ok es := by
  induction es generalizing n with
  | nil => rfl
  | cons e es ih =>
    rw [List.map_cons, entriesFrom, entryAt_toJson, ih]

/-- The index is what its value has the shape of. -/
lemma ofJson_toJson (i : Index) : ofJson i.toJson = .ok i := by
  have hentries : Table.get? ("entries" : Text)
      [("entries", Json.Value.list (i.entries.map Entry.toJson))] =
        some (.list (i.entries.map Entry.toJson)) := rfl
  rw [toJson, ofJson]
  simp only [hentries, entriesFrom_toJson]
  rfl

/-- An index whose texts hold no surrogates is what the bytes of its record hold. -/
theorem decode_render {i : Index} (h : i.IsScalar) :
    decode r (Utf8.encodeAll i.render) = .ok i := by
  rw [decode, render, Json.readDocument_render (reads_toJson h)]
  simp only [ofJson_toJson]

/-- An index whose texts hold no surrogates is what the text of its record holds. -/
theorem decodeText_render {i : Index} (h : i.IsScalar) : decodeText r i.render = .ok i := by
  rw [decodeText, Utf8.encode_eq_ok (isScalar_render h)]
  exact decode_render h

/-! ## Reading -/

/-- A text of an object that holds no surrogates holds none. -/
lemma isScalar_of_field {place : List Text} {members : List (Text × Json.Value)} {name t : Text}
    (hms : ∀ m ∈ members, m.2.IsScalar) (h : field place members name = .ok t) : t.IsScalar := by
  unfold field at h
  split at h
  · rename_i hget
    cases h
    have hstring := hms _ (Table.mem_of_get? hget)
    cases hstring with
    | string ht => exact ht
  · cases h
  · cases h

/-- An entry of a value that holds no surrogates holds none. -/
lemma isScalar_of_entryAt {n : Nat} {v : Json.Value} {e : Entry} (hv : v.IsScalar)
    (h : entryAt n v = .ok e) : e.IsScalar := by
  cases hv with
  | object hms =>
    rw [entryAt] at h
    split at h
    · rename_i hname hpath hkind
      cases h
      exact ⟨isScalar_of_field hms hname, isScalar_of_field hms hpath,
        isScalar_of_field hms hkind⟩
    · cases h
  | _ => cases h

/-- Entries of values that hold no surrogates hold none. -/
lemma isScalar_of_entriesFrom {n : Nat} {vs : List Json.Value} {es : List Entry}
    (hvs : ∀ v ∈ vs, v.IsScalar) (h : entriesFrom n vs = .ok es) : ∀ e ∈ es, e.IsScalar := by
  induction vs generalizing n es with
  | nil =>
    cases h
    simp
  | cons v vs ih =>
    rw [entriesFrom] at h
    split at h
    · rename_i hone hmore
      cases h
      intro e he
      rcases List.mem_cons.mp he with rfl | he
      · exact isScalar_of_entryAt (hvs v List.mem_cons_self) hone
      · exact ih (fun w hw => hvs w (List.mem_cons_of_mem v hw)) hmore e he
    · cases h
    · cases h
    · cases h

/-- An index that was read holds no surrogates. -/
theorem isScalar_of_decode {payload : Bytes} {i : Index} (h : decode r payload = .ok i) :
    i.IsScalar := by
  unfold decode at h
  split at h
  · cases h
  rename_i v hv
  have hscalar := Json.isScalar_of_readDocument hv
  split at h
  · cases h
  rename_i index hindex
  cases h
  unfold ofJson at hindex
  cases hscalar with
  | object hms =>
    simp only at hindex
    split at hindex
    · rename_i items hget
      obtain ⟨es, hes, rfl⟩ := Result.of_map hindex
      have hitems := hms _ (Table.mem_of_get? hget)
      cases hitems with
      | list hvs => exact isScalar_of_entriesFrom hvs hes
    · cases hindex
    · cases hindex
  | _ => cases hindex

end Index

end EditorDocs
