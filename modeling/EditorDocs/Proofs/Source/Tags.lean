import EditorDocs.Config.Schema
import EditorDocs.Proofs.Config.Validation
import EditorDocs.Proofs.Table
import EditorDocs.Proofs.Text.Lowercase
import Mathlib.Data.List.DropRight

/-!
# The tags of a source table

A source table is made from tags with URLs, of which several can be one tag in lower case.  It lists
each of these once, where it first came, with the URL that came last (`Sources.Collects`), and it
answers a question about a language from the lower case of the language alone, so that all spellings
end alike (`EndsAlike`).

A configuration puts the tags into lower case and cuts off the slashes behind the base before the
table is made, which does the same once more.  Tags that are in lower case stay as they are
(`Sources.lowerTags_lowerTags`), and so does a base without slashes behind it, so that this table is
the one that the tags and the base make by themselves (`Sources.ofList_consistent`).
-/

namespace EditorDocs

/-! ## Endings -/

/-- Two computations end alike: with one result, or with failures of one kind. -/
inductive EndsAlike {α : Type} : Except Failure α → Except Failure α → Prop where
  /-- They have the same result. -/
  | ok (a : α) : EndsAlike (.ok a) (.ok a)
  /-- They fail in the same way. -/
  | error {e f : Failure} (kind : e.kind = f.kind) : EndsAlike (.error e) (.error f)

namespace EndsAlike

variable {α β : Type}

/-- A computation ends like itself. -/
lemma refl (x : Except Failure α) : EndsAlike x x := by
  cases x with
  | ok a => exact .ok a
  | error e => exact .error rfl

/-- Results that end alike are the same. -/
lemma eq_of_ok {a b : α} (h : EndsAlike (.ok a) (.ok b)) : a = b := by
  cases h
  rfl

/-- Failures that end alike are of one kind. -/
lemma kind_of_error {e f : Failure} (h : EndsAlike (.error e : Except Failure α) (.error f)) :
    e.kind = f.kind := by
  cases h with
  | error kind => exact kind

/-- What goes on from like endings in like ways ends alike. -/
lemma bind {x y : Except Failure α} (h : EndsAlike x y) {f g : α → Except Failure β}
    (hfg : ∀ a, EndsAlike (f a) (g a)) : EndsAlike (x >>= f) (y >>= g) := by
  cases h with
  | ok a => exact hfg a
  | error kind => exact .error kind

end EndsAlike

namespace Sources

/-! ## Normal forms -/

/-- Without slashes at its end a text has none to lose. -/
lemma dropEndSlashes_dropEndSlashes (t : Text) :
    dropEndSlashes (dropEndSlashes t) = dropEndSlashes t := by
  unfold dropEndSlashes Text.dropEndWhile
  rw [List.reverse_reverse, List.dropWhile_idempotent]

/-- The tags of the table are those of the pairs in lower case, where they first come. -/
lemma keys_lowerTags (urls : List (Text × Text)) :
    (lowerTags urls).keys = (urls.map fun e => e.1.lower).eraseDups := by
  rw [lowerTags, Table.keys_ofPairs, List.map_map]
  rfl

/-- A tag of the table is in lower case. -/
lemma lower_of_mem_keys {urls : List (Text × Text)} {tag : Text}
    (h : tag ∈ (lowerTags urls).keys) : tag.lower = tag := by
  rw [keys_lowerTags, List.mem_eraseDups, List.mem_map] at h
  obtain ⟨e, -, rfl⟩ := h
  exact Text.lower_lower e.1

/-- Different tags in lower case make a table of themselves. -/
lemma lowerTags_eq {urls : Table Text Text} (hlower : ∀ tag ∈ urls.keys, tag.lower = tag)
    (hnodup : urls.keys.Nodup) : lowerTags urls = urls := by
  have hsame : ∀ e ∈ urls, (e.1.lower, e.2) = e := fun e he => by
    rw [hlower e.1 (List.mem_map_of_mem he)]
  have hmap : urls.map (fun e => (e.1.lower, e.2)) = urls :=
    (List.map_congr_left hsame).trans (List.map_id _)
  calc lowerTags urls = Table.ofPairs urls := congrArg Table.ofPairs hmap
    _ = urls := Table.ofPairs_eq_self hnodup

/-- A table with tags in lower case makes itself. -/
lemma lowerTags_lowerTags (urls : List (Text × Text)) :
    lowerTags (lowerTags urls) = lowerTags urls :=
  lowerTags_eq (fun _ => lower_of_mem_keys) (Table.nodup_keys_ofPairs _)

/-- A table is made anew from what it holds. -/
lemma ofList_ofList (urls : List (Text × Text)) (base : Text) :
    ofList (lowerTags urls) (dropEndSlashes base) = ofList urls base := by
  rw [ofList, lowerTags_lowerTags, dropEndSlashes_dropEndSlashes, ofList]

/-! ## Entries -/

/-- The table lists tags with URLs in lower case: each once, where it first comes, with the URL that
comes last. -/
structure Collects (s : Sources) (urls : List (Text × Text)) : Prop where
  /-- The tags stand where they first come. -/
  languages : s.languages = (urls.map fun e => e.1.lower).eraseDups
  /-- No tag is listed twice. -/
  nodup : s.languages.Nodup
  /-- The URL of a language is the last one that comes with a spelling of it. -/
  indexUrl_eq_ok_iff : ∀ language url, s.indexUrl language = .ok url ↔
    ∃ before tag after, urls = before ++ (tag, url) :: after ∧ tag.lower = language.lower ∧
      ∀ e ∈ after, e.1.lower ≠ language.lower
  /-- The entries are the tags … -/
  items_fst : s.items.map Prod.fst = s.languages
  /-- … with their URLs. -/
  items_snd : ∀ e ∈ s.items, s.indexUrl e.1 = .ok e.2
  /-- The table counts its tags. -/
  size : s.size = s.languages.length

/-- The URL of a language is what the table has under its lower case. -/
lemma indexUrl_eq_ok {s : Sources} {language url : Text} :
    s.indexUrl language = .ok url ↔ s.urls.get? language.lower = some url := by
  unfold indexUrl
  cases s.urls.get? language.lower <;> simp

/-- A table of tags with URLs lists them. -/
lemma collects_ofList (urls : List (Text × Text)) (base : Text) :
    (ofList urls base).Collects urls where
  languages := keys_lowerTags urls
  nodup := Table.nodup_keys_ofPairs _
  indexUrl_eq_ok_iff language url := by
    rw [indexUrl_eq_ok, ofList, lowerTags, Table.get?_ofPairs_eq_some_iff]
    constructor
    · rintro ⟨before, after, hmap, hafter⟩
      obtain ⟨before', rest, rfl, rfl, hrest⟩ := List.map_eq_append_iff.mp hmap
      obtain ⟨⟨tag, url'⟩, after', rfl, htag, rfl⟩ := List.map_eq_cons_iff.mp hrest
      obtain ⟨hlower, rfl⟩ := Prod.mk.inj htag
      exact ⟨before', tag, after', rfl, hlower, fun e he => hafter _ (List.mem_map_of_mem he)⟩
    · rintro ⟨before, tag, after, rfl, htag, hafter⟩
      refine ⟨before.map _, after.map _, by rw [List.map_append, List.map_cons, ← htag], ?_⟩
      intro e he
      obtain ⟨e', he', rfl⟩ := List.mem_map.mp he
      exact hafter e' he'
  items_fst := rfl
  items_snd e he := by
    have hkey : e.1 ∈ (lowerTags urls).keys := List.mem_map_of_mem he
    rw [indexUrl_eq_ok, lower_of_mem_keys hkey]
    exact Table.get?_of_mem (Table.nodup_keys_ofPairs _) he
  size := (List.length_map _).symm

/-! ## Questions -/

/-- A language has an index if its lower case is a tag of the table. -/
lemma exists_indexUrl_iff (s : Sources) (language : Text) :
    (∃ url, s.indexUrl language = .ok url) ↔ language.lower ∈ s.languages := by
  rw [languages, ← Table.has_iff_mem_keys, Table.has, Option.isSome_iff_exists]
  exact exists_congr fun url => indexUrl_eq_ok

/-- Spellings of one language end alike when their index is looked up. -/
lemma endsAlike_indexUrl (s : Sources) {language other : Text} (h : language.lower = other.lower) :
    EndsAlike (s.indexUrl language) (s.indexUrl other) := by
  unfold indexUrl
  rw [h]
  cases s.urls.get? other.lower with
  | some url => exact .ok url
  | none => exact .error rfl

/-- Spellings of one language end alike when their slug is looked up. -/
lemma endsAlike_slug (s : Sources) {language other : Text} (h : language.lower = other.lower) :
    EndsAlike (s.slug language) (s.slug other) := by
  refine (s.endsAlike_indexUrl h).bind fun url => ?_
  refine (EndsAlike.refl (Url.path url)).bind fun path => ?_
  simp only
  split
  · exact .ok _
  · exact .error rfl

end Sources

/-! ## Configurations -/

namespace Config

/-- A section on documentation gives the tags and URLs and the base as they are, or leaves out what
is as it is by default. -/
structure GivesSources (m : Mapping) (urls : List (Text × Text)) (base : Text) : Prop where
  /-- No tag is given twice. -/
  nodup : (urls.map Prod.fst).Nodup
  /-- The tags and URLs. -/
  urls : Mapping.get? ("sources" : String) m =
      some (.mapping (urls.map fun e => (.text e.1, .text e.2))) ∨
    Mapping.get? ("sources" : String) m = none ∧ urls = Sources.defaultUrls
  /-- The base. -/
  base : Mapping.get? ("documents_base_url" : String) m = some (.text base) ∨
    Mapping.get? ("documents_base_url" : String) m = none ∧ base = Sources.defaultBase

/-- Texts are read as the tags and URLs that they are. -/
lemma readSourceList_texts (urls : List (Text × Text)) :
    readSourceList (urls.map fun e => (.text e.1, .text e.2)) = .valid urls := by
  induction urls with
  | nil => rfl
  | cons e rest ih =>
    rw [List.map_cons, readSourceList, ih]
    rfl

/-- The default sources are in lower case and have no slashes behind their base. -/
lemma lowerTags_defaultUrls : Sources.lowerTags Sources.defaultUrls = Sources.defaultUrls := by
  decide +kernel

/-- What the settings name are the given tags in lower case. -/
lemma urls_of_givesSources {m : Mapping} {urls : List (Text × Text)} {base : Text}
    (h : GivesSources m urls base) :
    settingOr m "sources" Sources.defaultUrls readSources = .valid (Sources.lowerTags urls) := by
  unfold settingOr
  rcases h.urls with hgiven | ⟨hnone, rfl⟩
  · rw [hgiven]
    simp only [readSources, readSourceList_texts, Checked.map]
    rw [Table.ofPairs_eq_self h.nodup]
    rfl
  · rw [hnone, lowerTags_defaultUrls]
    rfl

/-- What the settings name as base is the given one without slashes behind it. -/
lemma base_of_givesSources {m : Mapping} {urls : List (Text × Text)} {base : Text}
    (h : GivesSources m urls base) :
    scalarSetting m "documents_base_url" Sources.defaultBase
        (fun d => (readText d).map Sources.dropEndSlashes) =
      .valid (Sources.dropEndSlashes base) := by
  unfold scalarSetting settingOr
  rcases h.base with hgiven | ⟨hnone, rfl⟩
  · rw [hgiven]
    rfl
  · rw [hnone]
    have hbase : Sources.dropEndSlashes Sources.defaultBase = Sources.defaultBase := by
      decide +kernel
    rw [hbase]
    rfl

/-- Valid settings name the given tags and the given base in their normal forms. -/
lemma eq_of_readDocs {m : Mapping} {urls : List (Text × Text)} {base : Text}
    (h : GivesSources m urls base) {temporary : Path} {d : DocsSettings}
    (hd : readDocs temporary m = .valid d) :
    d.urls = Sources.lowerTags urls ∧ d.base = Sources.dropEndSlashes base := by
  obtain ⟨-, -, hurls, hbase, -⟩ := readDocs_eq_valid_iff.mp hd
  exact ⟨Checked.valid.inj (hurls.symm.trans (urls_of_givesSources h)),
    Checked.valid.inj (hbase.symm.trans (base_of_givesSources h))⟩

end Config

namespace Sources

/-- The table of tags with URLs lists each tag in lower case once, where it first comes, with the
URL that comes last.  It has a language if it has its index, which is so if the lower case of the
language is listed, and all spellings of a language end alike.  A configuration that is given the
tags and the base and accepts them makes the same table. -/
theorem ofList_consistent (urls : List (Text × Text)) (base : Text) :
    (ofList urls base).Collects urls ∧
      (∀ language,
        ((ofList urls base).has language = true ↔
          ∃ url, (ofList urls base).indexUrl language = .ok url) ∧
        ((∃ url, (ofList urls base).indexUrl language = .ok url) ↔
          language.lower ∈ (ofList urls base).languages)) ∧
      (∀ language other : Text, language.lower = other.lower →
        EndsAlike ((ofList urls base).indexUrl language) ((ofList urls base).indexUrl other) ∧
        EndsAlike ((ofList urls base).slug language) ((ofList urls base).slug other)) ∧
      ∀ m temporary d, Config.GivesSources m urls base → Config.readDocs temporary m = .valid d →
        ofList d.urls d.base = ofList urls base := by
  refine ⟨collects_ofList urls base, fun language => ?_, fun language other hlower => ?_,
    fun m temporary d hgives hd => ?_⟩
  · have hindex := exists_indexUrl_iff (ofList urls base) language
    exact ⟨Table.has_iff_mem_keys.trans hindex.symm, hindex⟩
  · exact ⟨endsAlike_indexUrl _ hlower, endsAlike_slug _ hlower⟩
  · obtain ⟨hurls, hbase⟩ := Config.eq_of_readDocs hgives hd
    rw [hurls, hbase, ofList_ofList]

/-- Two spellings of one tag, with another tag between them. -/
def sampleUrls : List (Text × Text) :=
  [("PY", "https://documents.devdocs.io/python~2/index.json"),
    ("js", "https://documents.devdocs.io/javascript"),
    ("py", "https://documents.devdocs.io/python~3.12/index.json")]

/-- A base with slashes behind it. -/
def sampleBase : Text := "https://documents.devdocs.io//"

/-- A section that gives the tags and the base. -/
def sampleSection : Config.Mapping :=
  [(.text "documents_base_url", .text sampleBase),
    (.text "sources", .mapping (sampleUrls.map fun e => (.text e.1, .text e.2)))]

/-- The settings of the section. -/
def sampleSettings : DocsSettings :=
  ⟨Path.ofText "tmp", [("py", "https://documents.devdocs.io/python~3.12/index.json"),
    ("js", "https://documents.devdocs.io/javascript")], "https://documents.devdocs.io",
    Binary64.ofInt 30⟩

/-- The tags are listed in lower case, the later URL of the two is taken, other spellings of the tag
lead to its slug, and the section makes the same table. -/
theorem ofList_consistent_sample :
    (ofList sampleUrls sampleBase).languages = ["py", "js"] ∧
      EndsAlike ((ofList sampleUrls sampleBase).slug "Py") (.ok "python~3.12") ∧
      Config.readDocs (Path.ofText "tmp") sampleSection = .valid sampleSettings ∧
      ofList sampleSettings.urls sampleSettings.base = ofList sampleUrls sampleBase := by
  obtain ⟨hcollects, -, hspelling, hsection⟩ := ofList_consistent sampleUrls sampleBase
  have hgives : Config.GivesSources sampleSection sampleUrls sampleBase :=
    ⟨by decide, Or.inl rfl, Or.inl rfl⟩
  have hvalid : Config.readDocs (Path.ofText "tmp") sampleSection = .valid sampleSettings :=
    Config.Checked.value?_eq_some.mp (by decide +kernel)
  have hslug : (ofList sampleUrls sampleBase).slug "pY" = .ok "python~3.12" := by decide +kernel
  refine ⟨by rw [hcollects.languages]; decide +kernel, ?_, hvalid, hsection _ _ _ hgives hvalid⟩
  rw [← hslug]
  exact (hspelling "Py" "pY" (by decide +kernel)).2

end Sources

end EditorDocs
