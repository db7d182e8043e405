import EditorDocs.Proofs.Source.Slug
import EditorDocs.Proofs.Source.Tags

/-!
# The URL of a document

A document is named by the language and its entry with a slash between them, and any number of
slashes around both, which do not count (`Sources.documentUrl_entry`).  Its URL puts together the
base, the slug of the language and the name of the document, which ends with `.html`
(`Sources.documentUrl_eq`).

A fragment behind the entry is cut off, but only when the slashes at the end of the path have been
cut off and the entry has been found not to be empty.  Slashes in front of the fragment therefore
stay in the name of the document, and a path without an entry passes for one with an entry
(`Sources.documentUrl_fragment`).
-/

namespace EditorDocs

/-! ## How a slug is missed -/

namespace Host

/-- What is no address in brackets is a wrong value. -/
lemma kind_of_addressFault? {t : Text} {f : Failure} (h : addressFault? t = some f) :
    f.kind = "ValueError" := by
  unfold addressFault? at h
  split_ifs at h <;> cases h <;> rfl

/-- A host with wrong brackets is a wrong value. -/
lemma kind_of_bracketFault? {host : Text} {f : Failure} (h : bracketFault? host = some f) :
    f.kind = "ValueError" := by
  unfold bracketFault? at h
  simp only at h
  split_ifs at h with hsides hopens
  · cases h
    rfl
  · split at h
    · split_ifs at h
      · cases h
        rfl
      · exact kind_of_addressFault? h
    · exact kind_of_addressFault? h

/-- A host that is refused is a wrong value. -/
lemma kind_of_fault? {host : Text} {f : Failure} (h : fault? host = some f) :
    f.kind = "ValueError" := by
  unfold fault? at h
  rcases Option.or_eq_some_iff.mp h with hbracket | ⟨-, hdisguised⟩
  · exact kind_of_bracketFault? hbracket
  · split_ifs at hdisguised
    cases hdisguised
    rfl

end Host

namespace Sources

/-- A language that is not in the table is unsupported. -/
lemma kind_of_indexUrl {s : Sources} {language : Text} {e : Failure}
    (h : s.indexUrl language = .error e) : e.kind = "UnsupportedLanguageError" := by
  unfold indexUrl at h
  split at h
  · cases h
  · cases h
    rfl

/-- A URL without a path is a wrong value. -/
lemma kind_of_path {url : Text} {e : Failure} (h : Url.path url = .error e) :
    e.kind = "ValueError" := by
  unfold Url.path at h
  simp only at h
  split at h
  · rename_i hfault
    cases h
    exact Host.kind_of_fault? hfault
  · cases h

/-- A language without a slug is unsupported, or its URL is a wrong value. -/
lemma kind_of_slug {s : Sources} {language : Text} {e : Failure} (h : s.slug language = .error e) :
    e.kind = "UnsupportedLanguageError" ∨ e.kind = "ValueError" := by
  unfold slug at h
  cases hurl : s.indexUrl language with
  | error f =>
    rw [hurl] at h
    cases h
    exact Or.inl (kind_of_indexUrl hurl)
  | ok url =>
    rw [Result.bind_of_ok hurl] at h
    cases hpath : Url.path url with
    | error f =>
      rw [hpath] at h
      cases h
      exact Or.inr (kind_of_path hpath)
    | ok path =>
      rw [Result.bind_of_ok hpath] at h
      simp only at h
      split at h
      · cases h
      · cases h
        exact Or.inl rfl

/-! ## Slashes at the ends -/

/-- Slashes at the end of a text are cut off. -/
lemma dropEndSlashes_append (t : Text) (n : ℕ) :
    dropEndSlashes (t ++ Text.slashes n) = dropEndSlashes t :=
  Text.dropEndWhile_append (fun _ hc => decide_eq_true (Text.eq_of_mem_slashes hc)) t

/-- A text that does not end with a slash has none to lose. -/
lemma dropEndSlashes_of_last {t : Text} (h : t.getLast? ≠ some ('/' : CodePoint)) :
    dropEndSlashes t = t := by
  refine Text.dropEndWhile_of_getLast? fun c hc => decide_eq_false ?_
  rintro rfl
  exact h hc

/-- Slashes around a path do not count, as long as there is more in it. -/
lemma trimBoth_slashes {tag : Text} (hne : tag ≠ []) (htag : ('/' : CodePoint) ∉ tag) (a : ℕ)
    (rest : Text) (b : ℕ) :
    (Text.slashes a ++ (tag ++ rest) ++ Text.slashes b).trimBoth (· = ('/' : CodePoint)) =
      dropEndSlashes (tag ++ rest) := by
  obtain ⟨c, letters, rfl⟩ := List.exists_cons_of_ne_nil hne
  have hc : c ≠ ('/' : CodePoint) := fun he => htag (he ▸ List.mem_cons_self)
  have hfront : ∀ d ∈ Text.slashes a, decide (d = ('/' : CodePoint)) = true :=
    fun d hd => decide_eq_true (Text.eq_of_mem_slashes hd)
  rw [Text.trimBoth, List.append_assoc, List.dropWhile_append_of_pos hfront]
  rw [List.cons_append, List.cons_append, List.dropWhile_cons_of_neg (by simp [hc])]
  exact dropEndSlashes_append (c :: (letters ++ rest)) b

/-- A text falls into one that does not end with a slash, and slashes. -/
lemma exists_slashes (t : Text) :
    ∃ kept n, t = kept ++ Text.slashes n ∧ kept.getLast? ≠ some ('/' : CodePoint) := by
  obtain ⟨behind, ht, hbehind, hend⟩ := Text.exists_dropEndWhile (· = ('/' : CodePoint)) t
  have hslashes : behind = Text.slashes behind.length :=
    List.eq_replicate_of_mem fun c hc => of_decide_eq_true (hbehind c hc)
  refine ⟨_, behind.length, by rwa [← hslashes], fun hlast => ?_⟩
  exact of_decide_eq_false (hend _ hlast) rfl

/-- A text with slashes at its end ends with one. -/
lemma getLast?_append_slashes (t : Text) (n : ℕ) :
    (t ++ Text.slashes (n + 1)).getLast? = some ('/' : CodePoint) := by
  rw [Text.slashes, List.replicate_succ', ← List.append_assoc, List.getLast?_concat]

/-- Among slashes there is no number sign. -/
lemma number_notMem_slashes (n : ℕ) : ('#' : CodePoint) ∉ Text.slashes n :=
  fun hmem => absurd (Text.eq_of_mem_slashes hmem) (by decide)

/-! ## Names of documents -/

/-- The URL of the document of an entry, for a slug. -/
def documentAt (s : Sources) (entry slug : Text) : Text :=
  s.base ++ "/" ++ slug ++ "/" ++ documentName entry

variable (s : Sources)

/-- The URL of a document does not depend on the fragment. -/
lemma documentAt_fragment {entry : Text} (hentry : ('#' : CodePoint) ∉ entry) (f : Text) :
    s.documentAt (entry ++ ('#' : CodePoint) :: f) = s.documentAt entry := by
  funext slug
  have hcut : (Text.cut '#' (entry ++ ('#' : CodePoint) :: f)).1 = (Text.cut '#' entry).1 := by
    rw [Text.cut_append_cons hentry, Text.cut_of_notMem hentry]
  rw [documentAt, documentAt, documentName, documentName, hcut]

/-- A document whose name has no fragment is named by the whole entry. -/
lemma documentName_of_notMem {entry : Text} (hentry : ('#' : CodePoint) ∉ entry) :
    documentName entry = if entry.endsWith ".html" then entry else entry ++ (".html" : Text) := by
  rw [documentName, Text.cut_of_notMem hentry]

/-- Slashes between an entry and a fragment are part of the name of the document. -/
lemma documentAt_slashes_ne {entry : Text} (hentry : ('#' : CodePoint) ∉ entry) (n : ℕ)
    (slug : Text) :
    s.documentAt (entry ++ Text.slashes (n + 1)) slug ≠ s.documentAt entry slug := by
  have hnumber : ('#' : CodePoint) ∉ entry ++ Text.slashes (n + 1) := by
    rw [List.mem_append, not_or]
    exact ⟨hentry, number_notMem_slashes (n + 1)⟩
  have hhtml : (entry ++ Text.slashes (n + 1)).endsWith ".html" = false := by
    rw [Bool.eq_false_iff, Text.endsWith, ne_eq, List.isSuffixOf_iff_suffix]
    rintro ⟨front, hfront⟩
    have hlast := congrArg List.getLast? hfront
    rw [getLast?_append_slashes, List.getLast?_append_of_ne_nil front (by decide)] at hlast
    exact absurd hlast (by decide)
  intro heq
  have hname := List.append_cancel_left heq
  rw [documentName_of_notMem hnumber, documentName_of_notMem hentry, hhtml] at hname
  have hlength := congrArg List.length hname
  have hshort : (if entry.endsWith ".html" then entry else entry ++ (".html" : Text)).length ≤
      entry.length + 5 := by
    split
    · omega
    · rw [List.length_append]
      exact le_rfl
  have hlong : (entry ++ Text.slashes (n + 1) ++ (".html" : Text)).length =
      entry.length + (n + 1) + 5 := by
    rw [List.length_append, List.length_append, Text.slashes, List.length_replicate]
    rfl
  simp only [Bool.false_eq_true, if_false] at hlength
  omega

/-! ## How a path ends -/

/-- Two uses of one slug that differ end alike if there is no slug. -/
lemma endsAlike_map_iff {x : Except Failure Text} {g h : Text → Text}
    (hne : ∀ slug, g slug ≠ h slug) : EndsAlike (x.map g) (x.map h) ↔ ∃ e, x = .error e := by
  cases x with
  | error e => exact ⟨fun _ => ⟨e, rfl⟩, fun _ => .refl _⟩
  | ok slug =>
    refine ⟨fun halike => absurd halike.eq_of_ok (hne slug), ?_⟩
    rintro ⟨e, he⟩
    cases he

/-- What comes of a slug is not the failure of a path that names no document. -/
lemma not_endsAlike_documentation (tag : Text) (g : Text → Text) (message : Text) :
    ¬ EndsAlike ((s.slug tag).map g) (.error (.documentation message)) := by
  intro halike
  cases hslug : s.slug tag with
  | ok slug =>
    rw [hslug] at halike
    cases halike
  | error e =>
    rw [hslug] at halike
    have hkind : e.kind = "DocNavError" := halike.kind_of_error
    rcases kind_of_slug hslug with hother | hother
    · exact absurd (hother.symm.trans hkind) (by decide +kernel)
    · exact absurd (hother.symm.trans hkind) (by decide +kernel)

/-! ## Paths of entries -/

section

variable {tag : Text} (hne : tag ≠ []) (htag : ('/' : CodePoint) ∉ tag)

include hne htag

/-- The URL for a path with an entry, whatever slashes stand around it. -/
theorem documentUrl_entry {entry : Text} (hentry : entry ≠ [])
    (hlast : entry.getLast? ≠ some ('/' : CodePoint)) (a b : ℕ) :
    s.documentUrl (Text.slashes a ++ tag ++ ("/" : Text) ++ entry ++ Text.slashes b) =
      (s.slug tag).map (s.documentAt entry) := by
  have hpath : Text.slashes a ++ tag ++ ("/" : Text) ++ entry ++ Text.slashes b =
      Text.slashes a ++ (tag ++ ('/' : CodePoint) :: entry) ++ Text.slashes b := by
    simp only [List.append_assoc]
    rfl
  have hkept : dropEndSlashes (tag ++ ('/' : CodePoint) :: entry) =
      tag ++ ('/' : CodePoint) :: entry := by
    refine dropEndSlashes_of_last ?_
    obtain ⟨d, rest, rfl⟩ := List.exists_cons_of_ne_nil hentry
    rwa [List.getLast?_append_cons, List.getLast?_cons_cons]
  have hfull : entry.isEmpty = false := by
    rw [List.isEmpty_eq_false_iff]
    exact hentry
  unfold documentUrl
  rw [hpath, trimBoth_slashes hne htag, hkept, Text.cut_append_cons htag]
  simp only [hfull, Bool.false_eq_true, if_false]
  cases s.slug tag <;> rfl

/-- A path of a language alone names no document, whatever slashes stand around it. -/
theorem documentUrl_language (a b : ℕ) :
    ∃ message, s.documentUrl (Text.slashes a ++ tag ++ ("/" : Text) ++ Text.slashes b) =
      .error (.documentation message) := by
  have hpath : Text.slashes a ++ tag ++ ("/" : Text) ++ Text.slashes b =
      Text.slashes a ++ (tag ++ []) ++ Text.slashes (b + 1) := by
    simp only [List.append_assoc, List.append_nil]
    rfl
  have hkept : dropEndSlashes (tag ++ []) = tag := by
    rw [List.append_nil]
    exact dropEndSlashes_of_last fun hc => htag (List.mem_of_getLast? hc)
  unfold documentUrl
  rw [hpath, trimBoth_slashes hne htag, hkept, Text.cut_of_notMem htag]
  exact ⟨_, rfl⟩

end

/-! ## Documents of a table -/

/-- The text names a document: it is not empty, has no fragment and does not end with a slash. -/
structure IsEntry (entry : Text) : Prop where
  /-- The entry is not empty. -/
  ne_nil : entry ≠ []
  /-- The entry has no fragment. -/
  number_notMem : ('#' : CodePoint) ∉ entry
  /-- The entry does not end with a slash. -/
  last : entry.getLast? ≠ some ('/' : CodePoint)

/-- An entry with `.html` behind it is one. -/
lemma IsEntry.append_html {entry : Text} (h : IsEntry entry) :
    IsEntry (entry ++ (".html" : Text)) where
  ne_nil := List.append_ne_nil_of_left_ne_nil h.ne_nil _
  number_notMem := by
    rw [List.mem_append, not_or]
    exact ⟨h.number_notMem, by decide⟩
  last := by
    rw [List.getLast?_append_of_ne_nil entry (by decide)]
    decide

/-- The URL for a path of an entry, if the language has a slug. -/
lemma documentUrl_of_slug {s : Sources} {tag slug entry : Text} (hne : tag ≠ [])
    (htag : ('/' : CodePoint) ∉ tag) (hslug : s.slug tag = .ok slug) (hentry : IsEntry entry)
    (a b : ℕ) :
    s.documentUrl (Text.slashes a ++ tag ++ ("/" : Text) ++ entry ++ Text.slashes b) =
      .ok (s.base ++ ("/" : Text) ++ slug ++ ("/" : Text) ++
        if entry.endsWith ".html" then entry else entry ++ (".html" : Text)) := by
  rw [documentUrl_entry s hne htag hentry.ne_nil hentry.last, hslug, Except.map, documentAt,
    documentName_of_notMem hentry.number_notMem]

/-- The slug of a language is that of its spellings, which are not empty and hold no slash if the
language does not. -/
lemma slug_of_spelling {s : Sources} {tag url slug spelling : Text} (hne : tag ≠ [])
    (htag : ('/' : CodePoint) ∉ tag) (hurl : s.indexUrl tag = .ok url)
    (hslug : Url.LeadsTo slug url) (hspelling : spelling.lower = tag.lower) :
    spelling ≠ [] ∧ ('/' : CodePoint) ∉ spelling ∧ s.slug spelling = .ok slug := by
  refine ⟨?_, ?_, ?_⟩
  · rintro rfl
    have hempty : tag.lower.isEmpty = true := by
      rw [← hspelling]
      exact Text.isEmpty_lower []
    rw [Text.isEmpty_lower, List.isEmpty_iff] at hempty
    exact hne hempty
  · rwa [← Text.slash_mem_lower, hspelling, Text.slash_mem_lower]
  · rw [indexUrl_eq_ok, ← hspelling, ← indexUrl_eq_ok] at hurl
    exact slug_eq_ok hurl hslug

/-- The URL of a document is the base, the slug that the URL of the index leads to and the entry,
which gets `.html` at its end unless it has it, in whatever case the language is spelled and
whatever slashes stand around the path.  An entry and the same with `.html` behind it have one URL
if the first does not end with it already. -/
theorem documentUrl_eq {urls : List (Text × Text)} {base tag url slug spelling entry : Text} {k : ℕ}
    (hbase : base.getLast? ≠ some ('/' : CodePoint)) (hne : tag ≠ [])
    (htag : ('/' : CodePoint) ∉ tag)
    (hurl : (ofList urls (base ++ Text.slashes k)).indexUrl tag = .ok url)
    (hslug : Url.LeadsTo slug url) (hspelling : spelling.lower = tag.lower) (hentry : IsEntry entry)
    (a b : ℕ) :
    (ofList urls (base ++ Text.slashes k)).documentUrl
        (Text.slashes a ++ spelling ++ ("/" : Text) ++ entry ++ Text.slashes b) =
      .ok (base ++ ("/" : Text) ++ slug ++ ("/" : Text) ++
        if entry.endsWith ".html" then entry else entry ++ (".html" : Text)) ∧
    ((ofList urls (base ++ Text.slashes k)).documentUrl
          (Text.slashes a ++ spelling ++ ("/" : Text) ++ (entry ++ (".html" : Text)) ++
            Text.slashes b) =
        (ofList urls (base ++ Text.slashes k)).documentUrl
          (Text.slashes a ++ spelling ++ ("/" : Text) ++ entry ++ Text.slashes b) ↔
      entry.endsWith ".html" = false) := by
  have hsame : (ofList urls (base ++ Text.slashes k)).base = base :=
    (dropEndSlashes_append base k).trans (dropEndSlashes_of_last hbase)
  have hhtml : (entry ++ (".html" : Text)).endsWith ".html" = true :=
    List.isSuffixOf_iff_suffix.mpr ⟨entry, rfl⟩
  obtain ⟨hspelled, hslash, hfound⟩ := slug_of_spelling hne htag hurl hslug hspelling
  have hdocument := documentUrl_of_slug hspelled hslash hfound hentry a b
  rw [hsame] at hdocument
  refine ⟨hdocument, ?_⟩
  rw [documentUrl_of_slug hspelled hslash hfound hentry.append_html a b, hdocument, hsame,
    if_pos hhtml, Except.ok.injEq, List.append_cancel_left_eq]
  cases entry.endsWith ".html" with
  | false => exact ⟨fun _ => rfl, fun _ => rfl⟩
  | true =>
    refine iff_of_false (fun heq => ?_) (by decide)
    have hnothing : (".html" : Text) = [] := List.append_right_eq_self.mp heq
    exact absurd hnothing (by decide)

/-- A URL with letters in both cases, runs of slashes, a query and a fragment. -/
def sampleUrl : Text := "https://documents.devdocs.io//docs/Py~3///index.json?v=1#top"

/-- A table with the URL, and a base with slashes behind it. -/
def sampleTable : Sources := ofList [("PY", sampleUrl)] (defaultBase ++ Text.slashes 2)

/-- The URL leads to the segment before its file. -/
lemma leadsTo_sampleUrl : Url.LeadsTo "Py~3" sampleUrl := by
  have hfile : Url.IsPath (Text.slashes 3 ++ "index.json" ++ Text.slashes 0) ["index.json"] :=
    .segment 2 (by decide) (by decide) (.slashes 0)
  have hslug : Url.IsPath (Text.slashes 1 ++ "Py~3" ++ _) ["Py~3", "index.json"] :=
    .segment 0 (by decide) (by decide) hfile
  have hpath : Url.IsPath (Text.slashes 2 ++ "docs" ++ _) ["docs", "Py~3", "index.json"] :=
    .segment 1 (by decide) (by decide) hslug
  have hspells : Url.Spells sampleUrl (["docs"] ++ ["Py~3", "index.json"]) :=
    @Url.Spells.parts "https" "documents.devdocs.io" _ "?v=1#top" _ (by decide) (by decide) hpath
      fun c hc => Or.inl (Option.some.inj hc).symm
  exact .file hspells (by decide)

/-- A spelling of the language in another case, with slashes around the path. -/
theorem documentUrl_eq_sample :
    sampleTable.documentUrl "//pY/os.path/" = .ok (defaultBase ++ "/Py~3/os.path.html") ∧
      sampleTable.documentUrl "//pY/os.path.html/" = sampleTable.documentUrl "//pY/os.path/" := by
  have hurl : sampleTable.indexUrl "py" = .ok sampleUrl := by decide +kernel
  obtain ⟨hdocument, hhtml⟩ :=
    @documentUrl_eq [("PY", sampleUrl)] defaultBase "py" sampleUrl "Py~3" "pY" "os.path" 2
      (by decide) (by decide) (by decide) hurl leadsTo_sampleUrl (by decide +kernel)
      ⟨by decide, by decide, by decide⟩ 2 1
  exact ⟨hdocument, hhtml.mpr (by decide)⟩

/-- An entry that ends with `.html` has another URL than the same with `.html` behind it. -/
theorem documentUrl_html_html :
    sampleTable.indexUrl "py" = .ok sampleUrl ∧ Url.LeadsTo "Py~3" sampleUrl ∧
      sampleTable.documentUrl "py/os.html" = .ok (defaultBase ++ "/Py~3/os.html") ∧
      sampleTable.documentUrl "py/os.html.html" = .ok (defaultBase ++ "/Py~3/os.html.html") ∧
      sampleTable.documentUrl "py/os.html.html" ≠ sampleTable.documentUrl "py/os.html" := by
  have hplain : sampleTable.documentUrl "py/os.html" = .ok (defaultBase ++ "/Py~3/os.html") := by
    decide +kernel
  have hdouble : sampleTable.documentUrl "py/os.html.html" =
      .ok (defaultBase ++ "/Py~3/os.html.html") := by
    decide +kernel
  refine ⟨by decide +kernel, leadsTo_sampleUrl, hplain, hdouble, ?_⟩
  rw [hplain, hdouble]
  decide +kernel

/-! ## Fragments -/

section

variable {tag : Text} (hne : tag ≠ []) (htag : ('/' : CodePoint) ∉ tag)

include hne htag

/-- The URL for a path with a fragment is that for all that stands in front of it, slashes
included. -/
theorem documentUrl_with_fragment {rest : Text} (hrest : ('#' : CodePoint) ∉ rest) (f : Text)
    (a : ℕ) :
    s.documentUrl (Text.slashes a ++ tag ++ ("/" : Text) ++ rest ++ ("#" : Text) ++ f) =
      (s.slug tag).map (s.documentAt rest) := by
  obtain ⟨kept, n, rfl, hkept⟩ := exists_slashes f
  have hpath : Text.slashes a ++ tag ++ ("/" : Text) ++ rest ++ ("#" : Text) ++
        (kept ++ Text.slashes n) =
      Text.slashes a ++ tag ++ ("/" : Text) ++ (rest ++ ('#' : CodePoint) :: kept) ++
        Text.slashes n := by
    simp only [List.append_assoc]
    rfl
  have hlast : (rest ++ ('#' : CodePoint) :: kept).getLast? ≠ some ('/' : CodePoint) := by
    rw [List.getLast?_append_cons]
    cases kept with
    | nil => decide
    | cons c t => rwa [List.getLast?_cons_cons]
  rw [hpath, documentUrl_entry s hne htag (by simp) hlast, documentAt_fragment s hrest]

/-- A fragment makes a difference if there is no entry. -/
lemma not_endsAlike_without_entry (f : Text) (a n : ℕ) :
    ¬ EndsAlike
      (s.documentUrl (Text.slashes a ++ tag ++ ("/" : Text) ++ Text.slashes n ++ ("#" : Text) ++ f))
      (s.documentUrl (Text.slashes a ++ tag ++ ("/" : Text) ++ Text.slashes n)) := by
  obtain ⟨message, hmessage⟩ := documentUrl_language s hne htag a n
  rw [documentUrl_with_fragment s hne htag (number_notMem_slashes n), hmessage]
  exact s.not_endsAlike_documentation tag _ message

/-- A fragment makes no difference behind an entry that does not end with a slash. -/
lemma documentUrl_fragment_of_entry {entry : Text} (hentry : entry ≠ [])
    (hlast : entry.getLast? ≠ some ('/' : CodePoint)) (hnumber : ('#' : CodePoint) ∉ entry)
    (f : Text) (a : ℕ) :
    s.documentUrl (Text.slashes a ++ tag ++ ("/" : Text) ++ entry ++ ("#" : Text) ++ f) =
      s.documentUrl (Text.slashes a ++ tag ++ ("/" : Text) ++ entry) := by
  have hplain := documentUrl_entry s hne htag hentry hlast a 0
  rw [Text.slashes_zero, List.append_nil] at hplain
  rw [documentUrl_with_fragment s hne htag hnumber, hplain]

/-- Behind slashes a fragment makes a difference unless there is no slug. -/
lemma endsAlike_fragment_iff {entry : Text} (hentry : entry ≠ [])
    (hlast : entry.getLast? ≠ some ('/' : CodePoint)) (hnumber : ('#' : CodePoint) ∉ entry)
    (f : Text) (a n : ℕ) :
    EndsAlike
      (s.documentUrl (Text.slashes a ++ tag ++ ("/" : Text) ++ (entry ++ Text.slashes (n + 1)) ++
        ("#" : Text) ++ f))
      (s.documentUrl (Text.slashes a ++ tag ++ ("/" : Text) ++ (entry ++ Text.slashes (n + 1)))) ↔
      ∃ e, s.slug tag = .error e := by
  have hrest : ('#' : CodePoint) ∉ entry ++ Text.slashes (n + 1) := by
    rw [List.mem_append, not_or]
    exact ⟨hnumber, number_notMem_slashes (n + 1)⟩
  rw [documentUrl_with_fragment s hne htag hrest, ← List.append_assoc,
    documentUrl_entry s hne htag hentry hlast]
  exact endsAlike_map_iff (s.documentAt_slashes_ne hnumber n)

/-- A fragment makes no difference behind a path that does not end with a slash.  Behind one that
does it makes a difference, unless there is an entry and the language has no slug. -/
theorem documentUrl_fragment {path rest : Text} {a : ℕ}
    (hpath : path = Text.slashes a ++ tag ++ ("/" : Text) ++ rest)
    (hnumber : ('#' : CodePoint) ∉ path) (f : Text) :
    (path.getLast? ≠ some ('/' : CodePoint) →
      s.documentUrl (path ++ ("#" : Text) ++ f) = s.documentUrl path) ∧
    (EndsAlike (s.documentUrl (path ++ ("#" : Text) ++ f)) (s.documentUrl path) ↔
      path.getLast? ≠ some ('/' : CodePoint) ∨
        ((∃ e, s.slug tag = .error e) ∧ ∃ c ∈ rest, c ≠ ('/' : CodePoint))) := by
  subst hpath
  obtain ⟨entry, n, rfl, hlast⟩ := exists_slashes rest
  by_cases hentry : entry = []
  · -- There is no entry, so that the path fails in its own way without the fragment alone.
    subst hentry
    rw [List.nil_append]
    have hslash : (Text.slashes a ++ tag ++ ("/" : Text) ++ Text.slashes n).getLast? =
        some ('/' : CodePoint) := by
      rw [List.append_assoc]
      exact getLast?_append_slashes (Text.slashes a ++ tag) n
    refine ⟨fun hend => absurd hslash hend, fun halike => ?_, ?_⟩
    · exact absurd halike (not_endsAlike_without_entry s hne htag f a n)
    · rintro (hend | ⟨-, c, hc, hother⟩)
      · exact absurd hslash hend
      · exact absurd (Text.eq_of_mem_slashes hc) hother
  · have hplain : ('#' : CodePoint) ∉ entry := fun hmem =>
      hnumber (List.mem_append_right _ (List.mem_append_left _ hmem))
    cases n with
    | zero =>
      rw [Text.slashes_zero, List.append_nil]
      have hend : (Text.slashes a ++ tag ++ ("/" : Text) ++ entry).getLast? ≠
          some ('/' : CodePoint) := by
        rw [List.getLast?_append_of_ne_nil _ hentry]
        exact hlast
      rw [documentUrl_fragment_of_entry s hne htag hentry hlast hplain]
      exact ⟨fun _ => rfl, fun _ => Or.inl hend, fun _ => .refl _⟩
    | succ n =>
      have hslash : (Text.slashes a ++ tag ++ ("/" : Text) ++
          (entry ++ Text.slashes (n + 1))).getLast? = some ('/' : CodePoint) := by
        rw [← List.append_assoc]
        exact getLast?_append_slashes _ n
      have hother : ∃ c ∈ entry ++ Text.slashes (n + 1), c ≠ ('/' : CodePoint) := by
        have hc := List.getLast?_eq_some_getLast hentry
        have hmem := List.mem_append_left (Text.slashes (n + 1)) (List.mem_of_getLast? hc)
        exact ⟨entry.getLast hentry, hmem, fun he => hlast (hc.trans (congrArg some he))⟩
      rw [endsAlike_fragment_iff s hne htag hentry hlast hplain]
      refine ⟨fun hend => absurd hslash hend, fun hfail => Or.inr ⟨hfail, hother⟩, ?_⟩
      rintro (hend | ⟨hfail, -⟩)
      · exact absurd hslash hend
      · exact hfail

end

/-- A fragment behind an entry makes no difference, and one behind a path without an entry does. -/
theorem documentUrl_fragment_sample :
    sampleTable.documentUrl "py/os#path/x" = sampleTable.documentUrl "py/os" ∧
      ¬ EndsAlike (sampleTable.documentUrl "py/#x") (sampleTable.documentUrl "py/") := by
  have hlanguage : ("py" : Text) ≠ [] ∧ ('/' : CodePoint) ∉ ("py" : Text) := by decide
  obtain ⟨hsame, -⟩ :=
    @documentUrl_fragment sampleTable "py" hlanguage.1 hlanguage.2 "py/os" "os" 0 rfl (by decide)
      "path/x"
  obtain ⟨-, hother⟩ :=
    @documentUrl_fragment sampleTable "py" hlanguage.1 hlanguage.2 "py/" "" 0 rfl (by decide) "x"
  refine ⟨hsame (by decide), fun halike => ?_⟩
  rcases hother.mp halike with hend | ⟨-, c, hc, -⟩
  · exact hend rfl
  · cases hc

/-- A path without an entry fails, and with a fragment it has a URL.  Slashes behind an entry do not
count, and before a fragment they do. -/
theorem documentUrl_slashes_fragment :
    (∃ message, sampleTable.documentUrl "py/" = .error (.documentation message)) ∧
      sampleTable.documentUrl "py/#x" = .ok (defaultBase ++ "/Py~3/.html") ∧
      sampleTable.documentUrl "py/os/" = .ok (defaultBase ++ "/Py~3/os.html") ∧
      sampleTable.documentUrl "py/os/#x" = .ok (defaultBase ++ "/Py~3/os/.html") :=
  ⟨⟨_, rfl⟩, by decide +kernel, by decide +kernel, by decide +kernel⟩

end Sources

end EditorDocs
