import EditorDocs.Proofs.Result
import EditorDocs.Proofs.World.Action
import EditorDocs.Remote.Fetcher

/-!
# What a fetch does

A fetch asks for one URL, or for none if its language has no source, and changes no file but the log.
It gives what it asked for only if the answer was a success whose body can be decoded.
-/

namespace EditorDocs

/-- A language has a source, which has a URL, or is not supported. -/
lemma Sources.indexUrl_cases (s : Sources) (language : Text) :
    (s.has language = true ∧ ∃ url, s.indexUrl language = .ok url) ∨
      (s.has language = false ∧ s.indexUrl language = .error (.unsupportedLanguage language)) := by
  unfold has Table.has indexUrl
  cases s.urls.get? language.lower with
  | none => exact Or.inr ⟨rfl, rfl⟩
  | some url => exact Or.inl ⟨rfl, url, rfl⟩

namespace Fetcher

/-- A failure that is reported is one in the world after the report. -/
lemma exec_report_throw {α : Type} (event : Text) {c : Context} (h : c.isFlat = true) (f : Failure)
    (w : World) : ∃ w', (do report .warning event c; throw f : Action α).exec w = (.error f, w') ∧
      World.Reported w w' ∧ w'.requests = w.requests := by
  let r : Record := ⟨.warning, event, Context.bind [("component", .string "index_fetcher")] c, none⟩
  have hflat : r.context.isFlat = true := Context.isFlat_bind rfl h
  refine ⟨w.report r, ?_, World.reported_report w r, World.requests_report w r⟩
  exact Action.exec_bind_ok (Action.exec_report_of_isFlat hflat w)

/-- The body of a reply is that of a success, and a reply of another kind is a failure. -/
lemma exec_body (url : Text) (reply : Reply) (w : World) :
    ∃ x w', (body url reply).exec w = (x, w') ∧ World.Reported w w' ∧ w'.requests = w.requests ∧
      ∀ content, x = .ok content ↔
        ∃ status phrase, reply = .response status phrase content ∧
          Status.isSuccess status = true := by
  cases reply with
  | response status phrase content =>
    rw [body]
    by_cases hsuccess : Status.isSuccess status = true
    · refine ⟨.ok content, w, by rw [if_pos hsuccess]; rfl, .refl w, rfl, ?_⟩
      intro content'
      constructor
      · intro h
        cases h
        exact ⟨status, phrase, rfl, hsuccess⟩
      · rintro ⟨status', phrase', h, -⟩
        cases h
        rfl
    · rw [if_neg hsuccess]
      obtain ⟨w', hexec, hreported, hrequests⟩ := exec_report_throw (α := Bytes) "http.bad_status"
        (c := [("url", .string url), ("status", .int status)]) rfl _ w
      refine ⟨_, w', hexec, hreported, hrequests, ?_⟩
      intro content'
      constructor
      · intro h
        cases h
      · rintro ⟨status', phrase', h, hsuccess'⟩
        cases h
        exact absurd hsuccess' hsuccess
  | broken kind message =>
    obtain ⟨w', hexec, hreported, hrequests⟩ := exec_report_throw (α := Bytes) "http.get_failed"
      (c := [("url", .string url), ("error", .string message), ("error_type", .string kind)]) rfl _ w
    exact ⟨_, w', hexec, hreported, hrequests, by simp⟩
  | refusedUrl message => exact ⟨_, w, rfl, .refl w, rfl, by simp⟩
  | cookieConflict message => exact ⟨_, w, rfl, .refl w, rfl, by simp⟩
  | interruption => exact ⟨_, w, rfl, .refl w, rfl, by simp⟩

/-- To get a URL is to report that, to ask for it once and to take the body of the reply. -/
lemma exec_get_eq (url : Text) (w : World) :
    ∃ u, (get url).exec w = (body url (w.remote url)).exec u ∧ World.Reported w u ∧
      u.requests = w.requests ++ [url] := by
  -- the world after the report
  let v : World := w.report ⟨.debug, "http.get",
    Context.bind [("component", .string "index_fetcher")] [("url", .string url)], none⟩
  have hreported : World.Reported w v := World.reported_report w _
  refine ⟨{ v with requests := v.requests ++ [url] }, ?_, ?_, ?_⟩
  · rw [← hreported.remote]
    rfl
  · exact hreported.trans ⟨rfl, ⟨[], (FileSystem.grow_nil _ _).symm⟩, rfl, rfl, rfl⟩
  · exact congrArg (· ++ [url]) (World.requests_report w _)

/-- Getting a URL asks for it once. -/
lemma exec_get (url : Text) (w : World) :
    ∃ x w', (get url).exec w = (x, w') ∧ World.Reported w w' ∧
      w'.requests = w.requests ++ [url] ∧
      ∀ content, x = .ok content ↔
        ∃ status phrase, w.remote url = .response status phrase content ∧
          Status.isSuccess status = true := by
  obtain ⟨u, hget, hreported, hrequests⟩ := exec_get_eq url w
  obtain ⟨x, w', hexec, hafter, hrequests', hcontent⟩ := exec_body url (w.remote url) u
  exact ⟨x, w', hget.trans hexec, hreported.trans hafter, hrequests'.trans hrequests, hcontent⟩

/-- Without a source, nothing is asked for. -/
lemma exec_fetchIndex_unsupported {f : Fetcher} {language : Text} {e : Failure}
    (h : f.sources.indexUrl language = .error e) (w : World) :
    (f.fetchIndex language).exec w = (.error e, w) := by
  unfold fetchIndex
  rw [Action.exec_bind, h]
  rfl

/-- The index of a language is asked for once, and it is what a success holds. -/
theorem exec_fetchIndex {f : Fetcher} {language url : Text}
    (h : f.sources.indexUrl language = .ok url) (w : World) :
    ∃ x w', (f.fetchIndex language).exec w = (x, w') ∧ World.Reported w w' ∧
      w'.requests = w.requests ++ [url] ∧
      ∀ index, x = .ok index ↔ ∃ status phrase content,
        w.remote url = .response status phrase content ∧ Status.isSuccess status = true ∧
          Index.decode w.host.reader content = .ok index := by
  obtain ⟨x, w₁, hget, hreported, hrequests, hcontent⟩ := exec_get url w
  unfold fetchIndex
  rw [Action.exec_bind, h]
  simp only [Action.exec_ofExcept, Action.exec_bind, Action.exec_reader, hget]
  cases x with
  | error e =>
    refine ⟨.error e, w₁, rfl, hreported, hrequests, ?_⟩
    intro index
    constructor
    · intro herror
      cases herror
    · rintro ⟨status, phrase, content, hreply, hsuccess, -⟩
      have := (hcontent content).mpr ⟨status, phrase, hreply, hsuccess⟩
      cases this
  | ok content =>
    obtain ⟨status, phrase, hreply, hsuccess⟩ := (hcontent content).mp rfl
    have hdecode : ∀ index, (∃ status' phrase' content',
        w.remote url = .response status' phrase' content' ∧ Status.isSuccess status' = true ∧
          Index.decode w.host.reader content' = .ok index) ↔
            Index.decode w.host.reader content = .ok index := by
      intro index
      constructor
      · rintro ⟨status', phrase', content', hreply', -, hindex⟩
        rw [hreply] at hreply'
        cases hreply'
        exact hindex
      · exact fun hindex => ⟨status, phrase, content, hreply, hsuccess, hindex⟩
    cases hreceive : Index.decode w.host.reader content with
    | error reason =>
      refine ⟨.error (.malformed url reason), w₁, ?_, hreported, hrequests, ?_⟩
      · simp only [Index.receive, hreceive]
      · intro index
        rw [hdecode, hreceive]
        simp
    | ok index =>
      refine ⟨.ok index, w₁.report ⟨.info, "index.fetched",
        Context.bind [("component", .string "index_fetcher")]
          [("url", .string url), ("entries", .int index.entries.length)], none⟩, ?_,
        hreported.trans (World.reported_report w₁ _), ?_, ?_⟩
      · simp only [Index.receive, hreceive]
        rfl
      · rw [World.requests_report, hrequests]
      · intro index'
        rw [hdecode, hreceive]
        simp

/-- Fetching a document changes no file but the log. -/
lemma exec_fetchDocument (f : Fetcher) (path : Text) (w : World) :
    ∃ x w', (f.fetchDocument path).exec w = (x, w') ∧ World.Reported w w' := by
  unfold fetchDocument
  rw [Action.exec_bind, Action.exec_ofExcept]
  cases f.sources.documentUrl path with
  | error e => exact ⟨_, w, rfl, .refl w⟩
  | ok url =>
    obtain ⟨x, w₁, hget, hreported, -, -⟩ := exec_get url w
    simp only [Action.exec_ofExcept, Action.exec_bind, hget]
    cases x with
    | error e => exact ⟨_, w₁, rfl, hreported⟩
    | ok content =>
      simp only
      cases documentText url content with
      | error e => exact ⟨_, w₁, rfl, hreported⟩
      | ok text => exact ⟨_, _, rfl, hreported.trans (World.reported_report w₁ _)⟩

end Fetcher

end EditorDocs
