import EditorDocs.Proofs.Remote.Fetcher
import EditorDocs.Proofs.Text.Valid

/-!
# How a fetch ends

Fetching an index and fetching a document differ in the URL that is looked up and in what a body has to
hold.  Everything else they share: the reply alone decides how a fetch ends, in one of four ways
(`Fetcher.Ends`).  `Fetcher.exec_fetch` executes what they share, and `Fetcher.fetch_ends` says of both
that they ask for their URL once, or for none if there is none.
-/

namespace EditorDocs

/-- The reply is a response, or the exchange failed in a way that has a name. -/
def Reply.IsExchange : Reply → Prop
  | .response _ _ _ => True
  | .broken kind _ => kind ≠ []
  | .refusedUrl _ | .cookieConflict _ | .interruption => False

namespace Fetcher

/-- How a fetch from a URL ends with a reply, where `holds` says what the body of a response holds. -/
inductive Ends {α : Type} (holds : Bytes → α → Prop) (url : Text) :
    Reply → Except Failure α → Prop where
  /-- The exchange failed, which has a reason and no status. -/
  | broken {kind message reason : Text}
      (words : reason = if message.isEmpty then kind else message) (named : reason ≠ []) :
      Ends holds url (.broken kind message) (.error (.remote url reason none))
  /-- The status is that of no success, whatever the body holds. -/
  | refused {status : Nat} {phrase : Text} {content : Bytes}
      (failure : ¬ (200 ≤ status ∧ status ≤ 299)) :
      Ends holds url (.response status phrase content)
        (.error (.remote url (("HTTP status not OK: " : Text) ++ Text.ofNat status ++ " " ++
          phrase) (some status)))
  /-- The body of a success holds nothing. -/
  | malformed {status : Nat} {phrase : Text} {content : Bytes} {reason : Text}
      (success : 200 ≤ status ∧ status ≤ 299) (nothing : ∀ a, ¬ holds content a) :
      Ends holds url (.response status phrase content) (.error (.malformed url reason))
  /-- The body of a success holds the result, and nothing else. -/
  | held {status : Nat} {phrase : Text} {content : Bytes} {a : α}
      (success : 200 ≤ status ∧ status ≤ 299) (holding : holds content a)
      (only : ∀ b, holds content b → b = a) :
      Ends holds url (.response status phrase content) (.ok a)

section Ends

variable {α : Type} {holds : Bytes → α → Prop} {url : Text} {reply : Reply} {x : Except Failure α}

/-- A fetch succeeds if and only if the reply is a success whose body holds the result. -/
lemma Ends.eq_ok_iff (h : Ends holds url reply x) (a : α) :
    x = .ok a ↔ ∃ status phrase content, reply = .response status phrase content ∧
      (200 ≤ status ∧ status ≤ 299) ∧ holds content a := by
  constructor
  · rintro rfl
    cases h with
    | held success holding only => exact ⟨_, _, _, rfl, success, holding⟩
  · rintro ⟨status, phrase, content, rfl, success, holding⟩
    cases h with
    | refused failure => exact absurd success failure
    | malformed _ nothing => exact absurd holding (nothing a)
    | held _ _ only => rw [only a holding]

end Ends

/-- A status is a success if it lies between 200 and 299. -/
lemma isSuccess_iff {status : Nat} :
    Status.isSuccess status = true ↔ 200 ≤ status ∧ status ≤ 299 := by
  simp [Status.isSuccess]

/-- What a body is decoded to is what it holds, and what cannot be decoded is malformed. -/
structure Decodes {α : Type} (decode : Bytes → Except Failure α) (holds : Bytes → α → Prop)
    (url : Text) : Prop where
  /-- What is decoded is what the body holds. -/
  ok : ∀ content a, decode content = .ok a ↔ holds content a
  /-- What cannot be decoded is malformed. -/
  error : ∀ content e, decode content = .error e → ∃ reason, e = .malformed url reason

/-- An index is decoded to what its bytes hold. -/
lemma decodes_receive (r : Json.Reader) (url : Text) :
    Decodes (Index.receive r url) (fun content index => Index.decode r content = .ok index) url where
  ok content index := by
    unfold Index.receive
    cases Index.decode r content <;> simp
  error content e h := by
    unfold Index.receive at h
    cases hdecode : Index.decode r content with
    | ok index => simp [hdecode] at h
    | error reason =>
      simp only [hdecode, Except.error.injEq] at h
      exact ⟨reason, h.symm⟩

/-- A document is decoded to the text that its bytes spell. -/
lemma decodes_documentText (url : Text) :
    Decodes (documentText url) (fun content t => t.IsScalar ∧ content = Utf8.encodeAll t) url where
  ok content t := by
    have hspells : Utf8.decode content = .ok t ↔ t.IsScalar ∧ content = Utf8.encodeAll t := by
      constructor
      · exact fun h => ⟨Utf8.isScalar_of_decode h, (Utf8.encodeAll_of_decode h).symm⟩
      · rintro ⟨hscalar, rfl⟩
        exact Utf8.decode_encodeAll hscalar
    rw [← hspells, documentText]
    cases Utf8.decode content <;> simp
  error content e h := by
    unfold documentText at h
    cases hdecode : Utf8.decode content with
    | ok t => simp [hdecode] at h
    | error m =>
      simp only [hdecode, Except.error.injEq] at h
      exact ⟨_, h.symm⟩

section Exchange

variable {α : Type} {decode : Bytes → Except Failure α} {holds : Bytes → α → Prop} {url : Text}

variable (holds url) in
/-- The body of a reply is what a success brings; another reply is how the fetch ends. -/
lemma exec_body_exchange {reply : Reply} (hreply : reply.IsExchange) (w : World) :
    (∃ status phrase content, reply = .response status phrase content ∧
        (200 ≤ status ∧ status ≤ 299) ∧ (body url reply).exec w = (.ok content, w)) ∨
      ∃ e w', (body url reply).exec w = (.error e, w') ∧ Ends holds url reply (.error e) ∧
        World.Reported w w' ∧ w'.requests = w.requests := by
  cases reply with
  | response status phrase content =>
    rw [body]
    by_cases hsuccess : Status.isSuccess status = true
    · rw [if_pos hsuccess]
      exact Or.inl ⟨status, phrase, content, rfl, isSuccess_iff.mp hsuccess, rfl⟩
    · rw [if_neg hsuccess]
      obtain ⟨w', hexec, hreported, hrequests⟩ := exec_report_throw (α := Bytes) "http.bad_status"
        (c := [("url", .string url), ("status", .int status)]) rfl _ w
      exact Or.inr ⟨_, w', hexec, .refused fun h => hsuccess (isSuccess_iff.mpr h), hreported,
        hrequests⟩
  | broken kind message =>
    have hnamed : (if message.isEmpty then kind else message) ≠ [] := by
      split
      · exact hreply
      · rename_i hmessage
        exact fun hnil => hmessage (List.isEmpty_iff.mpr hnil)
    obtain ⟨w', hexec, hreported, hrequests⟩ := exec_report_throw (α := Bytes) "http.get_failed"
      (c := [("url", .string url), ("error", .string message), ("error_type", .string kind)]) rfl _ w
    exact Or.inr ⟨_, w', hexec, .broken rfl hnamed, hreported, hrequests⟩
  | refusedUrl message => exact hreply.elim
  | cookieConflict message => exact hreply.elim
  | interruption => exact hreply.elim

/-- What both fetches do with a URL: it is asked for once, and what comes back is decoded and told. -/
lemma exec_fetch (hdecode : Decodes decode holds url) {tell : α → Record}
    (hflat : ∀ a, (tell a).context.isFlat = true) (w : World) (hreply : (w.remote url).IsExchange) :
    ∃ x w', (do
        let a ← Action.ofExcept (decode (← get url))
        Action.report (tell a)
        pure a : Action α).exec w = (x, w') ∧
      w'.requests = w.requests ++ [url] ∧ World.Reported w w' ∧ Ends holds url (w.remote url) x := by
  obtain ⟨u, hget, hreported, hrequests⟩ := exec_get_eq url w
  rcases exec_body_exchange holds url hreply u with
    ⟨status, phrase, content, hresponse, hsuccess, hbody⟩ | ⟨e, w', hbody, hends, hafter, hrequests'⟩
  · rw [Action.exec_bind_ok (hget.trans hbody), Action.exec_bind, Action.exec_ofExcept, hresponse]
    cases hcontent : decode content with
    | ok a =>
      have hholds := (hdecode.ok content a).mp hcontent
      have honly : ∀ b, holds content b → b = a := by
        intro b hb
        rw [(hdecode.ok content b).mpr hb] at hcontent
        exact Except.ok.inj hcontent
      refine ⟨.ok a, u.report (tell a), ?_, (World.requests_report u _).trans hrequests,
        hreported.trans (World.reported_report u _), .held hsuccess hholds honly⟩
      simp only
      rw [Action.exec_bind, Action.exec_report_of_isFlat (hflat a)]
      rfl
    | error e =>
      obtain ⟨reason, rfl⟩ := hdecode.error content e hcontent
      have hnothing : ∀ a, ¬ holds content a := by
        intro a ha
        rw [(hdecode.ok content a).mpr ha] at hcontent
        cases hcontent
      exact ⟨_, u, rfl, hrequests, hreported, .malformed hsuccess hnothing⟩
  · rw [Action.exec_bind_error (hget.trans hbody)]
    exact ⟨_, w', rfl, hrequests'.trans hrequests, hreported.trans hafter, hends⟩

end Exchange

/-- A fetch asks for a URL once, changes no file but the log and ends as the reply says.  If there is no
URL it fails as looking the URL up did, and nothing happens. -/
structure Fetches {α : Type} (w : World) (url? : Except Failure Text) (holds : Bytes → α → Prop)
    (fetch : Action α) : Prop where
  /-- Without a URL, nothing is asked for. -/
  unknown : ∀ e, url? = .error e → fetch.exec w = (.error e, w)
  /-- A URL is asked for once. -/
  known : ∀ url, url? = .ok url → ∃ x w', fetch.exec w = (x, w') ∧
    w'.requests = w.requests ++ [url] ∧ World.Reported w w' ∧ Ends holds url (w.remote url) x ∧
    ∀ a, x = .ok a ↔ ∃ status phrase content, w.remote url = .response status phrase content ∧
      (200 ≤ status ∧ status ≤ 299) ∧ holds content a

/-- An action that looks a URL up and then does what fetches do is one. -/
lemma fetches_of_lookup {α : Type} {decode : Text → Bytes → Except Failure α}
    {holds : Bytes → α → Prop} (hdecode : ∀ url, Decodes (decode url) holds url)
    (tell : Text → α → Record) (hflat : ∀ url a, (tell url a).context.isFlat = true)
    (url? : Except Failure Text) {w : World} (hremote : ∀ url, (w.remote url).IsExchange) :
    Fetches w url? holds (do
      let url ← Action.ofExcept url?
      let a ← Action.ofExcept (decode url (← get url))
      Action.report (tell url a)
      pure a) where
  unknown e h := by
    subst h
    rfl
  known url h := by
    subst h
    obtain ⟨x, w', hexec, hrequests, hreported, hends⟩ :=
      exec_fetch (hdecode url) (hflat url) w (hremote url)
    exact ⟨x, w', (Action.exec_bind_ok rfl).trans hexec, hrequests, hreported, hends,
      hends.eq_ok_iff⟩

/-- To fetch an index is to do what fetches do, with the reader of documents that the machine has. -/
lemma fetches_fetchIndex (f : Fetcher) (language : Text) {w : World}
    (hremote : ∀ url, (w.remote url).IsExchange) :
    Fetches w (f.sources.indexUrl language)
      (fun content index => Index.decode w.host.reader content = .ok index)
      (f.fetchIndex language) := by
  let tell (url : Text) (index : Index) : Record := ⟨.info, "index.fetched",
    Context.bind [("component", .string "index_fetcher")]
      [("url", .string url), ("entries", .int index.entries.length)], none⟩
  have hfetches := fetches_of_lookup (decodes_receive w.host.reader) tell
    (fun _ _ => rfl) (f.sources.indexUrl language) hremote
  have hsame : ∀ url, f.sources.indexUrl language = .ok url → (f.fetchIndex language).exec w = (do
      let a ← Action.ofExcept (Index.receive w.host.reader url (← get url))
      Action.report (tell url a)
      pure a : Action Index).exec w := by
    intro url hurl
    unfold fetchIndex
    rw [hurl]
    simp only [Action.exec_bind, Action.exec_ofExcept, Action.exec_reader, report, tell]
  constructor
  · exact fun e he => exec_fetchIndex_unsupported he w
  · intro url hurl
    have hknown := hfetches.known url hurl
    rw [hurl] at hknown
    rw [hsame url hurl]
    exact hknown

/-- Both fetches ask for one URL once, that of the index of the language or that of the document at the
path; if the table has none they fail as looking it up does, and nothing happens.  They succeed if and
only if the reply is a success whose body holds an index, or spells a text.  A failed exchange, a
status that is no success and a body that holds nothing each have their own failure, which names the
URL.  No file changes but the log. -/
theorem fetch_ends (f : Fetcher) (w : World) (hremote : ∀ url, (w.remote url).IsExchange) :
    (∀ language, Fetches w (f.sources.indexUrl language)
      (fun content index => Index.decode w.host.reader content = .ok index)
      (f.fetchIndex language)) ∧
    ∀ path, Fetches w (f.sources.documentUrl path)
      (fun content text => text.IsScalar ∧ content = Utf8.encodeAll text) (f.fetchDocument path) :=
  ⟨fun language => fetches_fetchIndex f language hremote,
    fun path => fetches_of_lookup decodes_documentText (fun url text => ⟨.info, "document.fetched",
      Context.bind [("component", .string "index_fetcher")]
        [("url", .string url), ("chars", .int text.length)], none⟩) (fun _ _ => rfl)
      (f.sources.documentUrl path) hremote⟩

/-- A remote source that has nothing, and says so with an index without entries. -/
def sampleAbsence : Text → Reply := fun _ => .response 404 "Not Found" (Utf8.encodeAll (Index.render ⟨[]⟩))

/-- The index in the body of an answer that is no success is not taken, and it is not asked for again. -/
theorem fetch_ends_sample :
    let f : Fetcher := create (Sources.ofList [("py", "u")] "b") (.infinity false)
    (∀ url, (sampleAbsence url).IsExchange) ∧
      ((f.fetchIndex "PY").exec (World.still (.directory []) sampleAbsence)).1 =
        .error (.remote "u" "HTTP status not OK: 404 Not Found" (some 404)) ∧
      ((f.fetchIndex "PY").exec (World.still (.directory []) sampleAbsence)).2.requests = ["u"] := by
  intro f
  have hremote : ∀ url, (sampleAbsence url).IsExchange := fun _ => trivial
  obtain ⟨x, w', hexec, hrequests, -, hends, -⟩ :=
    ((fetch_ends f (World.still (.directory []) sampleAbsence) hremote).1 "PY").known "u"
      (by decide +kernel)
  refine ⟨hremote, ?_, ?_⟩
  · rw [hexec]
    cases hends with
    | refused _ =>
      have hreason : ("HTTP status not OK: " : Text) ++ Text.ofNat 404 ++ " " ++ "Not Found" =
          "HTTP status not OK: 404 Not Found" := by decide +kernel
      rw [hreason]
    | malformed success _ => exact absurd success (by decide)
    | held success _ _ => exact absurd success (by decide)
  · rw [hexec, hrequests]
    rfl

end Fetcher

end EditorDocs
