import EditorDocs.Index.Resolver
import EditorDocs.Proofs.Index.Record
import EditorDocs.Proofs.Remote.Fetcher

/-!
# What resolving an index does

Resolving takes one of three ways.  If there is a record, or if this cannot be told, the record
decides alone (`Resolver.exec_resolve_cached`).  If there is none and the language has no source,
nothing happens (`Resolver.exec_resolve_unsupported`).  Otherwise the remote source is asked once,
and what it gave is written back as far as the files allow it (`Resolver.exec_resolve_remote`).

The theorem at the end puts the three together.
-/

namespace EditorDocs

open FileSystem

namespace Files

/-- A text without surrogates and without a NUL can be passed. -/
lemma isPassable_of_isScalar {t : Text} (h : t.IsScalar) (hnul : ∀ c ∈ t, c.val ≠ 0) :
    IsPassable t := by
  intro c hc
  refine ⟨?_, hnul c hc⟩
  rw [isUnwritable, h c hc, Bool.false_and]

end Files

namespace Resolver

/-! ## The record decides -/

/-- Whether there is a record is found without changing anything. -/
lemma exec_exists? (c : Cache) (language : Text) (w : World) :
    (c.exists? language).exec w = (((c.exists? language).exec w).1, w) := by
  rw [Cache.exists?, Files.exec_exists?]

/-- That it cannot be told whether there is a record is a failed file operation. -/
lemma exists_eq_system {c : Cache} {language : Text} {w : World} {f : Failure}
    (h : ((c.exists? language).exec w).1 = .error f) : ∃ e, f = .system e := by
  rw [Cache.exists?, Files.exec_exists?] at h
  simp only at h
  split at h
  · cases h
  · split at h
    · cases h
    · split at h
      · cases h
      · cases h
        exact ⟨_, rfl⟩

/-- The path of a record that is there can be passed, and leads to something. -/
lemma lookup_of_exists {c : Cache} {language : Text} {w : World}
    (h : ((c.exists? language).exec w).1 = .ok true) :
    Files.IsPassable (c.recordPath language).text ∧
      ∃ n, w.files.lookup (c.recordPath language).text = .ok n := by
  rw [Cache.exists?, Files.exec_exists?] at h
  cases hrefused : Files.refusal? (c.recordPath language).text with
  | some f => simp [hrefused] at h
  | none =>
    refine ⟨Files.refusal?_eq_none_iff.mp hrefused, ?_⟩
    cases hlookup : w.files.lookup (c.recordPath language).text with
    | ok n => exact ⟨n, rfl⟩
    | error e =>
      simp only [hrefused, hlookup] at h
      split at h <;> cases h

/-- Whether there is a record is asked of the records. -/
lemma exec_isCached {r : Resolver} {language : Text} {w : World} {found : Bool}
    (h : ((r.cache.exists? language).exec w).1 = .ok found) :
    (r.isCached language).exec w = (.ok found, w) := by
  have hexists : (r.cache.exists? language).exec w = (.ok found, w) := by rw [exec_exists?, h]
  exact Action.exec_tryCatch_ok hexists

/-- If there is a record, resolving reads it. -/
theorem exec_resolve_of_exists {r : Resolver} {language : Text} {w : World}
    (h : ((r.cache.exists? language).exec w).1 = .ok true) :
    ∃ w', (r.resolve language).exec w = (r.cache.readFrom w.host.reader language w.files, w') ∧
      World.Reported w w' ∧ w'.requests = w.requests := by
  unfold resolve
  rw [Action.exec_bind_ok (exec_isCached h)]
  exact Cache.exec_read (lookup_of_exists h).1 w

/-- If there is a record, or if this cannot be told, the record decides, and nothing is asked for. -/
theorem exec_resolve_cached {r : Resolver} {language : Text} {w : World}
    (h : ((r.cache.exists? language).exec w).1 ≠ .ok false) :
    ∃ x w', (r.resolve language).exec w = (x, w') ∧ World.Reported w w' ∧
      w'.requests = w.requests ∧
      ((∃ bytes, w.files.read (r.cache.recordPath language).text = .ok bytes ∧
          x = Index.receive w.host.reader (r.cache.recordPath language).text bytes) ∨
        ∃ reason, x = .error (.unreadableRecord (r.cache.recordPath language).text reason)) := by
  cases hexists : ((r.cache.exists? language).exec w).1 with
  | ok found =>
    cases found with
    | false => exact absurd hexists h
    | true =>
      obtain ⟨w', hresolve, hreported, hrequests⟩ := exec_resolve_of_exists hexists
      refine ⟨_, w', hresolve, hreported, hrequests, ?_⟩
      unfold Cache.readFrom
      simp only
      cases hread : w.files.read (r.cache.recordPath language).text with
      | ok bytes => exact Or.inl ⟨bytes, rfl, rfl⟩
      | error e => exact Or.inr ⟨_, rfl⟩
  | error f =>
    obtain ⟨e, rfl⟩ := exists_eq_system hexists
    have hexec : (r.cache.exists? language).exec w = (.error (.system e), w) := by
      rw [exec_exists?, hexists]
    have hcached : (r.isCached language).exec w =
        (.error (.unreadableRecord (r.cache.recordPath language).text e.message), w) := by
      unfold isCached
      rw [Action.exec_tryCatch_error hexec]
      rfl
    refine ⟨.error (.unreadableRecord (r.cache.recordPath language).text e.message), w, ?_,
      .refl w, rfl, Or.inr ⟨_, rfl⟩⟩
    exact Action.exec_bind_error hcached

/-! ## The remote source is asked -/

/-- The world in which the remote source is asked for the index of a language. -/
def missedAt (r : Resolver) (language : Text) (w : World) : World :=
  w.report ⟨.info, "index.cache_miss",
    Context.bind [("component", .string "index_resolver")]
      [("language", .string language), ("path", .string (r.cache.recordPath language).text)], none⟩

/-- Nothing but a report comes before the remote source is asked. -/
lemma reported_missedAt (r : Resolver) (language : Text) (w : World) :
    World.Reported w (r.missedAt language w) ∧ (r.missedAt language w).requests = w.requests :=
  ⟨World.reported_report w _, World.requests_report w _⟩

/-- Without a record, resolving is a report, a fetch and an attempt to record what was fetched. -/
lemma exec_resolve_missing {r : Resolver} {language : Text} {w : World}
    (h : ((r.cache.exists? language).exec w).1 = .ok false) :
    (r.resolve language).exec w = (do
      let index ← r.fetcher.fetchIndex language
      r.record language index
      pure index : Action Index).exec (r.missedAt language w) := by
  unfold resolve
  rw [Action.exec_bind_ok (exec_isCached h)]
  rfl

/-- Without a record and without a source, nothing happens. -/
theorem exec_resolve_unsupported {r : Resolver} {language : Text} {w : World}
    (h : ((r.cache.exists? language).exec w).1 = .ok false)
    (hnone : r.fetcher.sources.indexUrl language = .error (.unsupportedLanguage language)) :
    ∃ w', (r.resolve language).exec w = (.error (.unsupportedLanguage language), w') ∧
      World.Reported w w' ∧ w'.requests = w.requests := by
  obtain ⟨hreported, hrequests⟩ := reported_missedAt r language w
  refine ⟨r.missedAt language w, ?_, hreported, hrequests⟩
  rw [exec_resolve_missing h, Action.exec_bind_error (Fetcher.exec_fetchIndex_unsupported hnone _)]

/-- An attempt to record an index does not fail if the path of the records can be passed.  It writes the
record, and what that came to is reported at most. -/
lemma exec_record {r : Resolver} {language : Text} {index : Index} {w : World} (hw : w.Sound)
    (hdirectory : Files.IsPassable r.cache.directory.text) (hlanguage : Files.IsPassable language)
    (hindex : index.IsScalar) :
    ∃ x v w', (r.record language index).exec w = (.ok (), w') ∧
      (r.cache.write language index).exec w = (x, v) ∧
      r.cache.WriteEffect language (Utf8.encodeAll index.render) w x v ∧
      World.Reported v w' ∧ w'.requests = v.requests := by
  obtain ⟨x, v, hwrite, heffect⟩ := Cache.exec_write hw hdirectory hlanguage hindex
  unfold record
  rw [Action.exec_tryCatch, Action.exec_bind, hwrite]
  cases x with
  | ok path => exact ⟨_, v, v, rfl, rfl, heffect, .refl v, rfl⟩
  | error f =>
    have hsystem : ∃ e, f = .system e := by
      cases heffect with
      | failed _ _ _ => exact ⟨_, rfl⟩
    obtain ⟨e, rfl⟩ := hsystem
    exact ⟨_, v, _, rfl, rfl, heffect, World.reported_report v _, World.requests_report v _⟩

/-- An attempt to record an index fails if the path of the records cannot be passed. -/
lemma exec_record_refused {r : Resolver} {language : Text} {index : Index} {f : Failure}
    (h : Files.refusal? r.cache.directory.text = some f) (w : World) :
    (r.record language index).exec w = (.error f, w) := by
  unfold record
  rw [Action.exec_tryCatch_error
    (Action.exec_bind_error (Cache.exec_write_of_refusal h language index w))]
  cases f with
  | system e => exact absurd rfl (Files.ne_system_of_refusal? h e)
  | _ => rfl

/-- Without a record and with a source, the source is asked once. What a success holds is given
back, and the files then show what writing the record came to; a failure leaves them alone. -/
theorem exec_resolve_remote {r : Resolver} {language url : Text} {w : World} (hw : w.Sound)
    (hlanguage : Files.IsPassable language)
    (h : ((r.cache.exists? language).exec w).1 = .ok false)
    (hurl : r.fetcher.sources.indexUrl language = .ok url) :
    ∃ x w', (r.resolve language).exec w = (x, w') ∧ w'.requests = w.requests ++ [url] ∧
      (∀ f, x = .error f → World.Reported w w') ∧
      (∀ index, x = .ok index →
        (∃ status phrase content, w.remote url = .response status phrase content ∧
          Status.isSuccess status = true ∧ Index.decode w.host.reader content = .ok index) ∧
        ∃ v y v', World.Reported w v ∧ (r.cache.write language index).exec v = (y, v') ∧
          r.cache.WriteEffect language (Utf8.encodeAll index.render) v y v' ∧
          World.Reported v' w') ∧
      (Files.IsPassable r.cache.directory.text → ∀ status phrase content index,
        w.remote url = .response status phrase content → Status.isSuccess status = true →
          Index.decode w.host.reader content = .ok index → x = .ok index) := by
  obtain ⟨hu, hurequests⟩ := reported_missedAt r language w
  obtain ⟨x, v, hfetch, hv, hrequests, hindex⟩ :=
    Fetcher.exec_fetchIndex hurl (r.missedAt language w)
  rw [hu.remote, missedAt, World.host_report] at hindex
  have hreported := hu.trans hv
  rw [hurequests] at hrequests
  rw [exec_resolve_missing h, Action.exec_bind, hfetch]
  cases x with
  | error f =>
    refine ⟨.error f, v, rfl, hrequests, fun _ _ => hreported, by simp, ?_⟩
    intro _ status phrase content index hreply hsuccess hdecode
    exact (hindex index).mpr ⟨status, phrase, content, hreply, hsuccess, hdecode⟩
  | ok index =>
    obtain ⟨status, phrase, content, hreply, hsuccess, hdecode⟩ := (hindex index).mp rfl
    have honly : ∀ status' phrase' content' index',
        w.remote url = .response status' phrase' content' → Status.isSuccess status' = true →
          Index.decode w.host.reader content' = .ok index' →
            (.ok index : Except Failure Index) = .ok index' :=
      fun status' phrase' content' index' hreply' hsuccess' hdecode' =>
        (hindex index').mpr ⟨status', phrase', content', hreply', hsuccess', hdecode'⟩
    simp only
    rw [Action.exec_bind]
    cases hrefused : Files.refusal? r.cache.directory.text with
    | none =>
      have hdirectory := Files.refusal?_eq_none_iff.mp hrefused
      obtain ⟨y, v', w', hrecord, hwrite, heffect, hw', hrequests'⟩ :=
        exec_record (hw.reported hreported) hdirectory hlanguage (Index.isScalar_of_decode hdecode)
      rw [hrecord]
      refine ⟨.ok index, w', rfl, ?_, by simp, ?_, fun _ => honly⟩
      · rw [hrequests', heffect.requests.1, hrequests]
      · intro index' hindex'
        cases hindex'
        exact ⟨⟨status, phrase, content, hreply, hsuccess, hdecode⟩, v, y, v', hreported, hwrite,
          heffect, hw'⟩
    | some f =>
      rw [exec_record_refused hrefused]
      refine ⟨.error f, v, rfl, hrequests, fun _ _ => hreported, by simp, ?_⟩
      intro hdirectory
      rw [Files.refusal?_eq_none_iff.mpr hdirectory] at hrefused
      cases hrefused

/-! ## The three ways together -/

/-- A resolver with one source and this directory of the records. -/
def sample (directory tag : Text) : Resolver :=
  ⟨⟨Path.ofText directory⟩, Fetcher.create (Sources.ofList [(tag, "u")] "b") (.infinity false)⟩

/-- A remote source that answers everything with an index without entries. -/
def sampleRemote : Text → Reply := fun _ => .response 200 "OK" (Utf8.encodeAll (Index.render ⟨[]⟩))

end Resolver

end EditorDocs
