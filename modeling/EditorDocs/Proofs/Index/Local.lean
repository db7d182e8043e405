import EditorDocs.Index.Resolver
import EditorDocs.Proofs.Index.Site

/-!
# Actions on one record

An action is local to a language if what it gives, what it asks for and what it makes of the record of
the language follow from this record alone, and if it changes nothing else but whether the directory of
the records has been made (`Cache.IsLocal`).  Local actions can be put together.  To look for a record,
to read it, to write it, to delete it and to resolve its index is local.
-/

namespace EditorDocs

open FileSystem

namespace Cache

/-! ## Turns -/

/-- What an action comes to in view of a record. -/
structure Turn (α : Type) where
  /-- What the action gives. -/
  outcome : Except Failure α
  /-- What it asks for. -/
  urls : List Text
  /-- It makes the directory of the records. -/
  makes : Bool
  /-- What the entry of the record becomes. -/
  entry : Option Face

/-- The stock after a turn on the record at a location. -/
def Stock.after {α : Type} (σ : Stock) (loc : Location) (t : Turn α) : Stock :=
  ⟨σ.made || t.makes, Function.update σ.view loc t.entry⟩

variable {c : Cache} {about : Text → Prop} {w u v : World} {d : Location} {language : Text}
  {σ : Stock} {α β : Type}

/-- The action takes such a turn on the record of a language in a world with this stock. -/
def Does (c : Cache) (about : Text → Prop) (w : World) (d : Location) (language : Text) (u : World)
    (σ : Stock) (a : Action α) (t : Turn α) : Prop :=
  ∃ v, a.exec u = (t.outcome, v) ∧ v.requests = u.requests ++ t.urls ∧
    c.HasStock about w d v (σ.after (d ++ [entryName language]) t)

/-- What the action comes to follows from the record of the language. -/
def IsLocal (c : Cache) (about : Text → Prop) (w : World) (d : Location) (language : Text)
    (a : Action α) : Prop :=
  ∃ turn : Option Face → Turn α, ∀ u σ, c.HasStock about w d u σ →
    c.Does about w d language u σ a (turn (σ.view (d ++ [entryName language])))

/-! ## Local actions put together -/

/-- Two turns one after the other, of which the second follows from the result of the first. -/
def Turn.andThen (t : Turn α) (next : Except Failure α → Option Face → Turn β) : Turn β :=
  let t' := next t.outcome t.entry
  ⟨t'.outcome, t.urls ++ t'.urls, t.makes || t'.makes, t'.entry⟩

/-- What an action does that ends at once. -/
def Turn.idle (x : Except Failure α) (urls : List Text) (entry : Option Face) : Turn α :=
  ⟨x, urls, false, entry⟩

/-- A turn that leaves the record as it is leaves the stock as it is. -/
lemma Stock.after_idle (σ : Stock) (loc : Location) (x : Except Failure α) (urls : List Text) :
    σ.after loc (.idle x urls (σ.view loc)) = σ := by
  rw [after, Turn.idle, Bool.or_false, Function.update_eq_self]

/-- Two turns one after the other have the effect of both on the stock. -/
lemma Stock.after_andThen (σ : Stock) (loc : Location) (t : Turn α)
    (next : Except Failure α → Option Face → Turn β) :
    σ.after loc (t.andThen next) = (σ.after loc t).after loc (next t.outcome t.entry) := by
  rw [after, after, after, Turn.andThen, Function.update_idem, Bool.or_assoc]

/-- What a turn makes of the record is then in the stock. -/
lemma Stock.view_after (σ : Stock) (loc : Location) (t : Turn α) :
    (σ.after loc t).view loc = t.entry := Function.update_self _ _ _

/-- An action is local that goes on from a local one, whether that succeeds or fails. -/
lemma IsLocal.andThen {a : Action α} {b : Action β} {k : Except Failure α → Action β}
    (h : c.IsLocal about w d language a) (hk : ∀ x, c.IsLocal about w d language (k x))
    (hb : ∀ u, b.exec u = (k (a.exec u).1).exec (a.exec u).2) : c.IsLocal about w d language b := by
  obtain ⟨turn, hturn⟩ := h
  choose next hnext using hk
  refine ⟨fun entry => (turn entry).andThen next, fun u σ hu => ?_⟩
  obtain ⟨v, hv, hrequests, hstock⟩ := hturn u σ hu
  obtain ⟨v', hv', hrequests', hstock'⟩ := hnext _ v _ hstock
  rw [Stock.view_after] at hv' hrequests' hstock'
  refine ⟨v', ?_, ?_, ?_⟩
  · rw [hb, hv]
    exact hv'
  · rw [hrequests', hrequests, List.append_assoc]
    rfl
  · rw [Stock.after_andThen]
    exact hstock'

/-- An action that only reports and asks is local if it always gives the same. -/
lemma isLocal_of_reported {a : Action α} (x : Except Failure α) (urls : List Text)
    (h : ∀ u, u.remote = w.remote → u.host = w.host → ∃ v, a.exec u = (x, v) ∧ World.Reported u v ∧
      v.requests = u.requests ++ urls) (hnamed : a.KeepsNames) : c.IsLocal about w d language a := by
  refine ⟨.idle x urls, fun u σ hu => ?_⟩
  obtain ⟨v, hv, hreported, hrequests⟩ := h u hu.remote hu.host
  have hnamed' := hnamed u hu.named
  rw [hv] at hnamed'
  refine ⟨v, hv, hrequests, ?_⟩
  rw [Stock.after_idle]
  exact hu.reported hreported hnamed'

/-- To go on with what a computation gives is local. -/
lemma isLocal_ofExcept (x : Except Failure α) : c.IsLocal about w d language (Action.ofExcept x) :=
  isLocal_of_reported x []
    (fun u _ _ => ⟨u, Action.exec_ofExcept x u, .refl u, (List.append_nil _).symm⟩)
    (Action.keepsNames_ofExcept x)

/-- To give something is local. -/
lemma isLocal_pure (x : α) : c.IsLocal about w d language (pure x : Action α) :=
  isLocal_ofExcept (.ok x)

/-- To fail is local. -/
lemma isLocal_throw (f : Failure) : c.IsLocal about w d language (throw f : Action α) :=
  isLocal_ofExcept (.error f)

/-- To report values that hold no others is local. -/
lemma isLocal_report {r : Record} (h : r.context.isFlat = true) :
    c.IsLocal about w d language (Action.report r) :=
  isLocal_of_reported (.ok ()) []
    (fun u _ _ => ⟨u.report r, Action.exec_report_of_isFlat h u, World.reported_report u r, by simp⟩)
    (Action.keepsNames_report r)

/-- To ask how numbers are measured is local. -/
lemma isLocal_reader : c.IsLocal about w d language Action.reader :=
  isLocal_of_reported (.ok w.host.reader) []
    (fun u _ hu => ⟨u, by rw [Action.exec_reader, hu], .refl u, (List.append_nil _).symm⟩)
    (Action.keepsNames_of_files fun _ => rfl)

/-- To ask for a URL is local. -/
lemma isLocal_request (url : Text) : c.IsLocal about w d language (Action.request url) :=
  isLocal_of_reported (.ok (w.remote url)) [url]
    (fun u hu _ => ⟨{ u with requests := u.requests ++ [url] }, by rw [Action.exec_request, hu],
      ⟨rfl, ⟨[], by simp⟩, rfl, rfl, rfl⟩, rfl⟩) (Action.keepsNames_request url)

/-- To go on after a success, and to fail after a failure. -/
def onSuccess (f : α → Action β) : Except Failure α → Action β
  | .ok x => f x
  | .error e => throw e

/-- To go on after a failure, and to end after a success. -/
def onFailure (g : Failure → Action α) : Except Failure α → Action α
  | .ok x => pure x
  | .error e => g e

/-- Local actions in a row are local. -/
lemma IsLocal.bind {a : Action α} {f : α → Action β} (h : c.IsLocal about w d language a)
    (hf : ∀ x, c.IsLocal about w d language (f x)) : c.IsLocal about w d language (a >>= f) := by
  refine h.andThen (k := onSuccess f) (fun x => ?_) fun u => ?_
  · cases x with
    | ok x => exact hf x
    | error e => exact isLocal_throw e
  · rw [Action.exec_bind]
    rcases a.exec u with ⟨e | x, v⟩ <;> rfl

/-- A local action is local with a local one after its failures. -/
lemma IsLocal.tryCatch {a : Action α} {g : Failure → Action α} (h : c.IsLocal about w d language a)
    (hg : ∀ e, c.IsLocal about w d language (g e)) : c.IsLocal about w d language (tryCatch a g) := by
  refine h.andThen (k := onFailure g) (fun x => ?_) fun u => ?_
  · cases x with
    | ok x => exact isLocal_pure x
    | error e => exact hg e
  · rw [Action.exec_tryCatch]
    rcases a.exec u with ⟨e | x, v⟩ <;> rfl

/-! ## Looking, writing and deleting -/

/-- What comes of writing an index as the record of a language. -/
def writeTurn (c : Cache) (language : Text) (index : Index) (w : World) (entry : Option Face) :
    Turn Path :=
  match c.readiness w with
  | .error f => ⟨.error f, [], true, entry⟩
  | .ok _ => match c.writeFailure? language index (c.readied w).files with
    | some f => ⟨.error f, [], true, entry⟩
    | none => ⟨.ok (c.recordPath language), [], true, some (.file (Utf8.encodeAll index.render))⟩

section Site

variable (site : c.Site about w) (steady : c.IsSteady about w) (hplace : c.IsPlace w d)
  (hlanguage : about language)
include site steady hplace hlanguage

/-- An action that only looks is local if what it gives follows from what the path of the record
shows. -/
lemma isLocal_of_glance {a : Action α} {m : Manner} (hm : m.writes = false)
    (found : Except Errno Face → Except Failure α)
    (hrefused : ∀ f, Files.refusal? (c.recordPath language).text = some f →
      ∃ x, ∀ u, a.exec u = (x, u))
    (hpass : Files.refusal? (c.recordPath language).text = none →
      ∀ u, a.exec u = (found (u.files.glance m (c.recordPath language).text), u)) :
    c.IsLocal about w d language a := by
  cases hpath : Files.refusal? (c.recordPath language).text with
  | some f =>
    obtain ⟨x, hx⟩ := hrefused f hpath
    refine isLocal_of_reported x [] (fun u _ _ => ⟨u, hx u, .refl u, by simp⟩) ?_
    exact Action.keepsNames_of_files fun u => by rw [hx u]
  | none =>
    refine ⟨fun entry => .idle (found (c.sight w m language entry)) [] entry, fun u σ hu => ?_⟩
    refine ⟨u, ?_, (List.append_nil _).symm, ?_⟩
    · rw [hpass hpath, hu.glance site steady hplace hlanguage (Files.refusal?_eq_none_iff.mp hpath) hm]
      rfl
    · rw [Stock.after_idle]
      exact hu

/-- To look for a record is local. -/
theorem isLocal_exists? : c.IsLocal about w d language (c.exists? language) := by
  refine isLocal_of_glance site steady hplace hlanguage (m := .lookup) rfl
    (fun
      | .ok _ => .ok true
      | .error e => if Files.meansAbsence e then .ok false
        else .error (.system ⟨e, (c.recordPath language).text, none⟩))
    (fun f hf => ⟨.ok false, fun u => ?_⟩) fun hpath u => ?_
  · rw [exists?, Files.exec_exists?, hf]
  · rw [exists?, Files.exec_exists?, hpath, ← State.map_face_lookup]
    cases u.files.lookup (c.recordPath language).text <;> rfl

/-- To read the bytes of a record is local. -/
lemma isLocal_readBytes : c.IsLocal about w d language (readBytes (c.recordPath language).text) := by
  refine IsLocal.tryCatch (isLocal_of_glance site steady hplace hlanguage (m := .lookup) rfl
    (fun shown =>
      Files.outcome (c.recordPath language).text none (shown.bind Face.read))
    (fun f hf => ⟨.error f, fun u => ?_⟩) fun hpath u => ?_) fun e => ?_
  · rw [Files.read, Files.exec_look, hf]
  · rw [Files.read, Files.exec_look, hpath, State.read_eq_of_face, State.map_face_lookup]
  · split
    · exact isLocal_throw _
    · exact isLocal_throw _

/-- To read a record is local. -/
theorem isLocal_read : c.IsLocal about w d language (c.read language) := by
  unfold read
  exact isLocal_reader.bind fun _ => (isLocal_readBytes site steady hplace hlanguage).bind fun _ =>
    (isLocal_ofExcept _).bind fun _ => (isLocal_report rfl).bind fun _ => isLocal_pure _

/-- To delete a record is local. -/
lemma isLocal_unlink : c.IsLocal about w d language (Files.unlink (c.recordPath language).text) := by
  cases hrefused : Files.refusal? (c.recordPath language).text with
  | some f =>
    refine isLocal_of_reported (.error f) [] (fun u _ _ => ⟨u, ?_, .refl u, by simp⟩)
      (Files.keepsNames_unlink _)
    rw [Files.unlink, Action.exec_bind, Files.exec_change, hrefused]
  | none =>
    have hpath := Files.refusal?_eq_none_iff.mp hrefused
    have hslash := (site.simple language hlanguage).noSlash
    refine ⟨fun entry => match c.sight w .entry language entry with
      | .error e => .idle (.error (.system ⟨e, (c.recordPath language).text, none⟩)) [] entry
      | .ok _ => ⟨.ok (), [], true, none⟩, fun u σ hu => ?_⟩
    have hglance := hu.glance site steady hplace hlanguage hpath (m := .entry) rfl
    have hnamed := Files.keepsNames_unlink (c.recordPath language).text u hu.named
    unfold Does
    rw [Files.unlink, Action.exec_bind, Files.exec_change, hrefused] at hnamed ⊢
    cases hsight : c.sight w .entry language (σ.view (d ++ [entryName language])) with
    | error e =>
      rw [hsight] at hglance
      rw [State.unlink_of_glance_error hglance]
      simp only [hsight]
      refine ⟨u, rfl, (List.append_nil _).symm, ?_⟩
      rw [Stock.after_idle]
      exact hu
    | ok face =>
      rw [hsight] at hglance
      obtain ⟨hready, hshort, content, rfl⟩ :=
        hu.fits.of_sight site steady hlanguage hpath hsight
      obtain ⟨loc, hlocate, hunlink⟩ := State.unlink_of_glance hglance
      obtain ⟨d', hd', hloc⟩ := exists_directory_of_record site.proper hslash hpath hlocate
      obtain ⟨rfl, hmade⟩ := hu.made_of_liesAt site steady hplace
        (isPassable_of_readiness hready) hd'
      obtain rfl : loc = d' ++ [entryName language] := hloc
      obtain ⟨hhome, hview, -⟩ := State.view_unlink hunlink
      have hlog : u.logFile? ≠ some (d' ++ [entryName language]) := by
        rw [hu.log]
        exact site.unlogged_readied steady hplace hlanguage hready hshort
      rw [hunlink] at hnamed ⊢
      simp only [hsight]
      refine ⟨_, rfl, (List.append_nil _).symm, ?_⟩
      have hstock : c.HasStock about w d'
          ((u.withFiles (u.files.remove (d' ++ [entryName language]))).forget
            (d' ++ [entryName language]))
          ⟨true, Function.update σ.view (d' ++ [entryName language]) none⟩ :=
        hmade.becomes site steady hplace rfl hready hlanguage hshort (by simp)
        ⟨hhome, ⟨[], by rw [grow_nil]; exact hview⟩,
          by rw [World.logFile?_forget, World.logFile?_withFiles, if_neg hlog], rfl, rfl, rfl⟩ hnamed
      simpa [Stock.after] using hstock

omit steady hplace hlanguage in
/-- Temporary files get the same names whatever the records are. -/
lemma freshEnd?_eq (hu : c.HasStock about w d u σ) (hmade : σ.made = true) :
    Files.freshEnd? u.files ".tmp" = Files.freshEnd? (c.readied w).files ".tmp" := by
  have hnamed : (c.readied w).files.IsNamed := Files.keepsNames_makePath c.directory w site.named
  refine Files.freshEnd?_congr hnamed hu.named fun loc name hname => ?_
  obtain ⟨more, hmore⟩ := hu.view
  rw [hmore, if_pos hmade, grow_eq_none_iff, hu.fits.others]
  intro other hother _ heq
  rw [Text.endsWith, List.isSuffixOf_iff_suffix] at hname
  obtain ⟨x, hx⟩ := hname
  obtain ⟨-, hlast⟩ := List.append_inj' heq rfl
  rw [← hx, entryName_eq] at hlast
  exact name_ne_temporary _ _ (List.cons.inj hlast).1.symm

/-- Whether a record can be written does not depend on what the records are. -/
lemma writeFailure?_eq (hu : c.HasStock about w d u σ) (hmade : σ.made = true)
    (hready : c.readiness w = .ok ()) (index : Index) :
    c.writeFailure? language index u.files = c.writeFailure? language index (c.readied w).files := by
  have hhome : u.files.home = (c.readied w).files.home := hu.home.trans (c.readied_eq w).2.1.symm
  have hpath : ∀ e, c.temporaryPath language u.files e =
      c.temporaryPath language (c.readied w).files e := by
    intro e
    rw [temporaryPath, temporaryPath, Files.freshPath, Files.freshPath, hhome]
  rw [writeFailure?, writeFailure?, freshEnd?_eq site hu hmade]
  cases hfresh : Files.freshEnd? (c.readied w).files ".tmp" with
  | none => rw [writeFailureWith?, writeFailureWith?, hpath]
  | some e =>
    obtain ⟨n, rfl⟩ := Files.freshEnd?_eq_some hfresh
    obtain ⟨more, hmore⟩ := hu.view
    have habsent : ∀ l, land (c.readied w).files.frame (c.readied w).files.home .entry
        (c.temporaryPath language (c.readied w).files (Files.candidate n ++ ".tmp")) = .ok l →
          (u.files.view l.target = none ↔ (c.readied w).files.view l.target = none) := by
      intro l hland
      rw [hmore, if_pos hmade, grow_eq_none_iff, hu.fits.others]
      exact fun other hother _ =>
        steady.apart language other hlanguage hother d n l (hplace hready) hland
    have hcreate := State.createFile_of_shape
      (State.shape_locate hhome (hu.frame site steady hplace hmade) habsent)
    rw [writeFailureWith?, writeFailureWith?, hpath, hcreate]

/-- To write a record is local. -/
theorem isLocal_write (index : Index) : c.IsLocal about w d language (c.write language index) := by
  have hsimple := site.simple language hlanguage
  refine ⟨c.writeTurn language index w, fun u σ hu => ?_⟩
  unfold writeTurn
  cases hready : c.readiness w with
  | error f =>
    obtain ⟨t, hmade, hstock⟩ := hu.opened site steady hplace
    rw [hready] at hmade
    refine ⟨u.withFiles t, Action.exec_bind_error hmade, (List.append_nil _).symm, ?_⟩
    rw [Stock.after, Bool.or_true, Function.update_eq_self]
    exact hstock
  | ok a =>
    obtain ⟨t, hmade, hstock⟩ := hu.opened site steady hplace
    rw [hready] at hmade
    have hpass := isPassable_of_readiness hready
    have hlies := hstock.liesAt site steady hplace rfl hready
    have hentry := hstock.view_entry site steady hplace rfl hready hlanguage
    -- once the directory is there, it need not be made again
    have hexec : (c.write language index).exec u = (c.write language index).exec (u.withFiles t) := by
      have hagain := (readied_of_liesAt site.proper hpass hlies).1
      rw [write, Action.exec_bind_ok hmade, Action.exec_bind_ok hagain]
    have hnamed := (c.keepsNames_write language index) (u.withFiles t) hstock.named
    obtain ⟨hfails, hwrites⟩ := exec_write_ready site.proper hsimple.noSlash hlies
      (fun hshort face hface => by
        rw [hentry hshort] at hface
        exact hstock.fits.plain hready language hlanguage hshort face hface)
      (fun hshort => by
        rw [hstock.log]
        exact site.unlogged_readied steady hplace hlanguage hready hshort)
      (hstock.sound site steady hplace) hpass hsimple.isPassable index
    rw [writeFailure?_eq site steady hplace hlanguage hstock rfl hready] at hfails hwrites
    unfold Does
    rw [hexec]
    cases hfailure : c.writeFailure? language index (c.readied w).files with
    | some f =>
      obtain ⟨v, hv, hbecomes⟩ := hfails f hfailure
      rw [hv] at hnamed
      refine ⟨v, hv, by rw [hbecomes.requests]; exact (List.append_nil _).symm, ?_⟩
      rw [Stock.after, Bool.or_true, Function.update_eq_self]
      exact hstock.stays hbecomes hnamed
    | none =>
      obtain ⟨hshort, v, hv, hbecomes⟩ := hwrites hfailure
      rw [hv] at hnamed
      refine ⟨v, hv, by rw [hbecomes.requests]; exact (List.append_nil _).symm, ?_⟩
      rw [Stock.after, Bool.or_true]
      exact hstock.becomes site steady hplace rfl hready hlanguage hshort
        (fun face hface => ⟨_, (Option.some.inj hface).symm⟩) hbecomes hnamed

/-- To delete a record is local. -/
theorem isLocal_clear : c.IsLocal about w d language (c.clear [language]) := by
  have hone : c.IsLocal about w d language (c.clearOne language) := by
    unfold clearOne
    refine IsLocal.bind (IsLocal.tryCatch ?_ fun e => ?_) fun deleted => ?_
    · exact (isLocal_unlink site steady hplace hlanguage).bind fun _ => isLocal_pure true
    · split
      · exact isLocal_pure false
      · exact isLocal_throw e
    · split
      · exact (isLocal_report rfl).bind fun _ => isLocal_pure deleted
      · exact isLocal_pure deleted
  exact hone.bind fun _ => (isLocal_pure 0).bind fun _ => isLocal_pure _

end Site

end Cache

namespace Resolver

variable {r : Resolver} {about : Text → Prop} {w : World} {d : FileSystem.Location} {language : Text}

/-- To fetch an index is local. -/
lemma isLocal_fetchIndex (f : Fetcher) {c : Cache} (other : Text) :
    c.IsLocal about w d language (f.fetchIndex other) := by
  have hbody : ∀ url reply, c.IsLocal about w d language (Fetcher.body url reply) := by
    intro url reply
    cases reply with
    | response status phrase content =>
      rw [Fetcher.body]
      split
      · exact Cache.isLocal_pure content
      · exact (Cache.isLocal_report rfl).bind fun _ => Cache.isLocal_throw _
    | broken kind message => exact (Cache.isLocal_report rfl).bind fun _ => Cache.isLocal_throw _
    | _ => exact Cache.isLocal_throw _
  unfold Fetcher.fetchIndex Fetcher.get
  refine (Cache.isLocal_ofExcept _).bind fun url => Cache.isLocal_reader.bind fun _ =>
    Cache.IsLocal.bind ?_ fun content => ?_
  · exact (Cache.isLocal_report rfl).bind fun _ => (Cache.isLocal_request url).bind fun reply =>
      hbody url reply
  · exact (Cache.isLocal_ofExcept _).bind fun _ => (Cache.isLocal_report rfl).bind fun _ =>
      Cache.isLocal_pure _

/-- To resolve an index is local. -/
theorem isLocal_resolve (site : r.cache.Site about w) (steady : r.cache.IsSteady about w)
    (hplace : r.cache.IsPlace w d) (hlanguage : about language) :
    r.cache.IsLocal about w d language (r.resolve language) := by
  have hcached : r.cache.IsLocal about w d language (r.isCached language) := by
    refine (Cache.isLocal_exists? site steady hplace hlanguage).tryCatch fun e => ?_
    split
    · exact Cache.isLocal_throw _
    · exact Cache.isLocal_throw _
  have hrecord : ∀ index, r.cache.IsLocal about w d language (r.record language index) := by
    intro index
    refine Cache.IsLocal.tryCatch ((Cache.isLocal_write site steady hplace hlanguage index).bind
      fun _ => Cache.isLocal_pure ()) fun e => ?_
    split
    · exact Cache.isLocal_report rfl
    · exact Cache.isLocal_throw _
  unfold resolve
  refine hcached.bind fun found => ?_
  split
  · exact Cache.isLocal_read site steady hplace hlanguage
  · exact (Cache.isLocal_report rfl).bind fun _ => (isLocal_fetchIndex r.fetcher language).bind
      fun index => (hrecord index).bind fun _ => Cache.isLocal_pure index

end Resolver

end EditorDocs
