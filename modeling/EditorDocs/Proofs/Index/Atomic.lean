import EditorDocs.Proofs.Index.Authority

/-!
# Records are written as a whole or not at all

`Cache.exec_write` says what writing comes to where the path can be passed and the index can be
stored.  Here nothing is supposed of the language, the index and the directory of the records
(`Cache.exec_write_atomic`): either the record stands, complete, where its path led, or all that was
there stands as before, and in both cases nothing else has come but directories on the way.

No run of calls therefore leaves a temporary file behind.  The invariant is `World.Inherits`: what
stands in a later world stood in the first one, is the log, a directory or a complete record.  What
holds of all that calls are made of holds of each call and of each run of calls
(`Resolver.Covers.after`), and so does this (`Resolver.inherits_after`).
-/

namespace EditorDocs

open FileSystem

namespace Cache

/-! ## One record -/

/-- What writing a record comes to, whatever the language, the index and the files are. -/
inductive AtomicEffect (c : Cache) (language : Text) (index : Index) (w : World) :
    Except Failure Path → World → Prop where
  /-- The record was not written, and nothing has come but directories on the way. -/
  | unwritten {f : Failure} {y : Except Failure Unit} {s : State} {w' : World}
      (made : (Files.makePath c.directory).exec w = (y, w.withFiles s))
      (way : Files.MakesWay c.directory w.files s)
      (becomes : World.Becomes w w' s.view w.logFile?) :
      AtomicEffect c language index w (.error f) w'
  /-- The record stands where its path led once the directories on the way had been made. -/
  | written {s : State} {w' : World} {dest : Location} (scalar : index.IsScalar)
      (made : (Files.makePath c.directory).exec w = (.ok (), w.withFiles s))
      (way : Files.MakesWay c.directory w.files s)
      (takes : s.Takes (c.recordPath language).text dest)
      (becomes : World.Becomes w w'
        (Function.update s.view dest (some (.file (Utf8.encodeAll index.render))))
        (if w.logFile? = some dest then none else w.logFile?)) :
      AtomicEffect c language index w (.ok (c.recordPath language)) w'

/-- A language that no path can hold is not recorded. -/
lemma exec_write_refused {c : Cache} {language : Text} {w : World} (index : Index)
    (hdirectory : Files.IsPassable c.directory.text) (hlanguage : ¬ Files.IsPassable language) :
    ∃ f y s, (c.write language index).exec w = (.error f, w.withFiles s) ∧
      (Files.makePath c.directory).exec w = (y, w.withFiles s) ∧
      Files.MakesWay c.directory w.files s := by
  obtain ⟨x, s, hmade, hway, -⟩ := Files.exec_makePath hdirectory w
  rw [write_eq, Action.exec_bind, hmade]
  cases x with
  | error f => exact ⟨f, _, s, rfl, rfl, hway⟩
  | ok u =>
    simp only
    rw [Action.exec_bind]
    rcases Files.exec_createFresh isEnding_temporary c.directory (temporaryStart language)
        (w.withFiles s) with ⟨f, hcreate, -⟩ | ⟨e, file, s', hpass, -, -⟩
    · rw [hcreate]
      exact ⟨f, _, s, rfl, rfl, hway⟩
    · exact absurd (isPassable_of_temporary hpass) hlanguage

/-- Writing a record has one of the two effects. -/
theorem exec_write_atomic (c : Cache) (language : Text) (index : Index) {w : World}
    (hw : w.Sound) :
    ∃ x w', (c.write language index).exec w = (x, w') ∧ c.AtomicEffect language index w x w' := by
  cases hrefused : Files.refusal? c.directory.text with
  | some f =>
    have hmade := Files.exec_makePath_refused hrefused w
    exact ⟨_, _, exec_write_of_refusal hrefused language index w,
      .unwritten hmade (.refl _) ⟨rfl, ⟨[], by simp⟩, rfl, rfl, rfl, rfl⟩⟩
  | none =>
    have hdirectory := Files.refusal?_eq_none_iff.mp hrefused
    by_cases hlanguage : Files.IsPassable language
    · by_cases hindex : index.IsScalar
      · obtain ⟨x, w', hwrite, heffect⟩ := exec_write hw hdirectory hlanguage hindex
        refine ⟨x, w', hwrite, ?_⟩
        cases heffect with
        | failed made way becomes => exact .unwritten made way becomes
        | recorded made way takes becomes => exact .written hindex made way takes becomes
      · obtain ⟨f, w', y, s, hwrite, hmade, hway, hbecomes⟩ :=
          exec_write_unwritable hw hdirectory hlanguage hindex
        exact ⟨_, w', hwrite, .unwritten hmade hway hbecomes⟩
    · obtain ⟨f, y, s, hwrite, hmade, hway⟩ := exec_write_refused index hdirectory hlanguage
      exact ⟨_, _, hwrite, .unwritten hmade hway ⟨hway.home, ⟨[], by simp⟩, rfl, rfl, rfl, rfl⟩⟩

/-- The path of a record that was written leads to all of it, unless it was that of a symbolic link
through which it ran itself. -/
lemma read_of_write {c : Cache} {language : Text} {index : Index} {w w' : World} {path : Path}
    (hw : w.Sound) (hindex : index.IsScalar) (h : (c.write language index).exec w = (.ok path, w'))
    {s : State} (hmade : (Files.makePath c.directory).exec w = (.ok (), w.withFiles s))
    (hruns : ¬ s.RunsThroughItsLink (c.recordPath language).text) :
    w'.files.read (c.recordPath language).text = .ok (Utf8.encodeAll index.render) := by
  obtain ⟨s', hmade', hkept, -⟩ := locate_of_write hw hindex h
  obtain rfl : s = s' := congrArg (fun r => r.2.files) (hmade.symm.trans hmade')
  obtain ⟨loc, hloc⟩ := hkept hruns
  rw [State.read_of_locate hloc, Node.face]

/-- The location of a record has the name of one. -/
lemma exists_name_of_takes {c : Cache} {language : Text} {s : State} {dest : Location}
    (h : s.Takes (c.recordPath language).text dest) :
    ∃ x : Text, dest.getLast? = some (x ++ "_index.json") := by
  obtain ⟨p, hp, rfl, -⟩ := h.leads
  obtain ⟨a, ha⟩ := exists_recordPath_text c language
  rw [ha] at hp
  exact State.exists_getLast?_location isEnding_record hp

end Cache

namespace World

/-! ## What a later world has from an earlier one -/

/-- What stands at the location is the complete record of an index. -/
def IsRecord (loc : Location) (face : Face) : Prop :=
  ∃ (x : Text) (index : Index), loc.getLast? = some (x ++ "_index.json") ∧
    face = .file (Utf8.encodeAll index.render)

/-- What stands in `w'` stood in `w`, or is the log, a directory or a record; and the log is the one
that `w` had, which has grown. -/
structure Inherits (w w' : World) : Prop where
  /-- The working directory is the same. -/
  home : w'.files.home = w.files.home
  /-- The log that is open was open, and has grown. -/
  log : ∀ loc, w'.logFile? = some loc → w.logFile? = some loc ∧ ∃ old more,
    w.files.view loc = some (.file old) ∧ w'.files.view loc = some (.file (old ++ more))
  /-- What stands somewhere stood there, or is the log, a directory or a record. -/
  entries : ∀ loc face, w'.files.view loc = some face →
    w.files.view loc = some face ∨
      (w.logFile? = some loc ∧ ∃ old more, w.files.view loc = some (.file old) ∧
        face = .file (old ++ more)) ∨
      face = .directory ∨ IsRecord loc face

namespace Inherits

variable {w w' w'' : World}

/-- A world has everything from itself. -/
lemma refl (hw : w.Sound) : Inherits w w := by
  refine ⟨rfl, fun loc hloc => ?_, fun loc face hface => Or.inl hface⟩
  obtain ⟨content, hcontent⟩ := hw.log loc hloc
  exact ⟨hloc, content, [], hcontent, by rw [List.append_nil, hcontent]⟩

/-- What has everything from a sound world is sound. -/
lemma sound (h : Inherits w w') (hw : w.Sound) : w'.Sound := by
  constructor
  · intro loc hloc
    obtain ⟨-, old, more, -, hgrown⟩ := h.log loc hloc
    exact ⟨old ++ more, hgrown⟩
  · rw [h.home]
    exact hw.home

/-- What a world has from a second one, and this from a third one, it has from the third one. -/
lemma trans (h : Inherits w w') (h' : Inherits w' w'') : Inherits w w'' := by
  refine ⟨h'.home.trans h.home, ?_, ?_⟩
  · intro loc hloc
    obtain ⟨hlog', old', more', hold', hgrown'⟩ := h'.log loc hloc
    obtain ⟨hlog, old, more, hold, hgrown⟩ := h.log loc hlog'
    obtain rfl : old' = old ++ more := by simpa [hold'] using hgrown
    exact ⟨hlog, old, more ++ more', hold, by rw [hgrown', List.append_assoc]⟩
  · intro loc face hface
    rcases h'.entries loc face hface with hsame | ⟨hlog', old', more', hold', rfl⟩ | hnew
    · exact h.entries loc face hsame
    · obtain ⟨hlog, old, more, hold, hgrown⟩ := h.log loc hlog'
      obtain rfl : old' = old ++ more := by simpa [hold'] using hgrown
      exact Or.inr (Or.inl ⟨hlog, old, more ++ more', hold, by rw [List.append_assoc]⟩)
    · exact Or.inr (Or.inr hnew)

/-- If the files came to look like `view`, of which the log has grown, then everything is from
before if it is so in `view`, where the log is as it was. -/
lemma of_view {view : Location → Option Face} {log : Option Location} (hw : w.Sound)
    (hhome : w'.files.home = w.files.home) (hview : ∃ more, w'.files.view = grow log more view)
    (hlog : w'.logFile? = log)
    (hkept : ∀ loc, log = some loc → w.logFile? = some loc ∧ view loc = w.files.view loc)
    (hentries : ∀ loc face, view loc = some face →
      w.files.view loc = some face ∨ face = .directory ∨ IsRecord loc face) : Inherits w w' := by
  obtain ⟨more, hmore⟩ := hview
  have hgrown : ∀ loc, log = some loc → w.logFile? = some loc ∧ ∃ old more,
      w.files.view loc = some (.file old) ∧ w'.files.view loc = some (.file (old ++ more)) := by
    intro loc hloc
    obtain ⟨hopen, hsame⟩ := hkept loc hloc
    obtain ⟨old, hold⟩ := hw.log loc hopen
    refine ⟨hopen, old, more, hold, ?_⟩
    rw [hmore, grow, if_pos hloc, hsame, hold]
    rfl
  refine ⟨hhome, fun loc hloc => hgrown loc (hlog ▸ hloc), ?_⟩
  intro loc face hface
  by_cases hloc : log = some loc
  · obtain ⟨hopen, old, more, hold, hnew⟩ := hgrown loc hloc
    rw [hnew, Option.some.injEq] at hface
    exact Or.inr (Or.inl ⟨hopen, old, more, hold, hface.symm⟩)
  · rw [hmore, grow_of_ne hloc] at hface
    rcases hentries loc face hface with hsame | hnew
    · exact Or.inl hsame
    · exact Or.inr (Or.inr hnew)

/-- Reports bring nothing. -/
lemma reported (hw : w.Sound) (h : Reported w w') : Inherits w w' :=
  of_view hw h.home h.view h.log (fun _ hloc => ⟨hloc, rfl⟩) fun _ _ hface => Or.inl hface

/-- Directories that are made bring nothing but themselves. -/
lemma makesWay {p : Path} {s : State} (hw : w.Sound) (h : Files.MakesWay p w.files s) :
    Inherits w (w.withFiles s) := by
  refine of_view hw h.home ⟨[], by rw [grow_nil, files_withFiles]⟩ rfl ?_ ?_
  · intro loc hloc
    obtain ⟨old, hold⟩ := hw.log loc hloc
    exact ⟨hloc, by rw [h.view_of_some hold, hold]⟩
  · intro loc face hface
    rcases h.view loc with hsame | ⟨-, hnew⟩
    · exact Or.inl (hsame ▸ hface)
    · rw [hnew, Option.some.injEq] at hface
      exact Or.inr (Or.inl hface.symm)

/-- The file of a log that has not been forgotten is another one. -/
lemma ne_of_forgotten {log : Option Location} {gone loc : Location}
    (h : (if log = some gone then none else log) = some loc) : log = some loc ∧ loc ≠ gone := by
  split at h
  · cases h
  · rename_i hother
    refine ⟨h, ?_⟩
    rintro rfl
    exact hother h

/-- A file that is deleted brings nothing. -/
lemma forget {s : State} {gone : Location} (hw : w.Sound) (hhome : s.home = w.files.home)
    (hview : s.view = Function.update w.files.view gone none) :
    Inherits w ((w.withFiles s).forget gone) := by
  refine of_view hw hhome ⟨[], by rw [grow_nil, files_forget, files_withFiles, hview]⟩
    (logFile?_forget _ _) ?_ ?_
  · intro loc hloc
    obtain ⟨hlog, hne⟩ := ne_of_forgotten hloc
    exact ⟨hlog, Function.update_of_ne hne _ _⟩
  · intro loc face hface
    by_cases hloc : loc = gone
    · rw [hloc, Function.update_self] at hface
      cases hface
    · rw [Function.update_of_ne hloc] at hface
      exact Or.inl hface

/-- A record that is put somewhere brings nothing but itself. -/
lemma recorded {s : State} {dest : Location} {content : Bytes} (hw : (w.withFiles s).Sound)
    (hhome : s.home = w.files.home) (hrecord : IsRecord dest (.file content))
    (h : Becomes w w' (Function.update s.view dest (some (.file content)))
      (if w.logFile? = some dest then none else w.logFile?)) :
    Inherits (w.withFiles s) w' := by
  refine of_view hw (h.home.trans hhome.symm) h.view h.log ?_ ?_
  · intro loc hloc
    obtain ⟨hlog, hne⟩ := ne_of_forgotten hloc
    exact ⟨hlog, Function.update_of_ne hne _ _⟩
  · intro loc face hface
    by_cases hloc : loc = dest
    · subst hloc
      rw [Function.update_self, Option.some.injEq] at hface
      exact Or.inr (Or.inr (hface ▸ hrecord))
    · rw [Function.update_of_ne hloc] at hface
      exact Or.inl hface

end Inherits

end World

namespace Cache

/-- Writing a record brings nothing but directories and the record. -/
lemma AtomicEffect.inherits {c : Cache} {language : Text} {index : Index} {w w' : World}
    {x : Except Failure Path} (h : c.AtomicEffect language index w x w') (hw : w.Sound) :
    w.Inherits w' := by
  cases h with
  | unwritten _ way becomes =>
    have hmade := World.Inherits.makesWay hw way
    exact hmade.trans (.reported (hmade.sound hw) (becomes.reported way.home))
  | written _ _ way takes becomes =>
    have hmade := World.Inherits.makesWay hw way
    obtain ⟨x, hx⟩ := exists_name_of_takes takes
    exact hmade.trans (.recorded (hmade.sound hw) way.home ⟨x, index, hx, rfl⟩ becomes)

end Cache

namespace Resolver

/-! ## What calls are made of -/

/-- The call is about such languages. -/
def Call.IsAbout (about : Text → Prop) : Call → Prop
  | .resolve language | .exists? language | .read language | .write language _ => about language
  | .clear languages => ∀ language ∈ languages, about language
  | .fetchDocument _ | .answers _ => True

/-- The relation between what was before and what is after takes in all that calls about such
languages are made of. -/
structure Covers (c : Cache) (about : Text → Prop) (R : World → World → Prop) : Prop where
  /-- Nothing happens. -/
  refl {w : World} : w.Sound → R w w
  /-- One thing happens after another. -/
  trans {w w' w'' : World} : R w w' → R w' w'' → R w w''
  /-- The world keeps to the system. -/
  sound {w w' : World} : R w w' → w.Sound → w'.Sound
  /-- Something is reported. -/
  reported {w w' : World} : w.Sound → World.Reported w w' → R w w'
  /-- A record is written, or not. -/
  written {w w' : World} {language : Text} {index : Index} {x : Except Failure Path} :
    w.Sound → about language → (c.write language index).exec w = (x, w') →
      c.AtomicEffect language index w x w' → R w w'
  /-- A record is deleted. -/
  deleted {w : World} {language : Text} {gone : Location} {s : State} : w.Sound → about language →
    Files.IsPassable (c.recordPath language).text →
      w.files.unlink (c.recordPath language).text = .ok (gone, s) →
        R w ((w.withFiles s).forget gone)
  /-- The remote source changes. -/
  answers {w : World} (remote : Text → Reply) : w.Sound → R w { w with remote := remote }

namespace Covers

variable {r : Resolver} {c : Cache} {about : Text → Prop} {R : World → World → Prop} {w : World}
  {language : Text}

/-- Writing a record is taken in. -/
lemma write (h : Covers c about R) (hw : w.Sound) (hlanguage : about language) (index : Index) :
    R w ((c.write language index).exec w).2 := by
  obtain ⟨x, w', hwrite, heffect⟩ := c.exec_write_atomic language index hw
  rw [hwrite]
  exact h.written hw hlanguage hwrite heffect

/-- An attempt to record an index is taken in. -/
lemma record (h : Covers r.cache about R) (hw : w.Sound) (hlanguage : about language)
    (index : Index) : R w ((r.record language index).exec w).2 := by
  obtain ⟨x, v, hexec, hwrite⟩ : ∃ x v,
      (r.cache.write language index).exec w = (x, v) ∧ R w v :=
    ⟨_, _, rfl, h.write hw hlanguage index⟩
  unfold Resolver.record
  rw [Action.exec_tryCatch, Action.exec_bind, hexec]
  cases x with
  | ok path => exact hwrite
  | error f =>
    cases f with
    | system e =>
      have hreport := World.reported_report v ⟨.warning, "index.cache_write_failed",
        Context.bind [("component", .string "index_resolver")]
          [("path", .string (r.cache.recordPath language).text),
            ("error", .string e.message)], none⟩
      exact h.trans hwrite (h.reported (h.sound hwrite hw) hreport)
    | _ => exact hwrite

/-- Resolving is taken in. -/
lemma resolve (h : Covers r.cache about R) (hw : w.Sound) (hlanguage : about language) :
    R w ((r.resolve language).exec w).2 := by
  by_cases hexists : ((r.cache.exists? language).exec w).1 = .ok false
  · rcases r.fetcher.sources.indexUrl_cases language with ⟨-, url, hurl⟩ | ⟨-, hnone⟩
    case inr =>
      obtain ⟨w', hresolve, hreported, -⟩ := exec_resolve_unsupported hexists hnone
      rw [hresolve]
      exact h.reported hw hreported
    case inl =>
      obtain ⟨hu, -⟩ := reported_missedAt r language w
      obtain ⟨x, v, hfetch, hv, -, -⟩ := Fetcher.exec_fetchIndex hurl (r.missedAt language w)
      have hfetched : R w v := h.reported hw (hu.trans hv)
      rw [exec_resolve_missing hexists, Action.exec_bind, hfetch]
      cases x with
      | error f => exact hfetched
      | ok index =>
        have hrecord := h.trans hfetched (h.record (h.sound hfetched hw) hlanguage index)
        simp only
        rw [Action.exec_bind]
        split <;> simp_all
  · obtain ⟨x, w', hresolve, hreported, -, -⟩ := exec_resolve_cached hexists
    rw [hresolve]
    exact h.reported hw hreported

/-- Deleting the file of a record is taken in. -/
lemma unlink (h : Covers c about R) (hw : w.Sound) (hlanguage : about language) :
    R w ((Files.unlink (c.recordPath language).text).exec w).2 := by
  unfold Files.unlink
  rw [Action.exec_bind, Files.exec_change]
  cases hrefused : Files.refusal? (c.recordPath language).text with
  | some f => exact h.refl hw
  | none =>
    have hpass := Files.refusal?_eq_none_iff.mp hrefused
    cases hunlink : w.files.unlink (c.recordPath language).text with
    | error e => exact h.refl hw
    | ok u => exact h.deleted hw hlanguage hpass hunlink

/-- Deleting a record is taken in. -/
lemma clearOne (h : Covers c about R) (hw : w.Sound) (hlanguage : about language) :
    R w ((c.clearOne language).exec w).2 := by
  obtain ⟨x, v, hexec, hunlink⟩ : ∃ x v,
      (Files.unlink (c.recordPath language).text).exec w = (x, v) ∧ R w v :=
    ⟨_, _, rfl, h.unlink hw hlanguage⟩
  unfold Cache.clearOne
  simp only
  rw [Action.exec_bind, Action.exec_tryCatch, Action.exec_bind, hexec]
  cases x with
  | ok u =>
    have hreport := World.reported_report v ⟨.info, "index.cache_cleared",
      Context.bind [("component", .string "index_cache")]
        [("path", .string (c.recordPath language).text)], none⟩
    exact h.trans hunlink (h.reported (h.sound hunlink hw) hreport)
  | error f =>
    cases f with
    | system e =>
      obtain ⟨errno, first, second⟩ := e
      cases errno <;> exact hunlink
    | _ => exact hunlink

/-- Deleting records is taken in. -/
lemma clear (h : Covers c about R) (hw : w.Sound) {languages : List Text}
    (hlanguages : ∀ language ∈ languages, about language) :
    R w ((c.clear languages).exec w).2 := by
  induction languages generalizing w with
  | nil => exact h.refl hw
  | cons language rest ih =>
    obtain ⟨hlanguage, hrest⟩ := List.forall_mem_cons.mp hlanguages
    obtain ⟨x, v, hexec, hone⟩ : ∃ x v, (c.clearOne language).exec w = (x, v) ∧ R w v :=
      ⟨_, _, rfl, h.clearOne hw hlanguage⟩
    unfold Cache.clear
    rw [Action.exec_bind, hexec]
    cases x with
    | error f => exact hone
    | ok deleted =>
      have hall := h.trans hone (ih (h.sound hone hw) hrest)
      simp only
      rw [Action.exec_bind]
      split <;> simp_all

/-- Each call is taken in. -/
theorem call (h : Covers r.cache about R) (hw : w.Sound) {call : Call}
    (hcall : call.IsAbout about) : R w (call.run r w) := by
  cases call with
  | resolve language => exact h.resolve hw hcall
  | fetchDocument path =>
    obtain ⟨x, w', hfetch, hreported⟩ := Fetcher.exec_fetchDocument r.fetcher path w
    have hrun : Call.run r w (.fetchDocument path) = w' := congrArg Prod.snd hfetch
    rw [hrun]
    exact h.reported hw hreported
  | exists? language =>
    have hrun : Call.run r w (.exists? language) = w :=
      congrArg Prod.snd (exec_exists? r.cache language w)
    rw [hrun]
    exact h.refl hw
  | read language => exact h.reported hw (reported_read r.cache language w)
  | write language index => exact h.write hw hcall index
  | clear languages => exact h.clear hw hcall
  | answers remote => exact h.answers remote hw

/-- Each run of calls is taken in. -/
theorem after (h : Covers r.cache about R) (hw : w.Sound) {calls : List Call}
    (hcalls : ∀ call ∈ calls, call.IsAbout about) : R w (r.after w calls) := by
  induction calls generalizing w with
  | nil => exact h.refl hw
  | cons call rest ih =>
    obtain ⟨hcall, hrest⟩ := List.forall_mem_cons.mp hcalls
    have hone := h.call hw hcall
    exact h.trans hone (ih (h.sound hone hw) hrest)

end Covers

/-- Every call is about languages of some kind. -/
lemma Call.isAbout_true (call : Call) : call.IsAbout fun _ => True := by
  cases call <;> simp [Call.IsAbout]

/-- Calls bring nothing but directories and records. -/
lemma covers_inherits (c : Cache) : Covers c (fun _ => True) World.Inherits where
  refl hw := .refl hw
  trans h h' := h.trans h'
  sound h hw := h.sound hw
  reported hw h := .reported hw h
  written hw _ _ h := h.inherits hw
  deleted hw _ _ h := by
    obtain ⟨hhome, hview, -⟩ := State.view_unlink h
    exact .forget hw hhome hview
  answers _ hw := ⟨rfl, (World.Inherits.refl hw).log, (World.Inherits.refl hw).entries⟩

/-- No run of calls brings more than directories and records. -/
theorem inherits_after (r : Resolver) (calls : List Call) {w : World} (hw : w.Sound) :
    w.Inherits (r.after w calls) :=
  (covers_inherits r.cache).after hw fun call _ => call.isAbout_true

/-! ## Every language, index and run -/

/-- What has the name of a record does not have that of a temporary file. -/
lemma ne_temporary_of_isRecord {loc : Location} {face : Face} (h : World.IsRecord loc face)
    (x : Text) : loc.getLast? ≠ some (x ++ ".tmp") := by
  obtain ⟨y, -, hy, -⟩ := h
  rw [hy]
  exact fun heq => Cache.name_ne_temporary y x (Option.some.inj heq)

/-- A record is written as a whole or not at all.  If writing returns then it returns the path of
the record, the whole record stands where this path led, and that is what is read there, unless the
path was that of a symbolic link through which it ran itself.  If writing fails then all is as
before.  In both cases nothing else has come but directories on the way.  After any run of calls
there is no file with the name of a temporary one but those that were there at the start. -/
theorem write_atomic (r : Resolver) (w : World) (hw : w.Sound) :
    (∀ language index, ∃ x w' s, (r.cache.write language index).exec w = (x, w') ∧
      ((Files.makePath r.cache.directory).exec w).2 = w.withFiles s ∧
      Files.MakesWay r.cache.directory w.files s ∧
      (∀ f, x = .error f → World.Becomes w w' s.view w.logFile?) ∧
      ∀ path, x = .ok path → path = r.cache.recordPath language ∧
        (∃ dest, s.Takes path.text dest ∧
          World.Becomes w w'
            (Function.update s.view dest (some (.file (Utf8.encodeAll index.render))))
            (if w.logFile? = some dest then none else w.logFile?)) ∧
        (¬ s.RunsThroughItsLink path.text →
          w'.files.read path.text = .ok (Utf8.encodeAll index.render))) ∧
    ∀ calls loc face, (r.after w calls).files.view loc = some face →
      w.files.view loc = some face ∨
        (w.logFile? = some loc ∧ ∃ old more, w.files.view loc = some (.file old) ∧
          face = .file (old ++ more)) ∨
        face = .directory ∨
        (World.IsRecord loc face ∧ ∀ x : Text, loc.getLast? ≠ some (x ++ ".tmp")) := by
  constructor
  · intro language index
    obtain ⟨x, w', hwrite, heffect⟩ := r.cache.exec_write_atomic language index hw
    cases heffect with
    | @unwritten f y s w' made way becomes =>
      exact ⟨_, w', s, hwrite, congrArg Prod.snd made, way, fun _ _ => becomes, by simp⟩
    | @written s w' dest scalar made way takes becomes =>
      refine ⟨_, w', s, hwrite, congrArg Prod.snd made, way, by simp, ?_⟩
      rintro path ⟨⟩
      exact ⟨rfl, ⟨dest, takes, becomes⟩, Cache.read_of_write hw scalar hwrite made⟩
  · intro calls loc face hface
    rcases (inherits_after r calls hw).entries loc face hface with h | h | h | h
    · exact Or.inl h
    · exact Or.inr (Or.inl h)
    · exact Or.inr (Or.inr (Or.inl h))
    · exact Or.inr (Or.inr (Or.inr ⟨h, ne_temporary_of_isRecord h⟩))

/-- Files among which there is a directory where a record belongs. -/
def sampleHindrance : Node :=
  .directory [("c", .directory [("py_index.json", .directory []), ("js_index.json", .file [])])]

/-- Among the example files the record of `py` is not written and the directory stays, that of `js`
is written over an older one, and no file has come under the name of a temporary one. -/
theorem write_atomic_sample :
    (∃ f w', ((sample "/c" "py").cache.write "py" sampleIndex).exec
        (World.still sampleHindrance sampleNews) = (.error f, w') ∧
      w'.files.view ["c", "py_index.json"] = some .directory) ∧
      (∃ path w', ((sample "/c" "py").cache.write "js" sampleIndex).exec
          (World.still sampleHindrance sampleNews) = (.ok path, w') ∧
        w'.files.read "/c/js_index.json" = .ok (Utf8.encodeAll sampleIndex.render)) ∧
      ∀ content, ((sample "/c" "py").after (World.still sampleHindrance sampleNews)
        [.write "py" sampleIndex, .write "js" sampleIndex, .clear ["js"], .resolve "py"]).files.view
          ["c", ".py_index.00000000.tmp"] ≠ some (.file content) := by
  obtain ⟨hwrite, hrun⟩ := write_atomic (sample "/c" "py") (World.still sampleHindrance sampleNews)
    (World.sound_still sampleHindrance sampleNews)
  refine ⟨?_, ?_, ?_⟩
  · obtain ⟨x, w', s, hexec, -, hway, hfailed, -⟩ := hwrite "py" sampleIndex
    have hx : x = .error (.system ⟨.isDirectory, "/c/.py_index.00000000.tmp",
        some "/c/py_index.json"⟩) := by
      have hfst : _ = x := congrArg Prod.fst hexec
      rw [← hfst]
      decide +kernel
    subst hx
    refine ⟨_, w', hexec, ?_⟩
    rw [(hfailed _ rfl).view_of_ne (by simp [World.still, World.logFile?])]
    exact hway.view_of_some rfl
  · obtain ⟨x, w', s, hexec, hmade, -, -, hwritten⟩ := hwrite "js" sampleIndex
    have hx : x = .ok ((sample "/c" "py").cache.recordPath "js") := by
      have hfst : _ = x := congrArg Prod.fst hexec
      rw [← hfst]
      decide +kernel
    subst hx
    obtain ⟨-, -, hread⟩ := hwritten _ rfl
    refine ⟨_, w', hexec, hread ?_⟩
    have hs : s = ⟨sampleHindrance, []⟩ := by
      have hfiles := congrArg World.files hmade
      rw [World.files_withFiles] at hfiles
      rw [← hfiles]
      rfl
    have hplace : s.locate .entry ((sample "/c" "py").cache.recordPath "js").text =
        .ok (.object ["c", "js_index.json"] (.file [])) := by
      rw [hs]
      rfl
    rintro ⟨loc, target, hlink, -⟩
    rw [hplace] at hlink
    cases hlink
  · intro content hcontent
    rcases hrun _ _ _ hcontent with h | ⟨h, -⟩ | h | ⟨-, h⟩
    · cases h
    · cases h
    · cases h
    · exact h ".py_index.00000000" rfl

/-- A record that is written in the place of a link through which its path runs does not stand at
its path. -/
theorem write_not_read_through_link :
    ¬ ∀ (c : Cache) (language : Text) (index : Index) (w w' : World) (path : Path), w.Sound →
        (c.write language index).exec w = (.ok path, w') →
          w'.files.read path.text = .ok (Utf8.encodeAll index.render) := by
  intro h
  have hwritten : ((sampleCache.write "x_index.json/x" sampleIndex).exec
      (World.still sampleLink fun _ => .interruption)).1 =
        .ok (sampleCache.recordPath "x_index.json/x") := by decide +kernel
  have hread := h sampleCache "x_index.json/x" sampleIndex _ _ _
    (World.sound_still sampleLink fun _ => .interruption) (Action.exec_eq hwritten)
  have hfailed : ((sampleCache.write "x_index.json/x" sampleIndex).exec
      (World.still sampleLink fun _ => .interruption)).2.files.read
        (sampleCache.recordPath "x_index.json/x").text = .error .notDirectory := by
    decide +kernel
  rw [hfailed] at hread
  cases hread

end Resolver

end EditorDocs
