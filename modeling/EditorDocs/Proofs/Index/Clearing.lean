import EditorDocs.Proofs.FileSystem.Loss
import EditorDocs.Proofs.Index.Record
import Mathlib.Data.Finset.Card

/-!
# Deleting records

Deleting the records of languages takes entries away and does nothing else to the files, so a record
that is not there after its turn stays away (`Cache.of_clear`).

If every record is a file, or the system finds none, then deletion depends on the places of the records
alone (`Cache.exec_clear`): those that are there go, each counts once, and in which order and how often
the languages are named does not matter.  `Cache.clear_places` puts this together.  Where the path of a
record cannot be followed for another cause, the deletion ends there
(`Cache.clear_fails_without_record`).
-/

namespace EditorDocs

open FileSystem

namespace World

/-- Reports do not make entries come or go. -/
lemma Reported.loses {w w' : World} (h : Reported w w') : w.files.Loses w'.files := by
  refine .of_alike h.home h.frame fun loc hloc => ?_
  obtain ⟨more, hmore⟩ := h.view
  rwa [hmore, ne_eq, grow_eq_none_iff] at hloc

end World

namespace Cache

variable {c : Cache} {language : Text} {languages : List Text} {w w' : World} {s t : State}

/-! ## One record -/

/-- What is reported about a record that was deleted. -/
def clearedRecord (c : Cache) (language : Text) : Record :=
  ⟨.info, "index.cache_cleared", Context.bind [("component", .string "index_cache")]
    [("path", .string (c.recordPath language).text)], none⟩

/-- A record is deleted where its path leads, which is reported; that nothing is there is no failure. -/
lemma exec_clearOne (c : Cache) (language : Text) (w : World) :
    (c.clearOne language).exec w = match Files.refusal? (c.recordPath language).text with
      | some f => (.error f, w)
      | none => match w.files.unlink (c.recordPath language).text with
        | .ok (gone, s) =>
          (.ok true, ((w.withFiles s).forget gone).report (c.clearedRecord language))
        | .error e => if e = .noEntry then (.ok false, w)
          else (.error (.system ⟨e, (c.recordPath language).text, none⟩), w) := by
  unfold clearOne
  simp only
  rw [Action.exec_bind, Action.exec_tryCatch, Action.exec_bind, Files.unlink, Action.exec_bind,
    Files.exec_change]
  cases hrefused : Files.refusal? (c.recordPath language).text with
  | some f =>
    have hsystem := Files.ne_system_of_refusal? hrefused
    cases f with
    | system e => exact absurd rfl (hsystem e)
    | _ => rfl
  | none =>
    cases w.files.unlink (c.recordPath language).text with
    | ok r => rfl
    | error e => cases e <;> rfl

/-- Files are deleted one language after the other. -/
lemma exec_clear_cons (c : Cache) (language : Text) (rest : List Text) (w : World) :
    (c.clear (language :: rest)).exec w = match (c.clearOne language).exec w with
      | (.error f, v) => (.error f, v)
      | (.ok deleted, v) => match (c.clear rest).exec v with
        | (.error f, w') => (.error f, w')
        | (.ok n, w') => (.ok ((if deleted then 1 else 0) + n), w') := by
  rw [clear, Action.exec_bind]
  rcases (c.clearOne language).exec w with ⟨f | deleted, v⟩
  · rfl
  · simp only
    rw [Action.exec_bind]
    rcases (c.clear rest).exec v with ⟨f | n, w'⟩ <;> rfl

/-- A record that has been deleted, or was not there, is not there. -/
lemma of_clearOne {deleted : Bool} (h : (c.clearOne language).exec w = (.ok deleted, w')) :
    Files.IsPassable (c.recordPath language).text ∧ w.files.Loses w'.files ∧
      w'.files.IsVacant .entry (c.recordPath language).text := by
  rw [exec_clearOne] at h
  cases hrefused : Files.refusal? (c.recordPath language).text with
  | some f => simp [hrefused] at h
  | none =>
    simp only [hrefused] at h
    refine ⟨Files.refusal?_eq_none_iff.mp hrefused, ?_⟩
    cases hunlink : w.files.unlink (c.recordPath language).text with
    | error e =>
      simp only [hunlink] at h
      split at h
      · rename_i habsent
        subst habsent
        cases h
        exact ⟨.refl _, State.unlink_eq_noEntry_iff.mp hunlink⟩
      · cases h
    | ok r =>
      obtain ⟨gone, s⟩ := r
      simp only [hunlink] at h
      cases h
      obtain ⟨hhome, hview, n, hplace, -⟩ := State.view_unlink hunlink
      have hloses : w.files.Loses s := .of_update hhome hview
      have hreported := (World.reported_report ((w.withFiles s).forget gone)
        (c.clearedRecord language)).loses
      have hgone : s.view gone = none := by rw [hview, Function.update_self]
      exact ⟨hloses.trans hreported,
        (State.isVacant_of_gone hplace hloses hgone).of_loses hreported⟩

/-- Deleting records takes entries away, and leaves none of the records there. -/
theorem of_clear {n : Nat} (h : (c.clear languages).exec w = (.ok n, w')) :
    w.files.Loses w'.files ∧ ∀ language ∈ languages,
      Files.IsPassable (c.recordPath language).text ∧
        w'.files.IsVacant .entry (c.recordPath language).text := by
  induction languages generalizing w n with
  | nil =>
    cases h
    exact ⟨.refl _, by simp⟩
  | cons language rest ih =>
    rw [exec_clear_cons] at h
    rcases hone : (c.clearOne language).exec w with ⟨f | deleted, v⟩
    · simp [hone] at h
    rcases hrest : (c.clear rest).exec v with ⟨f | n', w''⟩
    · simp [hone, hrest] at h
    simp only [hone, hrest] at h
    cases h
    obtain ⟨hpass, hloses, hvacant⟩ := of_clearOne hone
    obtain ⟨hloses', hall⟩ := ih hrest
    refine ⟨hloses.trans hloses', fun other hother => ?_⟩
    rcases List.mem_cons.mp hother with rfl | hmem
    · exact ⟨hpass, hvacant.of_loses hloses'⟩
    · exact hall other hmem

/-- A record at whose path there is no entry is not there. -/
lemma exists_eq_false (h : w.files.IsVacant .entry (c.recordPath language).text) :
    ((c.exists? language).exec w).1 = .ok false := by
  rw [exists?, Files.exec_exists?]
  cases Files.refusal? (c.recordPath language).text with
  | some f => rfl
  | none => rw [State.lookup_eq_noEntry_iff.mpr h.lookup]; rfl

/-! ## Records that are files -/

/-- The record of a language is a file, or the system finds no entry at its path. -/
structure IsPlain (c : Cache) (s : State) (language : Text) : Prop where
  /-- The path can be passed. -/
  passable : Files.IsPassable (c.recordPath language).text
  /-- It leads to a file or nowhere. -/
  leads : (∃ loc content, s.locate .entry (c.recordPath language).text =
      .ok (.object loc (.file content))) ∨ s.IsVacant .entry (c.recordPath language).text

/-- The location of the record of a language, if there is one. -/
def record? (c : Cache) (s : State) (language : Text) : Option Location :=
  match s.locate .entry (c.recordPath language).text with
  | .ok (.object loc _) => some loc
  | _ => none

/-- The locations of the records of languages. -/
def records (c : Cache) (s : State) (languages : List Text) : Finset Location :=
  (languages.filterMap (c.record? s)).toFinset

/-- A record is at a location if its path leads there. -/
lemma record?_eq_some_iff {loc : Location} :
    c.record? s language = some loc ↔ s.LeadsTo (c.recordPath language).text loc := by
  unfold record? State.LeadsTo
  cases s.locate .entry (c.recordPath language).text with
  | error e => simp
  | ok p => cases p <;> simp

/-- Where there is no entry, there is no record. -/
lemma record?_eq_none (h : s.IsVacant .entry (c.recordPath language).text) :
    c.record? s language = none := by
  rw [record?]
  rcases h with h | ⟨_, _, _, h⟩ <;> rw [h]

lemma mem_records {loc : Location} :
    loc ∈ c.records s languages ↔ ∃ language ∈ languages, c.record? s language = some loc := by
  simp [records]

lemma records_cons_of_none {rest : List Text} (h : c.record? s language = none) :
    c.records s (language :: rest) = c.records s rest := by
  simp [records, h]

lemma records_cons_of_some {rest : List Text} {loc : Location}
    (h : c.record? s language = some loc) :
    c.records s (language :: rest) = insert loc (c.records s rest) := by
  simp [records, h]

/-- The order of the languages does not matter for where their records are. -/
lemma records_perm {languages' : List Text} (h : languages.Perm languages') :
    c.records s languages' = c.records s languages := by
  ext loc
  simp only [mem_records, h.mem_iff]

/-- A record that is a file is one where it is. -/
lemma IsPlain.file_of_record? (h : c.IsPlain s language) {loc : Location}
    (hrecord : c.record? s language = some loc) :
    ∃ content, s.view loc = some (.file content) := by
  rcases h.leads with ⟨loc', content, hplace⟩ | hvacant
  · rw [record?_eq_some_iff.mpr ⟨_, hplace⟩] at hrecord
    cases hrecord
    exact ⟨content, State.view_eq_of_find? (State.find?_of_object hplace)⟩
  · rw [record?_eq_none hvacant] at hrecord
    cases hrecord

/-- Without a record the system finds no entry. -/
lemma IsPlain.isVacant_of_record? (h : c.IsPlain s language) (hrecord : c.record? s language = none) :
    s.IsVacant .entry (c.recordPath language).text := by
  rcases h.leads with ⟨loc, content, hplace⟩ | hvacant
  · rw [record?_eq_some_iff.mpr ⟨_, hplace⟩] at hrecord
    cases hrecord
  · exact hvacant

/-- Records that are files are files where they are. -/
lemma file_of_mem_records (h : ∀ language ∈ languages, c.IsPlain s language) :
    ∀ loc ∈ c.records s languages, ∃ content, s.view loc = some (.file content) := by
  intro loc hloc
  obtain ⟨language, hmem, hrecord⟩ := mem_records.mp hloc
  exact (h language hmem).file_of_record? hrecord

/-- What stands at each location once these have been emptied. -/
def without (gone : Finset Location) (f : Location → Option Face) : Location → Option Face :=
  fun loc => if loc ∈ gone then none else f loc

/-- One location is emptied. -/
lemma without_singleton (gone : Location) (f : Location → Option Face) :
    without {gone} f = Function.update f gone none := by
  funext loc
  by_cases hloc : loc = gone
  · simp [without, hloc]
  · simp [without, hloc]

/-- After files have gone, directories and links are the same, and what is there was there and has not
gone. -/
lemma frame_of_without {gone : Finset Location}
    (hfiles : ∀ loc ∈ gone, ∃ content, w.files.view loc = some (.file content))
    {log : Option Location} (hafter : World.Becomes w w' (without gone w.files.view) log) :
    w'.files.frame = w.files.frame ∧
      ∀ loc, w'.files.view loc ≠ none → loc ∉ gone ∧ w.files.view loc ≠ none := by
  obtain ⟨more, hmore⟩ := hafter.view
  constructor
  · funext loc
    rw [State.frame, hmore, bind_fixture?_grow, without, State.frame]
    split
    · rename_i hmem
      obtain ⟨content, hcontent⟩ := hfiles loc hmem
      rw [hcontent]
      rfl
    · rfl
  · intro loc hloc
    rw [hmore, ne_eq, grow_eq_none_iff, without] at hloc
    split at hloc
    · exact absurd rfl hloc
    · rename_i hmem
      exact ⟨hmem, hloc⟩

/-- After files have gone, the record of a language is where it was, unless it is one of those that have
gone; then it is not there. -/
lemma IsPlain.after (h : c.IsPlain w.files language) {gone : Finset Location}
    (hfiles : ∀ loc ∈ gone, ∃ content, w.files.view loc = some (.file content))
    {log : Option Location} (hafter : World.Becomes w w' (without gone w.files.view) log) :
    c.IsPlain w'.files language ∧
      c.record? w'.files language = (c.record? w.files language).filter (· ∉ gone) := by
  obtain ⟨hframe, hview⟩ := frame_of_without hfiles hafter
  have hloses : w.files.Loses w'.files :=
    .of_alike hafter.home hframe fun loc hloc => (hview loc hloc).2
  rcases h.leads with ⟨loc, content, hplace⟩ | hvacant
  · have hrecord : c.record? w.files language = some loc := record?_eq_some_iff.mpr ⟨_, hplace⟩
    by_cases hmem : loc ∈ gone
    · have hgone : w'.files.view loc = none := by
        by_contra hthere
        exact (hview loc hthere).1 hmem
      have hvacant := State.isVacant_of_gone hplace hloses hgone
      refine ⟨⟨h.passable, Or.inr hvacant⟩, ?_⟩
      rw [record?_eq_none hvacant, hrecord, Option.filter_some, if_neg (by simpa using hmem)]
    · -- the file is still there, and may have grown as the log's
      have hhere : ∃ content', w'.files.view loc = some (.file content') := by
        have hfile : w.files.view loc = some (.file content) :=
          State.view_eq_of_find? (State.find?_of_object hplace)
        obtain ⟨more, hmore⟩ := hafter.view
        rw [hmore, grow, without, if_neg hmem, hfile]
        split
        · exact ⟨_, rfl⟩
        · exact ⟨_, rfl⟩
      obtain ⟨content', hcontent'⟩ := hhere
      have hplace' := State.locate_of_frame_eq hframe hafter.home hplace (by simp)
        (State.find?_of_view_file hcontent')
      refine ⟨⟨h.passable, Or.inl ⟨loc, content', hplace'⟩⟩, ?_⟩
      rw [record?_eq_some_iff.mpr ⟨_, hplace'⟩, hrecord, Option.filter_some,
        if_pos (by simpa using hmem)]
      rfl
  · have hvacant' := hvacant.of_loses hloses
    refine ⟨⟨h.passable, Or.inr hvacant'⟩, ?_⟩
    rw [record?_eq_none hvacant, record?_eq_none hvacant']
    rfl

/-- Locations that are emptied after another one are emptied together with it. -/
lemma becomes_without {w w₁ w₂ : World} {loc : Location} {gone : Finset Location}
    (h : World.Becomes w w₁ (Function.update w.files.view loc none)
      (if w.logFile? = some loc then none else w.logFile?))
    (h' : World.Becomes w₁ w₂ (without (gone.erase loc) w₁.files.view)
      (w₁.logFile?.filter (· ∉ gone.erase loc))) :
    World.Becomes w w₂ (without (insert loc gone) w.files.view)
      (w.logFile?.filter (· ∉ insert loc gone)) := by
  obtain ⟨more, hmore⟩ := h.view
  obtain ⟨more', hmore'⟩ := h'.view
  have hlog : w₂.logFile? = w.logFile?.filter (· ∉ insert loc gone) := by
    rw [h'.log, h.log]
    cases w.logFile? with
    | none => rfl
    | some log =>
      by_cases hloc : log = loc
      · subst hloc
        simp [Option.filter]
      · simp [hloc, Option.filter]
  refine ⟨h'.home.trans h.home, ⟨more ++ more', ?_⟩, hlog, h'.remote.trans h.remote,
    h'.requests.trans h.requests, h'.host.trans h.host⟩
  rw [← hlog, ← grow_grow]
  rw [← h'.log] at hmore'
  rw [hmore', hmore]
  funext loc'
  -- where something stands in the end, the log is the one that it was
  by_cases hgone : loc' ∈ insert loc gone
  · have hnone : without (insert loc gone) w.files.view loc' = none := if_pos hgone
    have hnone' : without (gone.erase loc) (grow (if w.logFile? = some loc then none else w.logFile?)
        more (Function.update w.files.view loc none)) loc' = none := by
      unfold without
      split
      · rfl
      · rename_i hnot
        obtain rfl : loc' = loc := by
          by_contra hne
          exact hnot (Finset.mem_erase.mpr ⟨hne, Finset.mem_of_mem_insert_of_ne hgone hne⟩)
        rw [grow_eq_none_iff, Function.update_self]
    rw [grow_eq_none_iff.mpr hnone', grow_eq_none_iff.mpr (grow_eq_none_iff.mpr hnone)]
  · have hne : loc' ≠ loc := fun hl => hgone (hl ▸ Finset.mem_insert_self _ _)
    have hnot : loc' ∉ gone.erase loc := fun hl =>
      hgone (Finset.mem_insert_of_mem (Finset.mem_of_mem_erase hl))
    have hsame : (if w.logFile? = some loc then none else w.logFile?) = some loc' ↔
        w₂.logFile? = some loc' := by
      rw [h'.log, h.log, Option.filter_eq_some_iff]
      simp [hnot]
    simp only [grow, without, if_neg hnot, if_neg hgone, Function.update_of_ne hne, hsame]

/-- When a file has gone, the records of languages are where they were, but for the one that it was. -/
lemma records_after (h : ∀ language ∈ languages, c.IsPlain w.files language) {loc : Location}
    {content : Bytes} (hfile : w.files.view loc = some (.file content)) {log : Option Location}
    (hafter : World.Becomes w w' (Function.update w.files.view loc none) log) :
    (∀ language ∈ languages, c.IsPlain w'.files language) ∧
      c.records w'.files languages = (c.records w.files languages).erase loc := by
  have hfiles : ∀ loc' ∈ ({loc} : Finset Location),
      ∃ content, w.files.view loc' = some (.file content) := by
    simpa using ⟨content, hfile⟩
  have hone := fun language hmem => (h language hmem).after hfiles (by rwa [without_singleton])
  refine ⟨fun language hmem => (hone language hmem).1, ?_⟩
  ext loc'
  simp only [mem_records, Finset.mem_erase]
  constructor
  · rintro ⟨other, hother, hloc'⟩
    rw [(hone other hother).2, Option.filter_eq_some_iff] at hloc'
    exact ⟨by simpa using hloc'.2, other, hother, hloc'.1⟩
  · rintro ⟨hne, other, hother, hloc'⟩
    refine ⟨other, hother, ?_⟩
    rw [(hone other hother).2, Option.filter_eq_some_iff]
    exact ⟨hloc', by simpa using hne⟩

/-- A record that is a file goes. -/
lemma exec_clearOne_of_file (hpass : Files.IsPassable (c.recordPath language).text) {loc : Location}
    {content : Bytes} (hplace : w.files.locate .entry (c.recordPath language).text =
      .ok (.object loc (.file content))) :
    ∃ v, (c.clearOne language).exec w = (.ok true, v) ∧
      World.Becomes w v (Function.update w.files.view loc none)
        (if w.logFile? = some loc then none else w.logFile?) := by
  have hunlink := State.unlink_of_locate hplace (by simp [Node.face])
  obtain ⟨hhome, hview, -⟩ := State.view_unlink hunlink
  have hgone : World.Becomes w ((w.withFiles (w.files.remove loc)).forget loc)
      (Function.update w.files.view loc none)
      (if w.logFile? = some loc then none else w.logFile?) :=
    ⟨hhome, ⟨[], by rw [grow_nil]; exact hview⟩, World.logFile?_forget _ loc, rfl, rfl, rfl⟩
  refine ⟨_, ?_, hgone.report (c.clearedRecord language)⟩
  rw [exec_clearOne, Files.refusal?_eq_none_iff.mpr hpass, hunlink]

/-- Deleting records that are files, or are not there, deletes those that are there and counts them. -/
theorem exec_clear (h : ∀ language ∈ languages, c.IsPlain w.files language) :
    ∃ w', (c.clear languages).exec w = (.ok (c.records w.files languages).card, w') ∧
      World.Becomes w w' (without (c.records w.files languages) w.files.view)
        (w.logFile?.filter (· ∉ c.records w.files languages)) := by
  induction languages generalizing w with
  | nil =>
    refine ⟨w, rfl, rfl, ⟨[], ?_⟩, ?_, rfl, rfl, rfl⟩
    · rw [grow_nil]
      funext loc
      simp [without, records]
    · cases w.logFile? <;> simp [records, Option.filter]
  | cons language rest ih =>
    have hone := h language List.mem_cons_self
    have hrest := fun other hother => h other (List.mem_cons_of_mem _ hother)
    rcases hone.leads with ⟨loc, content, hplace⟩ | hvacant
    · -- the record goes, and the others are where they were
      obtain ⟨v, hclear, hbecomes⟩ := exec_clearOne_of_file hone.passable hplace
      obtain ⟨hplain, hrecords⟩ := records_after hrest
        (State.view_eq_of_find? (State.find?_of_object hplace)) hbecomes
      obtain ⟨w', hclear', hbecomes'⟩ := ih hplain
      rw [hrecords] at hclear' hbecomes'
      have hrecord : c.record? w.files language = some loc := record?_eq_some_iff.mpr ⟨_, hplace⟩
      refine ⟨w', ?_, ?_⟩
      · rw [exec_clear_cons, hclear]
        simp only [hclear', if_true]
        rw [records_cons_of_some hrecord,
          ← Finset.card_erase_add_one (Finset.mem_insert_self loc (c.records w.files rest)),
          Finset.erase_insert_eq_erase, Nat.add_comm]
      · rw [records_cons_of_some hrecord]
        exact becomes_without hbecomes hbecomes'
    · have hclear : (c.clearOne language).exec w = (.ok false, w) := by
        rw [exec_clearOne, Files.refusal?_eq_none_iff.mpr hone.passable,
          State.unlink_eq_noEntry_iff.mpr hvacant]
        rfl
      obtain ⟨w', hclear', hbecomes'⟩ := ih hrest
      rw [records_cons_of_none (record?_eq_none hvacant)]
      refine ⟨w', ?_, hbecomes'⟩
      rw [exec_clear_cons, hclear]
      simp only [hclear', Bool.false_eq_true, if_false, Nat.zero_add]

/-- Where none of the records is there, deleting them does nothing. -/
lemma exec_clear_of_isVacant (h : ∀ language ∈ languages,
      Files.IsPassable (c.recordPath language).text ∧
        w.files.IsVacant .entry (c.recordPath language).text) :
    (c.clear languages).exec w = (.ok 0, w) := by
  induction languages with
  | nil => rfl
  | cons language rest ih =>
    obtain ⟨hpass, hvacant⟩ := h language List.mem_cons_self
    have hclear : (c.clearOne language).exec w = (.ok false, w) := by
      rw [exec_clearOne, Files.refusal?_eq_none_iff.mpr hpass,
        State.unlink_eq_noEntry_iff.mpr hvacant]
      rfl
    rw [exec_clear_cons, hclear]
    simp only [ih fun other hother => h other (List.mem_cons_of_mem _ hother), Bool.false_eq_true,
      if_false, Nat.zero_add]

/-- Deleting records that are files, or that the system does not find, deletes the records that are
there, each of which counts once however many languages have it and however often they are named.  No
other entry changes, but for the log.  None of the records is there afterwards, deleting them again does
nothing, and the order of the languages does not matter. -/
theorem clear_places (c : Cache) (languages : List Text) (w : World)
    (h : ∀ language ∈ languages, c.IsPlain w.files language) :
    ∃ w', (c.clear languages).exec w = (.ok (c.records w.files languages).card, w') ∧
      World.Becomes w w' (without (c.records w.files languages) w.files.view)
        (w.logFile?.filter (· ∉ c.records w.files languages)) ∧
      (∀ language ∈ languages, ((c.exists? language).exec w').1 = .ok false) ∧
      (c.clear languages).exec w' = (.ok 0, w') ∧
      ∀ languages', languages.Perm languages' → ∃ w'',
        (c.clear languages').exec w = (.ok (c.records w.files languages).card, w'') ∧
        w''.files.home = w'.files.home ∧
        ∀ loc, w.logFile? ≠ some loc → w''.files.view loc = w'.files.view loc := by
  obtain ⟨w', hclear, hbecomes⟩ := exec_clear h
  obtain ⟨-, hall⟩ := of_clear hclear
  refine ⟨w', hclear, hbecomes, fun language hmem => exists_eq_false (hall language hmem).2,
    exec_clear_of_isVacant hall, fun languages' hperm => ?_⟩
  obtain ⟨w'', hclear', hbecomes'⟩ := exec_clear fun language hmem =>
    h language (hperm.mem_iff.mpr hmem)
  rw [records_perm hperm] at hclear' hbecomes'
  refine ⟨w'', hclear', hbecomes'.home.trans hbecomes.home.symm, fun loc hloc => ?_⟩
  have hlog : w.logFile?.filter (· ∉ c.records w.files languages) ≠ some loc := by
    rw [ne_eq, Option.filter_eq_some_iff]
    exact fun hl => hloc hl.1
  rw [hbecomes'.view_of_ne hlog, hbecomes.view_of_ne hlog]

/-- Two spellings of one language, and one without a record, in the directory of the records. -/
theorem clear_places_sample :
    let w := World.still (.directory [("cache", .directory [("py_index.json", .file [])])])
      fun _ => .interruption
    (∀ language ∈ ([("py" : Text), "./py", "js"]), sampleCache.IsPlain w.files language) ∧
      ((sampleCache.clear ["py", "./py", "js"]).exec w).1 = .ok 1 := by
  intro w
  have hplain : ∀ language ∈ ([("py" : Text), "./py", "js"]),
      sampleCache.IsPlain w.files language := by
    intro language hmem
    simp only [List.mem_cons, List.not_mem_nil, or_false] at hmem
    rcases hmem with rfl | rfl | rfl
    · exact ⟨by unfold Files.IsPassable; decide, Or.inl ⟨["cache", "py_index.json"], [], rfl⟩⟩
    · exact ⟨by unfold Files.IsPassable; decide, Or.inl ⟨["cache", "py_index.json"], [], rfl⟩⟩
    · exact ⟨by unfold Files.IsPassable; decide,
        Or.inr (Or.inr ⟨["cache"], "js_index.json", false, rfl⟩)⟩
  refine ⟨hplain, ?_⟩
  obtain ⟨w', hclear, -⟩ := clear_places sampleCache ["py", "./py", "js"] w hplain
  have hrecords : sampleCache.records w.files ["py", "./py", "js"] =
      {[("cache" : Name), "py_index.json"]} := by decide +kernel
  rw [hclear, hrecords]
  rfl

/-- A language whose record would have a name that is too long for an entry. -/
def sampleLong : Text := List.replicate 300 'x'

/-- Records that are not there cannot be deleted if their paths cannot be followed to the end: through a
link that leads to itself, or because the name is too long. -/
theorem clear_fails_without_record :
    let loop := World.still (.directory [("cache", .link "cache")]) fun _ => .interruption
    let empty := World.still (.directory [("cache", .directory [])]) fun _ => .interruption
    (((sampleCache.exists? "py").exec loop).1 = .ok false ∧
        sampleCache.record? loop.files "py" = none ∧
        ((sampleCache.clear ["py"]).exec loop).1 =
          .error (.system ⟨.tooManyLinks, "cache/py_index.json", none⟩)) ∧
      sampleLong.IsScalar ∧ sampleCache.record? empty.files sampleLong = none ∧
        ((sampleCache.clear [sampleLong]).exec empty).1 =
          .error (.system ⟨.nameTooLong, (sampleCache.recordPath sampleLong).text, none⟩) := by
  decide +kernel

end Cache

end EditorDocs
