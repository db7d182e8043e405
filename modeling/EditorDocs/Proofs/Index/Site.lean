import EditorDocs.Proofs.FileSystem.Use
import EditorDocs.Proofs.Index.Ready
import EditorDocs.Proofs.World.Directories
import EditorDocs.Proofs.World.Grown
import EditorDocs.Proofs.World.Names

/-!
# Records side by side

The records of languages stand in one directory, each in an entry of its own.  What actions on them
depend on and change is known by a `Stock`: whether the directory has been made, and what stands in the
files once it has.  A world has a stock (`Cache.HasStock`) if its files look so, of which the log may
have grown.

A world can be described so if its files are such that every record is a file or absent (`Cache.Site`),
and if it does not show in them whether the directory has been made already (`Cache.IsSteady`).
-/

namespace EditorDocs

open FileSystem

namespace Cache

variable {c : Cache} {about : Text → Prop} {language other : Text} {w u v : World} {d : Location}

/-! ## Simple languages -/

/-- A language that consists of characters, none of which is a slash or a NUL. -/
structure IsSimple (language : Text) : Prop where
  /-- There are no surrogates. -/
  scalar : language.IsScalar
  /-- There is no NUL. -/
  noNul : ∀ c ∈ language, c.val ≠ 0
  /-- There is no slash. -/
  noSlash : ('/' : CodePoint) ∉ language

namespace IsSimple

/-- A simple language can be passed. -/
lemma isPassable (h : IsSimple language) : Files.IsPassable language :=
  Files.isPassable_of_isScalar h.scalar h.noNul

/-- The system knows a simple language as it is. -/
lemma entryName_eq (h : IsSimple language) : entryName language = language ++ "_index.json" := by
  have hnone : language.any isEscapedByte = false := by
    rw [List.any_eq_false]
    intro c hc
    have hscalar := h.scalar c hc
    simp only [CodePoint.isSurrogate, Bool.and_eq_false_iff, decide_eq_false_iff_not] at hscalar
    simp only [isEscapedByte, Bool.and_eq_true, decide_eq_true_eq]
    omega
  rw [Cache.entryName_eq, canonical, hnone]
  rfl

/-- Different simple languages have different entries. -/
lemma entry_ne (h : IsSimple language) (h' : IsSimple other) (hne : language ≠ other) :
    d ++ [entryName language] ≠ d ++ [entryName other] := by
  intro heq
  have hname := (List.cons.inj (List.append_cancel_left heq)).1
  rw [h.entryName_eq, h'.entryName_eq] at hname
  exact hne (List.append_cancel_right hname)

end IsSimple

/-- A directory can be passed if the path of a record in it can. -/
lemma isPassable_directory (hslash : ('/' : CodePoint) ∉ language)
    (h : Files.IsPassable (c.recordPath language).text) : Files.IsPassable c.directory.text := by
  rw [recordPath_eq c hslash, Files.isPassable_text_iff] at h
  rw [Files.isPassable_text_iff]
  exact fun name hname => h name (List.mem_append_left _ hname)

/-! ## Making the directory of the records -/

/-- The world in which the directory of the records has been made, as far as it can be. -/
def readied (c : Cache) (w : World) : World := ((Files.makePath c.directory).exec w).2

/-- To make the directory of the records changes the files and nothing else. -/
lemma readied_eq (c : Cache) (w : World) :
    c.readied w = w.withFiles (c.readied w).files ∧ (c.readied w).files.home = w.files.home ∧
      ∀ loc face, w.files.view loc = some face → (c.readied w).files.view loc = some face := by
  unfold readied
  cases hrefused : Files.refusal? c.directory.text with
  | some f =>
    rw [Files.exec_makePath_refused hrefused]
    exact ⟨rfl, rfl, fun _ _ h => h⟩
  | none =>
    obtain ⟨x, s, hmade, hway, -⟩ := Files.exec_makePath (Files.refusal?_eq_none_iff.mp hrefused) w
    rw [hmade]
    exact ⟨rfl, hway.home, fun _ _ => hway.view_of_some⟩

/-- The directory of the records, if there is one already, need not be made. -/
lemma readied_of_liesAt (hc : c.directory.IsProper) (hpass : Files.IsPassable c.directory.text)
    (hd : w.files.LiesAt c.directory.text d) :
    (Files.makePath c.directory).exec w = (.ok (), w) ∧ c.readied w = w := by
  have hmade := Files.exec_makePath_of_isDirectory hc hpass (State.isDirectory_iff.mpr ⟨d, hd⟩)
  exact ⟨hmade, congrArg Prod.snd hmade⟩

/-- What comes of making the directory of the records. -/
def readiness (c : Cache) (w : World) : Except Failure Unit := ((Files.makePath c.directory).exec w).1

lemma exec_makePath_eq (c : Cache) (w : World) :
    (Files.makePath c.directory).exec w = (c.readiness w, w.withFiles (c.readied w).files) := by
  rw [← (c.readied_eq w).1]
  rfl

/-- Once it has been made, the directory of the records lies here. -/
def IsPlace (c : Cache) (w : World) (d : Location) : Prop :=
  c.readiness w = .ok () → (c.readied w).files.LiesAt c.directory.text d

/-- The directory of the records has a place. -/
lemma exists_isPlace (hc : c.directory.IsProper) (w : World) : ∃ d, c.IsPlace w d := by
  cases hready : c.readiness w with
  | error f => exact ⟨[], fun h => by rw [hready] at h; cases h⟩
  | ok a =>
    obtain ⟨d, hd⟩ := Files.exists_liesAt_of_makePath hc (hready ▸ c.exec_makePath_eq w)
    exact ⟨d, fun _ => hd⟩

/-! ## Places for records -/

/-- The files have room for the records of such languages: each of these is a file or absent. -/
structure Site (c : Cache) (about : Text → Prop) (w : World) : Prop where
  /-- The world keeps to the system. -/
  sound : w.Sound
  /-- Directories list different names. -/
  named : w.files.IsNamed
  /-- The path of the directory is one that is spelled. -/
  proper : c.directory.IsProper
  /-- The languages are simple. -/
  simple : ∀ language, about language → IsSimple language
  /-- What stands at the path of a record is a file. -/
  plain : ∀ language, about language → ∀ face,
    w.files.glance .entry (c.recordPath language).text = .ok face → ∃ content, face = .file content
  /-- No record is the file of the log. -/
  unlogged : ∀ language, about language → ∀ loc n,
    w.files.locate .entry (c.recordPath language).text = .ok (.object loc n) →
      w.logFile? ≠ some loc

/-- It makes no difference for such languages whether the directory of the records has been made. -/
structure IsSteady (c : Cache) (about : Text → Prop) (w : World) : Prop where
  /-- If it cannot be made then it cannot the next time, for the same cause. -/
  again : ∀ f, c.readiness w = .error f →
    (Files.makePath c.directory).exec (c.readied w) = (.error f, c.readied w)
  /-- The paths of the records show the same before and after. -/
  looks : ∀ language, about language → ∀ m : Manner, m.writes = false →
    (c.readied w).files.glance m (c.recordPath language).text =
      w.files.glance m (c.recordPath language).text
  /-- No record stands on the way to temporary files. -/
  apart : ∀ language other, about language → about other → ∀ d n l,
    (c.readied w).files.LiesAt c.directory.text d →
    land (c.readied w).files.frame (c.readied w).files.home .entry
        (c.temporaryPath language (c.readied w).files (Files.candidate n ++ ".tmp")) = .ok l →
      l.target ≠ d ++ [entryName other]

/-- A directory that has been made has a path that can be passed. -/
lemma isPassable_of_readiness (h : c.readiness w = .ok ()) :
    Files.IsPassable c.directory.text := by
  cases hrefused : Files.refusal? c.directory.text with
  | none => exact Files.refusal?_eq_none_iff.mp hrefused
  | some f =>
    rw [readiness, Files.exec_makePath_refused hrefused] at h
    cases h

namespace Site

variable (site : c.Site about w)
include site

/-- What a path to a record shows is no link, and not the log. -/
lemma not_log (hlanguage : about language) {m : Manner} (hm : m.writes = false) {loc : Location}
    {n : Node} (h : w.files.locate m (c.recordPath language).text = .ok (.object loc n)) :
    w.logFile? ≠ some loc := by
  have hentry : w.files.locate .entry (c.recordPath language).text = .ok (.object loc n) := by
    obtain ⟨followsLast, writes⟩ := m
    obtain rfl : writes = false := hm
    cases followsLast with
    | false => exact h
    | true =>
      rcases State.locate_entry_of_lookup h with hentry | ⟨loc', target, hlink⟩
      · exact hentry
      · obtain ⟨content, hface⟩ := site.plain language hlanguage (.link target)
          (by rw [State.glance, hlink]; rfl)
        cases hface
  exact site.unlogged language hlanguage loc n hentry

/-- Where the directory of the records is there already, it stays where it is. -/
lemma eq_of_liesAt (hplace : c.IsPlace w d) (hpass : Files.IsPassable c.directory.text)
    {d' : Location} (hd' : w.files.LiesAt c.directory.text d') : d' = d ∧ c.readied w = w := by
  obtain ⟨hmade, hready⟩ := readied_of_liesAt site.proper hpass hd'
  have hd := hplace (congrArg Prod.fst hmade)
  rw [hready] at hd
  exact ⟨hd'.unique hd, hready⟩

variable (steady : c.IsSteady about w) (hplace : c.IsPlace w d) (hlanguage : about language)
include steady hplace hlanguage

/-- What the path of a record shows once the directory has been made, it has shown before. -/
lemma glance_of_view (hready : c.readiness w = .ok ()) (hshort : ¬ c.IsTooLong language)
    {face : Face} (h : (c.readied w).files.view (d ++ [entryName language]) = some face) :
    w.files.glance .entry (c.recordPath language).text = .ok face := by
  have hpass := isPassable_of_readiness hready
  have hsimple := site.simple language hlanguage
  have hglance := glance_record (m := .entry) site.proper hsimple.noSlash
    (isPassable_recordPath hpass hsimple.isPassable) rfl (hplace hready) (fun h => by cases h)
  rw [h, shown, if_neg hshort, Option.elim_some] at hglance
  rw [← steady.looks language hlanguage .entry rfl, hglance]

/-- Once the directory has been made, the entry of a language is a file or absent. -/
lemma plain_readied (hready : c.readiness w = .ok ()) (hshort : ¬ c.IsTooLong language)
    {face : Face} (h : (c.readied w).files.view (d ++ [entryName language]) = some face) :
    ∃ content, face = .file content :=
  site.plain language hlanguage face (site.glance_of_view steady hplace hlanguage hready hshort h)

/-- Once the directory has been made, the log is not the entry of a language. -/
lemma unlogged_readied (hready : c.readiness w = .ok ()) (hshort : ¬ c.IsTooLong language) :
    w.logFile? ≠ some (d ++ [entryName language]) := by
  intro hlog
  have hpass := isPassable_of_readiness hready
  have hsimple := site.simple language hlanguage
  -- the file of the log is there, and so at the path of the record
  obtain ⟨content, hfile⟩ := site.sound.log _ hlog
  have hglance := site.glance_of_view steady hplace hlanguage hready hshort
    ((c.readied_eq w).2.2 _ _ hfile)
  obtain ⟨loc, hlocate, -⟩ := State.unlink_of_glance hglance
  obtain ⟨d', hd', hloc⟩ := exists_directory_of_record site.proper hsimple.noSlash
    (isPassable_recordPath hpass hsimple.isPassable) hlocate
  obtain ⟨rfl, -⟩ := site.eq_of_liesAt hplace hpass hd'
  exact site.unlogged language hlanguage loc _ hlocate (hlog.trans (congrArg some hloc.symm))

end Site

/-- Where the directory of the records cannot be made, no path to a record leads anywhere. -/
lemma IsSteady.not_located (steady : c.IsSteady about w) (hc : c.directory.IsProper)
    (hslash : ('/' : CodePoint) ∉ language) (hpass : Files.IsPassable (c.recordPath language).text)
    {f : Failure} (hfails : c.readiness w = .error f) {m : Manner} (hm : m.writes = false)
    {place : Place} :
    (c.readied w).files.locate m (c.recordPath language).text ≠ .ok place := by
  intro h
  have hentry : ∃ place', (c.readied w).files.locate .entry (c.recordPath language).text =
      .ok place' := by
    obtain ⟨followsLast, writes⟩ := m
    obtain rfl : writes = false := hm
    cases followsLast with
    | false => exact ⟨place, h⟩
    | true =>
      rcases State.locate_entry_of_lookup h with hentry | ⟨loc, target, hlink⟩
      · exact ⟨place, hentry⟩
      · exact ⟨_, hlink⟩
  obtain ⟨place', hplace'⟩ := hentry
  obtain ⟨d, hd, -⟩ := exists_directory_of_record hc hslash hpass hplace'
  have hmade := (readied_of_liesAt hc (isPassable_directory hslash hpass) hd).1
  rw [steady.again f hfails, Prod.mk.injEq] at hmade
  cases hmade.1

/-! ## Stocks -/

/-- What is known of the files for the sake of records. -/
structure Stock where
  /-- The directory of the records has been made. -/
  made : Bool
  /-- What stands at each location once it has been made. -/
  view : Location → Option Face

/-- The stock is one to which records of such languages have led. -/
structure Stock.Fits (c : Cache) (about : Text → Prop) (w : World) (d : Location) (σ : Stock) :
    Prop where
  /-- Nothing has changed if the directory has not been made. -/
  start : σ.made = false ∨ c.readiness w ≠ .ok () → σ.view = (c.readied w).files.view
  /-- The entries of the languages are all that has changed. -/
  others : ∀ loc, (∀ language, about language → ¬ c.IsTooLong language →
    loc ≠ d ++ [entryName language]) → σ.view loc = (c.readied w).files.view loc
  /-- These are files or absent. -/
  plain : c.readiness w = .ok () → ∀ language, about language → ¬ c.IsTooLong language →
    ∀ face, σ.view (d ++ [entryName language]) = some face → ∃ content, face = .file content

/-- The world has come from `w` and has this stock, and the log may have grown. -/
structure HasStock (c : Cache) (about : Text → Prop) (w : World) (d : Location) (u : World)
    (σ : Stock) : Prop where
  /-- The stock is one to which records have led. -/
  fits : σ.Fits c about w d
  /-- The working directory is the same. -/
  home : u.files.home = w.files.home
  /-- The log is the same. -/
  log : u.logFile? = w.logFile?
  /-- The remote source is the same. -/
  remote : u.remote = w.remote
  /-- The machine is the same. -/
  host : u.host = w.host
  /-- Directories list different names. -/
  named : u.files.IsNamed
  /-- The files look so. -/
  view : ∃ more, u.files.view =
    grow w.logFile? more (if σ.made then σ.view else w.files.view)

/-- What the path of a record shows where this is its entry. -/
def sight (c : Cache) (w : World) (m : Manner) (language : Text) (entry : Option Face) :
    Except Errno Face :=
  match c.readiness w with
  | .ok _ => c.shown language entry
  | .error _ => (c.readied w).files.glance m (c.recordPath language).text

variable {σ : Stock}

/-- A file or nothing leaves no directory and no link. -/
lemma bind_fixture?_of_plain {entry : Option Face}
    (h : ∀ face, entry = some face → ∃ content, face = .file content) :
    entry.bind Face.fixture? = none := by
  cases entry with
  | none => rfl
  | some face =>
    obtain ⟨content, rfl⟩ := h face rfl
    rfl

/-- A stock in which the entry of one language has become a file or absent. -/
lemma Stock.Fits.update (h : σ.Fits c about w d) (hready : c.readiness w = .ok ())
    (hlanguage : about language) (hshort : ¬ c.IsTooLong language) {entry : Option Face}
    (hentry : ∀ face, entry = some face → ∃ content, face = .file content) :
    Stock.Fits c about w d ⟨true, Function.update σ.view (d ++ [entryName language]) entry⟩ where
  start hstart := by
    rcases hstart with hmade | hnot
    · cases hmade
    · exact absurd hready hnot
  others loc hloc :=
    (Function.update_of_ne (hloc language hlanguage hshort) _ _).trans (h.others loc hloc)
  plain _ other hother hshort' face hface := by
    simp only at hface
    by_cases hsame : d ++ [entryName other] = d ++ [entryName language]
    · rw [hsame, Function.update_self] at hface
      exact hentry face hface
    · rw [Function.update_of_ne hsame] at hface
      exact h.plain hready other hother hshort' face hface

/-- A stock of which the directory has been made. -/
lemma Stock.Fits.made (h : σ.Fits c about w d) : Stock.Fits c about w d ⟨true, σ.view⟩ where
  start hstart := by
    rcases hstart with hmade | hnot
    · cases hmade
    · exact h.start (Or.inr hnot)
  others := h.others
  plain := h.plain

/-- What the path of a record shows is the entry of the language, and a file. -/
lemma Stock.Fits.of_sight (hfits : σ.Fits c about w d) (site : c.Site about w)
    (steady : c.IsSteady about w) (hlanguage : about language)
    (hpath : Files.IsPassable (c.recordPath language).text) {face : Face}
    (h : c.sight w .entry language (σ.view (d ++ [entryName language])) = .ok face) :
    c.readiness w = .ok () ∧ ¬ c.IsTooLong language ∧ ∃ content, face = .file content := by
  unfold sight at h
  cases hready : c.readiness w with
  | error f =>
    simp only [hready] at h
    have hlocate : ∃ place,
        (c.readied w).files.locate .entry (c.recordPath language).text = .ok place := by
      unfold State.glance at h
      cases hlocate : (c.readied w).files.locate .entry (c.recordPath language).text with
      | error e => simp [hlocate] at h
      | ok place => exact ⟨place, rfl⟩
    obtain ⟨place, hplace'⟩ := hlocate
    exact absurd hplace' (steady.not_located site.proper (site.simple language hlanguage).noSlash
      hpath hready rfl)
  | ok a =>
    simp only [hready, shown] at h
    split at h
    · cases h
    · rename_i hshort
      refine ⟨rfl, hshort, ?_⟩
      cases hview : σ.view (d ++ [entryName language]) with
      | none => simp [hview] at h
      | some face' =>
        rw [hview, Option.elim_some, Except.ok.injEq] at h
        exact h ▸ hfits.plain hready language hlanguage hshort face' hview

section Site

variable (site : c.Site about w) (steady : c.IsSteady about w) (hplace : c.IsPlace w d)
include site steady hplace

/-- The directories and links of a stock are those there are once the directory has been made. -/
lemma Stock.Fits.frame (h : σ.Fits c about w d) (loc : Location) :
    (σ.view loc).bind Face.fixture? = (c.readied w).files.frame loc := by
  by_cases hready : c.readiness w = .ok ()
  · by_cases hloc : ∀ language, about language → ¬ c.IsTooLong language →
        loc ≠ d ++ [entryName language]
    · rw [h.others loc hloc, State.frame]
    · push Not at hloc
      obtain ⟨language, hlanguage, hshort, rfl⟩ := hloc
      rw [bind_fixture?_of_plain (h.plain hready language hlanguage hshort), State.frame,
        bind_fixture?_of_plain fun face =>
          site.plain_readied steady hplace hlanguage hready hshort]
  · rw [h.start (Or.inr hready), State.frame]

/-- A stock in which nothing has changed. -/
lemma Stock.fits_start (made : Bool) : Stock.Fits c about w d ⟨made, (c.readied w).files.view⟩ where
  start _ := rfl
  others _ _ := rfl
  plain hready _ hlanguage hshort _ := site.plain_readied steady hplace hlanguage hready hshort

/-- The file of the log is in the stock. -/
lemma Stock.Fits.log (h : σ.Fits c about w d) {loc : Location} (hlog : w.logFile? = some loc) :
    ∃ content, σ.view loc = some (.file content) := by
  obtain ⟨content, hfile⟩ := site.sound.log loc hlog
  refine ⟨content, ?_⟩
  have hsame : σ.view loc = (c.readied w).files.view loc := by
    by_cases hready : c.readiness w = .ok ()
    · refine h.others loc fun language hlanguage hshort hloc => ?_
      exact site.unlogged_readied steady hplace hlanguage hready hshort (hlog.trans (congrArg _ hloc))
    · rw [h.start (Or.inr hready)]
  rw [hsame, (c.readied_eq w).2.2 loc _ hfile]

end Site

namespace HasStock

variable {σ : Stock} (h : c.HasStock about w d u σ)

/-- Reports do not change the stock. -/
lemma reported (h : c.HasStock about w d u σ) (hr : World.Reported u v) (hnamed : v.files.IsNamed) :
    c.HasStock about w d v σ := by
  obtain ⟨more, hmore⟩ := h.view
  obtain ⟨more', hmore'⟩ := hr.view
  refine ⟨h.fits, hr.home.trans h.home, hr.log.trans h.log, hr.remote.trans h.remote,
    hr.host.trans h.host, hnamed, more ++ more', ?_⟩
  rw [hmore', h.log, hmore, grow_grow]

/-- What leaves the files as they are, but for the log, does not change the stock. -/
lemma stays (h : c.HasStock about w d u σ)
    (hbecomes : World.Becomes u v u.files.view u.logFile?) (hnamed : v.files.IsNamed) :
    c.HasStock about w d v σ :=
  h.reported ⟨hbecomes.home, hbecomes.view, hbecomes.log, hbecomes.remote, hbecomes.host⟩ hnamed

variable (site : c.Site about w) (steady : c.IsSteady about w) (hplace : c.IsPlace w d)
include site steady hplace

/-- The world itself has a stock, in which the directory has not been made. -/
lemma start : c.HasStock about w d w ⟨false, (c.readied w).files.view⟩ where
  fits := Stock.fits_start site steady hplace false
  home := rfl
  log := rfl
  remote := rfl
  host := rfl
  named := site.named
  view := ⟨[], by simp⟩

include h

/-- A world with a stock keeps to the system. -/
lemma sound : u.Sound where
  log := by
    intro loc hlog
    rw [h.log] at hlog
    obtain ⟨more, hmore⟩ := h.view
    have hfile : ∃ content, (if σ.made then σ.view else w.files.view) loc = some (.file content) := by
      split
      · exact h.fits.log site steady hplace hlog
      · exact site.sound.log loc hlog
    obtain ⟨content, hcontent⟩ := hfile
    exact ⟨content ++ more, by simp [hmore, grow, hlog, hcontent, Face.grown]⟩
  home := h.home ▸ site.sound.home

/-- Where the directory has been made, directories and links are those there are then. -/
lemma frame (hmade : σ.made = true) : u.files.frame = (c.readied w).files.frame := by
  obtain ⟨more, hmore⟩ := h.view
  rw [if_pos hmade] at hmore
  funext loc
  rw [State.frame, hmore, bind_fixture?_grow, h.fits.frame site steady hplace]

/-- Where the directory has been made, it is at its place. -/
lemma liesAt (hmade : σ.made = true) (hready : c.readiness w = .ok ()) :
    u.files.LiesAt c.directory.text d :=
  (hplace hready).of_frame_eq (h.frame site steady hplace hmade)
    (h.home.trans (c.readied_eq w).2.1.symm)

/-- Where the directory has been made, the entry of a language is that of the stock. -/
lemma view_entry (hmade : σ.made = true) (hready : c.readiness w = .ok ())
    (hlanguage : about language) (hshort : ¬ c.IsTooLong language) :
    u.files.view (d ++ [entryName language]) = σ.view (d ++ [entryName language]) := by
  obtain ⟨more, hmore⟩ := h.view
  rw [if_pos hmade] at hmore
  rw [hmore, grow_of_ne (site.unlogged_readied steady hplace hlanguage hready hshort)]

/-- What makes the entry of a language a file or absent, and nothing else, does so in the stock. -/
lemma becomes (hmade : σ.made = true) (hready : c.readiness w = .ok ()) (hlanguage : about language)
    (hshort : ¬ c.IsTooLong language) {entry : Option Face}
    (hentry : ∀ face, entry = some face → ∃ content, face = .file content)
    (hbecomes : World.Becomes u v
      (Function.update u.files.view (d ++ [entryName language]) entry) u.logFile?)
    (hnamed : v.files.IsNamed) :
    c.HasStock about w d v ⟨true, Function.update σ.view (d ++ [entryName language]) entry⟩ := by
  obtain ⟨more, hmore⟩ := h.view
  obtain ⟨more', hmore'⟩ := hbecomes.view
  rw [if_pos hmade] at hmore
  have hlog := site.unlogged_readied steady hplace hlanguage hready hshort
  refine ⟨h.fits.update hready hlanguage hshort hentry, hbecomes.home.trans h.home,
    hbecomes.log.trans h.log, hbecomes.remote.trans h.remote, hbecomes.host.trans h.host, hnamed,
    more ++ more', ?_⟩
  rw [hmore', h.log, hmore, update_grow hlog, grow_grow]
  rfl

/-- A world in which the directory of the records lies somewhere is one in which it has been made. -/
lemma made_of_liesAt (hpass : Files.IsPassable c.directory.text) {d' : Location}
    (hd' : u.files.LiesAt c.directory.text d') :
    d' = d ∧ c.HasStock about w d u ⟨true, σ.view⟩ := by
  cases hmade : σ.made with
  | true =>
    have hsame : c.HasStock about w d u ⟨true, σ.view⟩ := by
      obtain ⟨fits, home, log, remote, host, named, view⟩ := h
      rw [hmade] at view
      exact ⟨fits.made, home, log, remote, host, named, view⟩
    refine ⟨?_, hsame⟩
    have hd := hd'.of_frame_eq (h.frame site steady hplace hmade).symm
      (h.home.trans (c.readied_eq w).2.1.symm).symm
    have hready : c.readiness w = .ok () := by
      cases hready : c.readiness w with
      | ok a => rfl
      | error f =>
        have hmade' := (readied_of_liesAt site.proper hpass hd).1
        rw [steady.again f hready, Prod.mk.injEq] at hmade'
        cases hmade'.1
    exact hd.unique (hplace hready)
  | false =>
    obtain ⟨more, hmore⟩ := h.view
    rw [hmade] at hmore
    have hd := hd'.of_frame_eq (State.frame_of_grow hmore).symm h.home.symm
    obtain ⟨rfl, hready⟩ := site.eq_of_liesAt hplace hpass hd
    refine ⟨rfl, h.fits.made, h.home, h.log, h.remote, h.host, h.named, more, ?_⟩
    rw [h.fits.start (Or.inl hmade), hready]
    exact hmore

/-- The path of a record shows what follows from the entry of the language alone. -/
theorem glance (hlanguage : about language)
    (hpass : Files.IsPassable (c.recordPath language).text) {m : Manner} (hm : m.writes = false) :
    u.files.glance m (c.recordPath language).text =
      c.sight w m language (σ.view (d ++ [entryName language])) := by
  have hslash := (site.simple language hlanguage).noSlash
  obtain ⟨more, hmore⟩ := h.view
  have hhome := (c.readied_eq w).2.1
  -- what the path shows in the world from which this one has come, once the directory is made
  have hstart : σ.made = false → u.files.glance m (c.recordPath language).text =
      (c.readied w).files.glance m (c.recordPath language).text := by
    intro hmade
    rw [hmade] at hmore
    rw [steady.looks language hlanguage m hm]
    exact State.glance_of_grow h.home hmore fun loc n => site.not_log hlanguage hm
  unfold sight
  cases hready : c.readiness w with
  | error f =>
    cases hmade : σ.made with
    | false => exact hstart hmade
    | true =>
      rw [hmade, if_pos rfl, h.fits.start (Or.inr (by simp [hready]))] at hmore
      refine State.glance_of_grow (h.home.trans hhome.symm) hmore fun loc n hlocate => ?_
      exact absurd hlocate (steady.not_located site.proper hslash hpass hready hm)
  | ok a =>
    simp only
    cases hmade : σ.made with
    | false =>
      rw [hstart hmade, h.fits.start (Or.inl hmade)]
      refine glance_record site.proper hslash hpass hm (hplace hready) fun _ hshort target hview => ?_
      obtain ⟨content, hface⟩ := site.plain_readied steady hplace hlanguage hready hshort hview
      cases hface
    | true =>
      have hentry := h.view_entry site steady hplace hmade hready hlanguage
      have hglance := glance_record site.proper hslash hpass hm
        (h.liesAt site steady hplace hmade hready) fun _ hshort target hview => by
          rw [hentry hshort] at hview
          obtain ⟨content, hface⟩ := h.fits.plain hready language hlanguage hshort _ hview
          cases hface
      rw [hglance]
      by_cases hlong : c.IsTooLong language
      · rw [shown, shown, if_pos hlong, if_pos hlong]
      · rw [hentry hlong]

/-- To make the directory of the records succeeds or fails as at first, and leaves a stock in which it
has been made. -/
theorem opened : ∃ t, (Files.makePath c.directory).exec u = (c.readiness w, u.withFiles t) ∧
    c.HasStock about w d (u.withFiles t) ⟨true, σ.view⟩ := by
  have hnamed : ∀ {x t}, (Files.makePath c.directory).exec u = (x, u.withFiles t) → t.IsNamed := by
    intro x t hexec
    have hkeeps := Files.keepsNames_makePath c.directory u h.named
    rwa [hexec] at hkeeps
  -- it is enough to see where the making leads
  have hstock : ∀ {t}, (Files.makePath c.directory).exec u = (c.readiness w, u.withFiles t) →
      t.home = w.files.home → (∃ more, t.view = grow w.logFile? more σ.view) →
      c.HasStock about w d (u.withFiles t) ⟨true, σ.view⟩ :=
    fun hexec hhome hview =>
      ⟨h.fits.made, hhome, h.log, h.remote, h.host, hnamed hexec, hview⟩
  obtain ⟨more, hmore⟩ := h.view
  have hhome := (c.readied_eq w).2.1
  cases hmade : σ.made with
  | false =>
    rw [hmade] at hmore
    obtain ⟨t, hexec, hhome', hview⟩ :=
      Files.exec_makePath_of_grow (c.exec_makePath_eq w) h.home hmore
    refine ⟨t, hexec, hstock hexec (hhome'.trans hhome) ⟨more, ?_⟩⟩
    rw [hview, h.fits.start (Or.inl hmade)]
  | true =>
    cases hready : c.readiness w with
    | ok a =>
      have hlies := h.liesAt site steady hplace hmade hready
      have hexec := (readied_of_liesAt site.proper (isPassable_of_readiness hready) hlies).1
      rw [hmade] at hmore
      rw [hready] at hstock
      exact ⟨u.files, hexec, hstock hexec h.home ⟨more, hmore⟩⟩
    | error f =>
      have hsame := h.fits.start (Or.inr (by simp [hready]))
      rw [hmade, if_pos rfl, hsame] at hmore
      obtain ⟨t, hexec, hhome', hview⟩ := Files.exec_makePath_of_grow (w := c.readied w) (v := u)
        (s := (c.readied w).files) (steady.again f hready) (h.home.trans hhome.symm) hmore
      rw [hready] at hstock
      refine ⟨t, hexec, hstock hexec (hhome'.trans hhome) ⟨more, ?_⟩⟩
      rw [hview, hsame]

end HasStock

end Cache

end EditorDocs
