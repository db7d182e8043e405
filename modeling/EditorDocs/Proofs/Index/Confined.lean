import EditorDocs.Proofs.Command.Call
import EditorDocs.Proofs.FileSystem.Children
import EditorDocs.Proofs.Index.Atomic
import Mathlib.Logic.Relation

/-!
# A record for each language, in one directory

The path of a record is that of the directory of the records with a name behind it.  If the language
holds no slash then this name is a single one, and what the path leads to is the entry of this name in
the directory to which the path of the directory leads (`Cache.exists_directory_of_record`).  Different
languages have different paths, and different entries unless their bytes are the same
(`Cache.entryName_eq_iff`).

What calls do is therefore confined to the entries of their languages.  A call takes steps
(`Cache.Step`): something is reported, directories are made on the way to that of the records, or the
entry of a language changes in the directory as it is then.  `Resolver.confined` puts together that all
runs of calls consist of such steps, and that reading looks at the same entries.

A language with slashes leads elsewhere (`Resolver.clear_outside`).
-/

namespace EditorDocs

open FileSystem

namespace Cache

variable {c : Cache} {language other : Text}

/-! ## The names of records -/

/-- The name of the record of a language as the system spells it. -/
def entryName (language : Text) : Name := canonical (recordName language)

/-- The name of a record is that of an entry. -/
lemma isRegular_recordName (language : Text) : IsRegular (recordName language) :=
  isEnding_record.isRegular language

/-- A language without slashes makes a name without slashes. -/
lemma notMem_recordName (h : ('/' : CodePoint) ∉ language) :
    ('/' : CodePoint) ∉ recordName language := by
  intro hmem
  rcases List.mem_append.mp hmem with hlanguage | hend
  · exact h hlanguage
  · exact isEnding_record.noSlash hend

/-- The name of a record keeps its end when the system spells it. -/
lemma entryName_eq (language : Text) : entryName language = canonical language ++ "_index.json" :=
  canonical_append language isEnding_record.ascii

/-- The name of a record as the system spells it is that of an entry. -/
lemma isRegular_entryName (language : Text) : IsRegular (entryName language) := by
  rw [entryName_eq]
  exact isEnding_record.isRegular _

/-- The path of a record is that of the directory with one name behind it. -/
lemma recordPath_eq (c : Cache) (h : ('/' : CodePoint) ∉ language) :
    c.recordPath language = childPath c.directory (recordName language) :=
  child_eq_childPath c.directory (isRegular_recordName language) (notMem_recordName h)

/-- Different languages have different paths. -/
lemma recordPath_eq_iff (h : ('/' : CodePoint) ∉ language) (h' : ('/' : CodePoint) ∉ other) :
    c.recordPath language = c.recordPath other ↔ language = other := by
  constructor
  · intro heq
    rw [recordPath_eq c h, recordPath_eq c h'] at heq
    have hnames := List.append_cancel_left (congrArg Path.names heq)
    exact List.append_cancel_right (List.cons.inj hnames).1
  · rintro rfl
    rfl

/-- Two languages have one name for the system if and only if they consist of the same bytes. -/
lemma entryName_eq_iff (h : IsByteText language) (h' : IsByteText other) :
    entryName language = entryName other ↔ bytesOf language = bytesOf other := by
  rw [entryName_eq, entryName_eq, canonical_eq h, canonical_eq h']
  constructor
  · intro heq
    have hsame := congrArg bytesOf (List.append_cancel_right heq)
    rwa [bytesOf_ofBytes, bytesOf_ofBytes] at hsame
  · intro heq
    rw [heq]

/-- A language consists of bytes if the path of its record can be passed. -/
lemma isByteText_of_recordPath (h : ('/' : CodePoint) ∉ language)
    (hpass : Files.IsPassable (c.recordPath language).text) : IsByteText language := by
  rw [recordPath_eq c h, Files.isPassable_text_iff] at hpass
  have hname : Files.IsPassable (recordName language) :=
    hpass _ (List.mem_append_right _ List.mem_cons_self)
  exact (hname.mono fun _ hc => List.mem_append_left _ hc).isByteText

/-! ## The places of records -/

/-- The path of a record leads to the entry of its name in the directory of the records, if it leads
anywhere. -/
theorem exists_directory_of_record (hc : c.directory.IsProper) (h : ('/' : CodePoint) ∉ language)
    (hpass : Files.IsPassable (c.recordPath language).text) {s : State} {place : Place}
    (hplace : s.locate .entry (c.recordPath language).text = .ok place) :
    ∃ d, s.LiesAt c.directory.text d ∧ place.location = d ++ [entryName language] := by
  have hbytes := hpass.isByteText
  rw [recordPath_eq c h] at hbytes hplace
  exact State.locate_child hc (isRegular_recordName language) (notMem_recordName h) hbytes
    (isRegular_entryName language) hplace

/-- What is found at the path of a record depends on its entry in the directory of the records alone,
unless that is a link. -/
lemma face_eq_of_entry (hc : c.directory.IsProper) (h : ('/' : CodePoint) ∉ language)
    (hpass : Files.IsPassable (c.recordPath language).text) {s t : State} {d : Location}
    (hs : s.LiesAt c.directory.text d) (ht : t.LiesAt c.directory.text d)
    (hsame : s.view (d ++ [entryName language]) = t.view (d ++ [entryName language]))
    (hlink : ∀ target, s.view (d ++ [entryName language]) ≠ some (.link target)) :
    (s.lookup (c.recordPath language).text).map Node.face =
      (t.lookup (c.recordPath language).text).map Node.face := by
  have hbytes := hpass.isByteText
  have hlink' : ∀ target, t.view (d ++ [entryName language]) ≠ some (.link target) := by
    rw [← hsame]
    exact hlink
  rw [recordPath_eq c h] at hbytes ⊢
  have hlookup : ∀ u : State, u.LiesAt c.directory.text d →
      (∀ target, u.view (d ++ [entryName language]) ≠ some (.link target)) → _ := fun u hu hlink =>
    State.lookup_child hc (isRegular_recordName language) (notMem_recordName h) hbytes
      (isRegular_entryName language) hu hlink
  rw [hlookup s hs hlink, hlookup t ht hlink']
  unfold entryName at hsame
  rw [hsame]

/-! ## Looking -/

/-- Whether there is something at a path depends on the face of what is found there. -/
lemma exists_eq_of_face {path : Text} {w v : World}
    (h : (w.files.lookup path).map Node.face = (v.files.lookup path).map Node.face) :
    ((Files.exists? path).exec w).1 = ((Files.exists? path).exec v).1 := by
  rw [Files.exec_exists?, Files.exec_exists?]
  cases hw : w.files.lookup path with
  | error e =>
    cases hv : v.files.lookup path with
    | error e' =>
      rw [hw, hv] at h
      cases h
      rfl
    | ok n =>
      rw [hw, hv] at h
      cases h
  | ok n =>
    cases hv : v.files.lookup path with
    | error e' =>
      rw [hw, hv] at h
      cases h
    | ok n' => rfl

/-- A record is looked for and read in its entry, unless that is a link: nothing else in the files has
a say. -/
theorem looks_at_entry (hc : c.directory.IsProper) (h : ('/' : CodePoint) ∉ language) {w v : World}
    {d : Location} (hw : w.files.LiesAt c.directory.text d) (hv : v.files.LiesAt c.directory.text d)
    (hsame : w.files.view (d ++ [entryName language]) = v.files.view (d ++ [entryName language]))
    (hlink : ∀ target, w.files.view (d ++ [entryName language]) ≠ some (.link target)) :
    ((c.exists? language).exec w).1 = ((c.exists? language).exec v).1 ∧
      (v.host.reader = w.host.reader →
        ((c.read language).exec w).1 = ((c.read language).exec v).1) := by
  cases hrefused : Files.refusal? (c.recordPath language).text with
  | some f =>
    constructor
    · rw [exists?, Files.exec_exists?, Files.exec_exists?, hrefused]
    · intro _
      rw [Resolver.exec_read_refused hrefused, Resolver.exec_read_refused hrefused]
  | none =>
    have hpass := Files.refusal?_eq_none_iff.mp hrefused
    have hface := face_eq_of_entry hc h hpass hw hv hsame hlink
    refine ⟨exists_eq_of_face hface, fun hreader => ?_⟩
    obtain ⟨w', hw', -⟩ := exec_read hpass w
    obtain ⟨v', hv', -⟩ := exec_read hpass v
    rw [hw', hv', hreader, readFrom, readFrom, State.read_eq_of_face, State.read_eq_of_face, hface]

/-! ## Steps -/

/-- What a call about such languages does at a time. -/
inductive Step (c : Cache) (about : Text → Prop) (w w' : World) : Prop where
  /-- Nothing happens to the files but that the log grows. -/
  | told (home : w'.files.home = w.files.home) (log : w'.logFile? = w.logFile?)
      (view : ∃ more, w'.files.view = grow w.logFile? more w.files.view)
  /-- Directories are made on the way to that of the records. -/
  | way (log : w'.logFile? = w.logFile?) (way : Files.MakesWay c.directory w.files w'.files)
  /-- In the directory of the records the entry of a language comes, changes or goes. -/
  | entry {language : Text} {d : Location} {face : Option Face} (mem : about language)
      (lies : w.files.LiesAt c.directory.text d) (home : w'.files.home = w.files.home)
      (log : w'.logFile? = if w.logFile? = some (d ++ [entryName language]) then none else w.logFile?)
      (view : ∃ more, w'.files.view = grow w'.logFile? more
        (Function.update w.files.view (d ++ [entryName language]) face))

/-- At the location the directory of the records has the entry of such a language. -/
def Concerns (c : Cache) (about : Text → Prop) (s : State) (loc : Location) : Prop :=
  ∃ language d, about language ∧ s.LiesAt c.directory.text d ∧ loc = d ++ [entryName language]

namespace Step

variable {about : Text → Prop} {w w' : World} {loc : Location}

/-- The log is the one that was open. -/
lemma log_of_log (h : c.Step about w w') (hlog : w'.logFile? = some loc) :
    w.logFile? = some loc := by
  cases h with
  | told _ log _ => exact log ▸ hlog
  | way log _ => exact log ▸ hlog
  | entry _ _ _ log _ =>
    rw [log] at hlog
    split at hlog
    · cases hlog
    · exact hlog

/-- A step changes the log, makes a directory, or changes the entry of a language. -/
lemma changes (h : c.Step about w w') (hne : w'.files.view loc ≠ w.files.view loc) :
    w.logFile? = some loc ∨ (w.files.view loc = none ∧ w'.files.view loc = some .directory) ∨
      c.Concerns about w.files loc := by
  by_cases hlog : w.logFile? = some loc
  · exact Or.inl hlog
  right
  cases h with
  | told _ _ view =>
    obtain ⟨more, hmore⟩ := view
    rw [hmore, grow_of_ne hlog] at hne
    exact absurd rfl hne
  | way _ way =>
    rcases way.view loc with hsame | hnew
    · exact absurd hsame hne
    · exact Or.inl hnew
  | @entry language d face mem lies _ log view =>
    right
    obtain ⟨more, hmore⟩ := view
    refine ⟨language, d, mem, lies, ?_⟩
    by_contra hother
    have hlog' : w'.logFile? ≠ some loc := by
      rw [log]
      split
      · simp
      · exact hlog
    rw [hmore, grow_of_ne hlog', Function.update_of_ne hother] at hne
    exact hne rfl

end Step

/-- From one world to another there are steps that are about such languages. -/
def Steps (c : Cache) (about : Text → Prop) : World → World → Prop :=
  Relation.ReflTransGen (c.Step about)

namespace Steps

variable {about : Text → Prop} {w w' : World} {loc : Location}

/-- The log is the one that was open. -/
lemma log_of_log (h : c.Steps about w w') (hlog : w'.logFile? = some loc) :
    w.logFile? = some loc := by
  induction h with
  | refl => exact hlog
  | tail _ hstep ih => exact ih (hstep.log_of_log hlog)

/-- Steps change the log, make directories, or change the entry that a language has at the time. -/
theorem changes (h : c.Steps about w w') (hne : w'.files.view loc ≠ w.files.view loc) :
    w.logFile? = some loc ∨ (w.files.view loc = none ∧ w'.files.view loc = some .directory) ∨
      ∃ v, c.Steps about w v ∧ c.Steps about v w' ∧ c.Concerns about v.files loc := by
  induction h with
  | refl => exact absurd rfl hne
  | @tail v w' hbefore hstep ih =>
    by_cases hlast : w'.files.view loc = v.files.view loc
    · rw [hlast] at hne ⊢
      rcases ih hne with hlog | hnew | ⟨u, hu, hv, hconcerns⟩
      · exact Or.inl hlog
      · exact Or.inr (Or.inl hnew)
      · exact Or.inr (Or.inr ⟨u, hu, hv.tail hstep, hconcerns⟩)
    · rcases hstep.changes hlast with hlog | ⟨hnone, hnew⟩ | hconcerns
      · exact Or.inl (log_of_log hbefore hlog)
      · by_cases hfirst : v.files.view loc = w.files.view loc
        · exact Or.inr (Or.inl ⟨hfirst ▸ hnone, hnew⟩)
        · rcases ih hfirst with hlog | ⟨-, hdirectory⟩ | ⟨u, hu, hv, hconcerns⟩
          · exact Or.inl hlog
          · rw [hnone] at hdirectory
            cases hdirectory
          · exact Or.inr (Or.inr ⟨u, hu, hv.tail hstep, hconcerns⟩)
      · exact Or.inr (Or.inr ⟨v, hbefore, .single hstep, hconcerns⟩)

end Steps

/-- In steps that are about such languages, no files have changed but the log, directories that have
come, and the entries of such languages in the directory of the records as it was at the time. -/
def Confines (c : Cache) (about : Text → Prop) (w w' : World) : Prop :=
  c.Steps about w w' ∧ ∀ loc, w'.files.view loc ≠ w.files.view loc →
    w.logFile? = some loc ∨ (w.files.view loc = none ∧ w'.files.view loc = some .directory) ∨
      ∃ v, c.Steps about w v ∧ c.Steps about v w' ∧ c.Concerns about v.files loc

/-- What steps change is confined. -/
lemma Steps.confines {about : Text → Prop} {w w' : World} (h : c.Steps about w w') :
    c.Confines about w w' :=
  ⟨h, fun _ hne => h.changes hne⟩

/-! ## The temporary file -/

/-- The name of a temporary file with a fresh end. -/
def temporaryName (language : Text) (n : Nat) : Name :=
  temporaryStart language ++ (Files.candidate n ++ ".tmp")

/-- The name of a temporary file is that of an entry. -/
lemma isRegular_temporaryName (language : Text) (n : Nat) : IsRegular (temporaryName language n) :=
  (Files.isEnding_candidate isEnding_temporary n).isRegular _

/-- The name of a temporary file keeps its end when the system spells it. -/
lemma canonical_temporaryName (language : Text) (n : Nat) :
    canonical (temporaryName language n) =
      canonical (temporaryStart language) ++ (Files.candidate n ++ ".tmp") :=
  canonical_append _ (Files.isEnding_candidate isEnding_temporary n).ascii

/-- The name of a temporary file as the system spells it is that of an entry. -/
lemma isRegular_canonical_temporaryName (language : Text) (n : Nat) :
    IsRegular (canonical (temporaryName language n)) := by
  rw [canonical_temporaryName]
  exact (Files.isEnding_candidate isEnding_temporary n).isRegular _

/-- A language without slashes makes a name of a temporary file without slashes. -/
lemma notMem_temporaryName (h : ('/' : CodePoint) ∉ language) (n : Nat) :
    ('/' : CodePoint) ∉ temporaryName language n := by
  intro hmem
  rcases List.mem_append.mp hmem with hstart | hend
  · rcases List.mem_append.mp hstart with hstart | hindex
    · rcases List.mem_append.mp hstart with hdot | hlanguage
      · exact absurd hdot (by decide)
      · exact h hlanguage
    · exact absurd hindex (by decide)
  · exact (Files.isEnding_candidate isEnding_temporary n).noSlash hend

/-- The directory of temporary files: that of the records, collapsed. -/
def temporaryDirectory (c : Cache) (s : State) : Path :=
  ((⟨.absolute, s.home⟩ : Path).append c.directory).collapse

/-- The path of the directory of temporary files is one that is spelled. -/
lemma isProper_temporaryDirectory (hc : c.directory.IsProper) {s : State}
    (hhome : (⟨.absolute, s.home⟩ : Path).IsProper) : (c.temporaryDirectory s).IsProper :=
  fun name hname => hhome.append hc name (Path.mem_names_of_collapse hname)

/-- The path of a temporary file is that of the directory of these with a name behind it. -/
lemma freshPath_eq (hc : c.directory.IsProper) {s : State}
    (hhome : (⟨.absolute, s.home⟩ : Path).IsProper) (language : Text) (n : Nat) :
    Files.freshPath s c.directory (temporaryStart language) ++ (Files.candidate n ++ ".tmp") =
      (childPath (c.temporaryDirectory s) (temporaryName language n)).text := by
  have hroot : (c.temporaryDirectory s).root ≠ .relative := by
    unfold temporaryDirectory Path.collapse Path.append
    split
    · simp
    · assumption
  rw [← under_eq_childPath (isProper_temporaryDirectory hc hhome) hroot, temporaryName, under_append]
  rfl

/-- The temporary file of a record is made in the directory to which the path of the directory of
the records leads when it is collapsed. -/
theorem exists_directory_of_temporary (hc : c.directory.IsProper)
    (h : ('/' : CodePoint) ∉ language) {w w' : World} {temporary : Text} {file : Location}
    (hhome : w.workingDirectory.IsProper)
    (hcreate : (Files.createFresh c.directory (temporaryStart language) ".tmp").exec w =
      (.ok (temporary, file), w')) :
    ∃ d name, w.files.LiesAt (w.workingDirectory.append c.directory).collapse.text d ∧
      file = d ++ [name] := by
  obtain ⟨n, s, -, htemporary, hpass, hfile, -⟩ := Files.createFile_of_createFresh hcreate
  obtain ⟨-, -, -, -, place, hplace, rfl⟩ := State.view_createFile hfile
  rw [htemporary, freshPath_eq hc hhome] at hplace hpass
  obtain ⟨d, hlies, hd⟩ := State.locate_child (isProper_temporaryDirectory hc hhome)
    (isRegular_temporaryName language n) (notMem_temporaryName h n) hpass.isByteText
    (isRegular_canonical_temporaryName language n) hplace
  exact ⟨d, _, hlies, hd⟩

end Cache

namespace Resolver

/-! ## Calls -/

variable {r : Resolver} {about : Text → Prop} {w : World}

/-- What calls do consists of steps. -/
lemma covers_steps {c : Cache} (hc : c.directory.IsProper)
    (habout : ∀ language, about language → ('/' : CodePoint) ∉ language) :
    Covers c about fun w w' => w.Inherits w' ∧ c.Steps about w w' where
  refl hw := ⟨.refl hw, .refl⟩
  trans h h' := ⟨h.1.trans h'.1, h.2.trans h'.2⟩
  sound h hw := h.1.sound hw
  reported hw h := ⟨.reported hw h, .single (.told h.home h.log h.view)⟩
  written {w w' language index x} hw hlanguage hwrite heffect := by
    refine ⟨heffect.inherits hw, ?_⟩
    cases heffect with
    | @unwritten f y s w' made way becomes =>
      have hway : c.Step about w (w.withFiles s) := .way rfl way
      have hreported := becomes.reported way.home
      exact .tail (.single hway) (.told hreported.home hreported.log hreported.view)
    | @written s w' dest scalar made way takes becomes =>
      have hway : c.Step about w (w.withFiles s) := .way rfl way
      obtain ⟨hdirectory, hpass⟩ := Cache.isPassable_of_write hwrite
      obtain ⟨place, hplace, rfl, -⟩ := takes.leads
      obtain ⟨d, hlies, hdest⟩ := Cache.exists_directory_of_record hc (habout language hlanguage)
        (Cache.isPassable_recordPath hdirectory hpass) hplace
      have hlog := becomes.log
      have hview := becomes.view
      rw [← hlog, hdest] at hview
      rw [hdest] at hlog
      have hentry : c.Step about (w.withFiles s) w' :=
        .entry hlanguage hlies (becomes.home.trans way.home.symm) hlog hview
      exact .tail (.single hway) hentry
  deleted {w language gone s} hw hlanguage hpass hunlink := by
    obtain ⟨hhome, hview, n, hplace, -⟩ := State.view_unlink hunlink
    refine ⟨.forget hw hhome hview, .single ?_⟩
    obtain ⟨d, hlies, hgone⟩ := Cache.exists_directory_of_record hc (habout language hlanguage)
      hpass hplace
    obtain rfl : gone = _ := hgone
    exact .entry hlanguage hlies hhome (World.logFile?_forget _ _)
      ⟨[], by rw [grow_nil]; exact hview⟩
  answers remote hw := ⟨⟨rfl, (World.Inherits.refl hw).log, (World.Inherits.refl hw).entries⟩,
    .single (.told rfl rfl ⟨[], by simp⟩)⟩

/-- What a call of the command for indices does is taken in. -/
lemma Covers.getIndices {R : World → World → Prop} (h : Covers r.cache about R) (hw : w.Sound)
    {args : List Text} (hargs : ∀ language, args.head? = some language → about language) :
    R w (((Command.getIndices r).call args).exec w).2 := by
  obtain ⟨w', hcall, hreported⟩ := (Command.getIndices r).exec_call args w
  have hevaluated : R w (((Command.getIndices r).evaluate args).exec w).2 := by
    by_cases haccepts : (Command.getIndices r).accepts args.length = true
    · rw [Command.evaluate_of_accepts haccepts]
      cases args with
      | nil => exact h.refl hw
      | cons language rest =>
        have hresolve := h.resolve (r := r) hw (hargs language rfl)
        have hsame : (((Command.getIndices r).execute (language :: rest)).exec w).2 =
            ((r.resolve language).exec w).2 := by
          have hexecute : ((Command.getIndices r).execute (language :: rest)).exec w =
              (do pure (← r.resolve language).toJson : Action Json.Value).exec w := rfl
          rw [hexecute, Action.exec_bind]
          split <;> simp_all
        rw [hsame]
        exact hresolve
    · rw [Command.exec_evaluate_refused haccepts]
      exact h.refl hw
  rw [hcall]
  exact h.trans hevaluated (h.reported (h.sound hevaluated hw) hreported)

/-- If there is a record, resolving gives what reading it gives. -/
lemma resolve_eq_read {language : Text} (h : ((r.cache.exists? language).exec w).1 = .ok true) :
    ((r.resolve language).exec w).1 = ((r.cache.read language).exec w).1 := by
  obtain ⟨w', hresolve, -⟩ := exec_resolve_of_exists h
  obtain ⟨w'', hread, -⟩ := Cache.exec_read (lookup_of_exists h).1 w
  rw [hresolve, hread]

/-- The records of languages without slashes are confined to their directory, and there is one for each
language.  Different languages have different paths; these lead to entries of the directory of the
records, and to one entry if and only if the languages consist of the same bytes.  Whether there is a
record, and what a machine reads from it, also when the index is resolved, depends on nothing in the
files but its entry, unless that is a link; and the temporary file of a record is made in the directory
of the collapsed path.  A run of calls, and a call of the command for indices, changes nothing but the
log, directories on the way to that of the records, and the entries that such languages have in the
directory of the records at the time. -/
theorem confined (r : Resolver) (hc : r.cache.directory.IsProper) :
    (∀ language other, ('/' : CodePoint) ∉ language → ('/' : CodePoint) ∉ other →
      (r.cache.recordPath language = r.cache.recordPath other ↔ language = other) ∧
      ∀ (s : State) (place place' : Place),
        Files.IsPassable (r.cache.recordPath language).text →
        Files.IsPassable (r.cache.recordPath other).text →
        s.locate .entry (r.cache.recordPath language).text = .ok place →
        s.locate .entry (r.cache.recordPath other).text = .ok place' →
        (∃ d, s.LiesAt r.cache.directory.text d ∧
          place.location = d ++ [Cache.entryName language] ∧
          place'.location = d ++ [Cache.entryName other]) ∧
        (place.location = place'.location ↔ bytesOf language = bytesOf other)) ∧
    (∀ language (w v : World) d, ('/' : CodePoint) ∉ language →
      w.files.LiesAt r.cache.directory.text d → v.files.LiesAt r.cache.directory.text d →
      w.files.view (d ++ [Cache.entryName language]) =
        v.files.view (d ++ [Cache.entryName language]) →
      (∀ target, w.files.view (d ++ [Cache.entryName language]) ≠ some (.link target)) →
      ((r.cache.exists? language).exec w).1 = ((r.cache.exists? language).exec v).1 ∧
        (v.host.reader = w.host.reader →
          ((r.cache.read language).exec w).1 = ((r.cache.read language).exec v).1) ∧
        (((r.cache.exists? language).exec w).1 = .ok true →
          ((r.resolve language).exec w).1 = ((r.cache.read language).exec w).1)) ∧
    (∀ language (w w' : World) temporary file, ('/' : CodePoint) ∉ language →
      w.workingDirectory.IsProper →
      (Files.createFresh r.cache.directory (Cache.temporaryStart language) ".tmp").exec w =
        (.ok (temporary, file), w') →
      ∃ d name, w.files.LiesAt (w.workingDirectory.append r.cache.directory).collapse.text d ∧
        file = d ++ [name]) ∧
    ∀ (w : World) (about : Text → Prop), w.Sound →
      (∀ language, about language → ('/' : CodePoint) ∉ language) →
      (∀ calls : List Call, (∀ call ∈ calls, call.IsAbout about) →
        r.cache.Confines about w (r.after w calls)) ∧
      ∀ args : List Text, (∀ language, args.head? = some language → about language) →
        r.cache.Confines about w (((Command.getIndices r).call args).exec w).2 := by
  refine ⟨fun language other h h' => ⟨Cache.recordPath_eq_iff h h', ?_⟩, ?_, ?_, ?_⟩
  · intro s place place' hpass hpass' hplace hplace'
    obtain ⟨d, hd, hlocation⟩ := Cache.exists_directory_of_record hc h hpass hplace
    obtain ⟨d', hd', hlocation'⟩ := Cache.exists_directory_of_record hc h' hpass' hplace'
    obtain rfl := hd.unique hd'
    refine ⟨⟨d, hd, hlocation, hlocation'⟩, ?_⟩
    rw [hlocation, hlocation', List.append_cancel_left_eq, List.singleton_inj]
    exact Cache.entryName_eq_iff (Cache.isByteText_of_recordPath h hpass)
      (Cache.isByteText_of_recordPath h' hpass')
  · intro language w v d h hw hv hsame hlink
    obtain ⟨hexists, hread⟩ := Cache.looks_at_entry hc h hw hv hsame hlink
    exact ⟨hexists, hread, resolve_eq_read⟩
  · intro language w w' temporary file h hhome hcreate
    exact Cache.exists_directory_of_temporary hc h hhome hcreate
  · intro w about hw habout
    have hcovers := covers_steps hc habout
    exact ⟨fun calls hcalls => (hcovers.after hw hcalls).2.confines,
      fun args hargs => (hcovers.getIndices hw hargs).2.confines⟩

/-- Files with a record, and with a file of such a name outside the directory of the records. -/
def sampleNeighbours : Node :=
  .directory [("c", .directory [("js_index.json", .file [])]), ("x_index.json", .file [])]

/-- Among the example files, calls for `py` and `js` leave the file outside alone. -/
theorem confined_sample :
    ((sample "/c" "py").after (World.still sampleNeighbours sampleNews)
      [.write "py" sampleIndex, .resolve "js", .clear ["js", "py"]]).files.view ["x_index.json"] =
        some (.file []) := by
  obtain ⟨-, -, -, heffects⟩ := confined (sample "/c" "py") (Path.isProper_ofText "/c")
  obtain ⟨hcalls, -⟩ := heffects (World.still sampleNeighbours sampleNews)
    (fun language => language = "py" ∨ language = "js")
    (World.sound_still sampleNeighbours sampleNews) (by rintro language (rfl | rfl) <;> decide)
  have hconfines := hcalls [.write "py" sampleIndex, .resolve "js", .clear ["js", "py"]]
    (by simp [Call.IsAbout])
  by_contra hchanged
  rcases hconfines.2 ["x_index.json"] hchanged with hlog | ⟨hnone, -⟩ | ⟨v, -, -, hconcerns⟩
  · cases hlog
  · cases hnone
  · obtain ⟨language, d, hlanguage, -, hplace⟩ := hconcerns
    have hname : Cache.entryName language = "x_index.json" := by
      have hlast := congrArg List.getLast? hplace
      rw [List.getLast?_concat] at hlast
      exact (Option.some.inj hlast).symm
    rcases hlanguage with rfl | rfl <;> exact absurd hname (by decide)

/-- Languages with slashes share records, and their records lie outside the directory of the records:
deleting one of them deletes a file there.  And languages without slashes share a record if they
consist of the same bytes. -/
theorem records_not_confined :
    sampleCache.recordPath "./py" = sampleCache.recordPath "py" ∧
      (∃ w : World, w.files.LiesAt sampleCache.directory.text ["cache"] ∧
        w.files.view ["x_index.json"] = some (.file []) ∧
        ((sampleCache.clear ["../x"]).exec w).1 = .ok 1 ∧
        ((sampleCache.clear ["../x"]).exec w).2.files.view ["x_index.json"] = none) ∧
      Cache.entryName "é" = Cache.entryName [CodePoint.ofNat 0xDCC3, CodePoint.ofNat 0xDCA9] := by
  refine ⟨by decide, ?_, by decide⟩
  refine ⟨World.still (.directory [("cache", .directory []), ("x_index.json", .file [])])
    fun _ => .interruption, ⟨[], rfl⟩, rfl, by decide +kernel, by decide +kernel⟩

end Resolver

end EditorDocs
