import EditorDocs.Proofs.FileSystem.Ways
import EditorDocs.Proofs.Index.Resolve

/-!
# The authority of a record

A record that is there decides what resolving gives, and nothing that is asked of the resolver
changes it.  The invariant is `World.Keeps`: at a location that is not the log's stands an entry, and
the path of the record leads to it.  Each call preserves it (`Resolver.Call.Spares.keeps`), and so
does a run of calls (`Resolver.keeps_after`).

There is one exception.  If the path of the record is rooted and the directory of the records is
missing then two languages may share the record though it seems that one of them has none.  Once the
directory has been made, the second language's index is written over the record.
`Resolver.Call.Spares` excludes exactly this.
-/

namespace EditorDocs

open FileSystem

namespace World

/-- Reports leave files that are alike. -/
lemma Reported.alike {w w' : World} (h : Reported w w') : w.files.Alike w'.files := by
  refine ⟨h.home, h.frame, fun loc => ?_⟩
  obtain ⟨more, hmore⟩ := h.view
  rw [hmore, grow_eq_none_iff]

/-- If the files look like those of a state then there were only reports since that was there. -/
lemma Becomes.reported {w w' : World} {s : State} (h : Becomes w w' s.view w.logFile?)
    (hhome : s.home = w.files.home) : Reported (w.withFiles s) w' :=
  ⟨h.home.trans hhome.symm, h.view, h.log, h.remote, h.host⟩

/-! ## The invariant -/

/-- At a location that is not the log's stands what is expected, and the path leads to it.  All this is on
a machine that stays the same. -/
structure Keeps (w : World) (host : Host) (path : Text) (loc : Location) (face : Face) : Prop where
  /-- The world keeps to the system. -/
  sound : w.Sound
  /-- The log is elsewhere. -/
  log : w.logFile? ≠ some loc
  /-- This stands there. -/
  view : w.files.view loc = some face
  /-- The path leads there. -/
  leads : w.files.LeadsTo path loc
  /-- The machine is this one. -/
  host : w.host = host

namespace Keeps

variable {host : Host} {w w' : World} {s : State} {path : Text} {loc : Location} {face : Face}

/-- Reports preserve the invariant. -/
lemma reported (h : w.Keeps host path loc face) (hr : Reported w w') : w'.Keeps host path loc face := by
  have hview : w'.files.view loc = some face := (hr.view_of_ne h.log).trans h.view
  refine ⟨h.sound.reported hr, ?_, hview, ?_, hr.host.trans h.host⟩
  · rw [hr.log]
    exact h.log
  · exact h.leads.of_frame_eq hr.frame hr.home (by simp [hview])

/-- Directories that are made preserve the invariant. -/
lemma makesWay (h : w.Keeps host path loc face) {p : Path} (hway : Files.MakesWay p w.files s) :
    (w.withFiles s).Keeps host path loc face := by
  refine ⟨⟨?_, ?_⟩, h.log, hway.view_of_some h.view, ?_, h.host⟩
  · intro log hlog
    obtain ⟨content, hcontent⟩ := h.sound.log log hlog
    exact ⟨content, hway.view_of_some hcontent⟩
  · intro name hname
    rw [files_withFiles, hway.home] at hname
    exact h.sound.home name hname
  · obtain ⟨n, hn⟩ := h.leads
    obtain ⟨n', -, hn'⟩ :=
      State.locate_of_more hway.home (fun _ _ hface => hway.view_of_some hface) hn
    exact ⟨n', hn'⟩

/-- A file that is put elsewhere, and not in the place of a directory or link, preserves the
invariant. -/
lemma becomes (h : (w.withFiles s).Keeps host path loc face) (hhome : s.home = w.files.home)
    {dest : Location} {content : Bytes} {log : Option Location} (hne : dest ≠ loc)
    (hframe : s.frame dest = none) (hlog : log = w.logFile? ∨ log = none)
    (hb : Becomes w w' (Function.update s.view dest (some (.file content))) log) :
    w'.Keeps host path loc face := by
  have hlogged : ∀ loc', log = some loc' → w.logFile? = some loc' := by
    intro loc' hloc
    rcases hlog with rfl | rfl
    · exact hloc
    · cases hloc
  have hframe' : w'.files.frame = s.frame := by
    rw [hb.frame_update, ← hframe, Function.update_eq_self]
  have hview : w'.files.view loc = some face := by
    rw [hb.view_of_ne fun hl => h.log (hlogged loc hl), Function.update_of_ne hne.symm]
    exact h.view
  refine ⟨⟨?_, ?_⟩, ?_, hview, ?_, hb.host.trans h.host⟩
  · intro loc' hloc
    rw [hb.log] at hloc
    obtain ⟨old, hold⟩ := h.sound.log loc' (hlogged loc' hloc)
    obtain ⟨more, hmore⟩ := hb.view
    have hfile : ∃ new, Function.update s.view dest (some (.file content)) loc' =
        some (.file new) := by
      by_cases hloc' : loc' = dest
      · subst hloc'
        exact ⟨content, Function.update_self _ _ _⟩
      · exact ⟨old, by rw [Function.update_of_ne hloc']; exact hold⟩
    obtain ⟨new, hnew⟩ := hfile
    exact ⟨new ++ more, by simp [hmore, grow, hloc, hnew, Face.grown]⟩
  · intro name hname
    rw [hb.home, ← hhome] at hname
    exact h.sound.home name hname
  · intro hl
    rw [hb.log] at hl
    exact h.log (hlogged loc hl)
  · exact h.leads.of_frame_eq hframe' (hb.home.trans hhome.symm) (by simp [hview])

/-- Deleting a file elsewhere preserves the invariant. -/
lemma forget (h : w.Keeps host path loc face) {gone : Location} (hhome : s.home = w.files.home)
    (hview : s.view = Function.update w.files.view gone none) (hne : gone ≠ loc)
    (hframe : w.files.frame gone = none) :
    ((w.withFiles s).forget gone).Keeps host path loc face := by
  have hlogged : ∀ loc', ((w.withFiles s).forget gone).logFile? = some loc' →
      w.logFile? = some loc' ∧ loc' ≠ gone := by
    intro loc' hloc
    rw [logFile?_forget] at hloc
    split at hloc
    · cases hloc
    · rename_i hother
      refine ⟨hloc, ?_⟩
      rintro rfl
      exact hother hloc
  have hframe' : s.frame = w.files.frame :=
    State.frame_eq_of_view_update hview (by rw [hframe]; rfl)
  have hface : s.view loc = some face := by
    rw [hview, Function.update_of_ne hne.symm]
    exact h.view
  refine ⟨⟨?_, ?_⟩, fun hl => h.log (hlogged loc hl).1, hface, ?_, h.host⟩
  · intro loc' hloc
    obtain ⟨hlog, hother⟩ := hlogged loc' hloc
    obtain ⟨content, hcontent⟩ := h.sound.log loc' hlog
    refine ⟨content, ?_⟩
    rw [files_forget, files_withFiles, hview, Function.update_of_ne hother]
    exact hcontent
  · intro name hname
    rw [files_forget, files_withFiles, hhome] at hname
    exact h.sound.home name hname
  · exact h.leads.of_frame_eq hframe' hhome (by simp [hface])

end Keeps

end World

namespace Cache

/-! ## Records that are found -/

/-- A record to which its path leads is there, unless it is a link. -/
lemma exists_of_leads {c : Cache} {language : Text} {w : World} {loc : Location} {face : Face}
    (hpass : Files.IsPassable (c.recordPath language).text)
    (hleads : w.files.LeadsTo (c.recordPath language).text loc)
    (hview : w.files.view loc = some face) (hlink : ∀ target, face ≠ .link target) :
    ((c.exists? language).exec w).1 = .ok true := by
  obtain ⟨n, hn⟩ := hleads
  have hface : n.face = face := by
    rw [State.view_eq_of_find? (State.find?_of_object hn)] at hview
    exact Option.some.inj hview
  have hnode : ∀ target, n ≠ .link target := by
    rintro target rfl
    exact hlink target hface.symm
  have hlookup := State.lookup_eq_ok_iff.mpr ⟨loc, State.locate_lookup_of_entry hn hnode⟩
  rw [exists?, Files.exec_exists?, Files.refusal?_eq_none_iff.mpr hpass, hlookup]

/-- What is read from a record depends on what stands where its path leads. -/
lemma readFrom_eq_of_leads {c : Cache} {r : Json.Reader} {language : Text} {s t : State} {loc : Location}
    {face : Face} (hs : s.LeadsTo (c.recordPath language).text loc)
    (ht : t.LeadsTo (c.recordPath language).text loc) (hsview : s.view loc = some face)
    (htview : t.view loc = some face) (hlink : ∀ target, face ≠ .link target) :
    c.readFrom r language t = c.readFrom r language s := by
  have hread : ∀ {u : State}, u.LeadsTo (c.recordPath language).text loc →
      u.view loc = some face → ∃ n, n.face = face ∧
        u.locate .lookup (c.recordPath language).text = .ok (.object loc n) := by
    rintro u ⟨n, hn⟩ hview
    rw [State.view_eq_of_find? (State.find?_of_object hn), Option.some.injEq] at hview
    refine ⟨n, hview, State.locate_lookup_of_entry hn ?_⟩
    rintro target rfl
    exact hlink target hview.symm
  obtain ⟨n, hn, hsn⟩ := hread hs hsview
  obtain ⟨n', hn', htn⟩ := hread ht htview
  rw [readFrom, readFrom, State.read_of_locate hsn, State.read_of_locate htn, hn, hn']

/-- The record of a language that is not rooted lies in the directory of the records, which is
therefore there. -/
lemma isDirectory_of_leads {c : Cache} {language : Text} {s : State} {loc : Location} {face : Face}
    (hdirectory : c.directory.IsProper) (hlanguage : isRooted language = false)
    (hpass : Files.IsPassable (c.recordPath language).text)
    (hleads : s.LeadsTo (c.recordPath language).text loc) (hview : s.view loc = some face)
    (hlink : ∀ target, face ≠ .link target) : s.isDirectory c.directory.text = true := by
  obtain ⟨n, hn⟩ := hleads
  have hnode : ∀ target, n ≠ .link target := by
    rintro target rfl
    rw [State.view_eq_of_find? (State.find?_of_object hn)] at hview
    exact hlink target (Option.some.inj hview).symm
  have hroot : (Path.ofText (recordName language)).root = .relative := by
    cases language with
    | nil => decide
    | cons d t =>
      have hd : d ≠ ('/' : CodePoint) := by
        rintro rfl
        cases hlanguage
      simp [Path.ofText, Path.rootOf, recordName, hd]
  have hnames : (Path.ofText (recordName language)).names ≠ [] := by
    obtain ⟨names, x, hx⟩ := Path.exists_names_ofText isEnding_record language
    rw [recordName, hx]
    simp
  exact State.isDirectory_of_append hdirectory (Path.isProper_ofText _) hroot hnames hpass.isByteText
    (State.locate_lookup_of_entry hn hnode)

/-! ## Records that are reached once their directory has been made -/

/-- The directory of the records can be made, and then the path of a record leads there. -/
def Reaches (c : Cache) (w : World) (language : Text) (loc : Location) : Prop :=
  ((Files.makePath c.directory).exec w).1 = .ok () ∧
    ((Files.makePath c.directory).exec w).2.files.LeadsTo (c.recordPath language).text loc

/-- The directory of the records can be made, and then the path of a record leads to a link. -/
def ReachesLink (c : Cache) (w : World) (language : Text) : Prop :=
  ((Files.makePath c.directory).exec w).1 = .ok () ∧
    ((Files.makePath c.directory).exec w).2.files.LeadsToLink (c.recordPath language).text

instance (c : Cache) (w : World) (language : Text) (loc : Location) :
    Decidable (c.Reaches w language loc) :=
  inferInstanceAs (Decidable (_ ∧ _))

instance (c : Cache) (w : World) (language : Text) : Decidable (c.ReachesLink w language) :=
  inferInstanceAs (Decidable (_ ∧ _))

/-- In files that are alike a path leads to the same place once the directory has been made. -/
lemma Reaches.of_alike {c : Cache} {w v : World} {language : Text} {loc : Location}
    (halike : w.files.Alike v.files) (h : c.Reaches v language loc) : c.Reaches w language loc := by
  obtain ⟨x, s, t, hw, hv, hst⟩ := Files.exec_makePath_alike c.directory halike
  rw [Reaches, hv] at h
  rw [Reaches, hw]
  obtain ⟨hmade, n, hn⟩ := h
  exact ⟨hmade, hst.symm.object hn⟩

/-- In files that are alike a path leads to a link if it does so in the others. -/
lemma ReachesLink.of_alike {c : Cache} {w v : World} {language : Text}
    (halike : w.files.Alike v.files) (h : c.ReachesLink v language) : c.ReachesLink w language := by
  obtain ⟨x, s, t, hw, hv, hst⟩ := Files.exec_makePath_alike c.directory halike
  rw [ReachesLink, hv] at h
  rw [ReachesLink, hw]
  exact ⟨h.1, h.2.of_frame_eq hst.frame.symm hst.home.symm⟩

/-- If the directory of the records is there, a path leads already where it will. -/
lemma leads_of_reaches {c : Cache} {w : World} {language : Text} {loc : Location}
    (hproper : c.directory.IsProper) (hpass : Files.IsPassable c.directory.text)
    (hdirectory : w.files.isDirectory c.directory.text = true) (h : c.Reaches w language loc) :
    w.files.LeadsTo (c.recordPath language).text loc := by
  rw [Reaches, Files.exec_makePath_of_isDirectory hproper hpass hdirectory] at h
  exact h.2

/-- Writing a record whose path leads elsewhere, and to no link, preserves the invariant. -/
lemma WriteEffect.keeps {c : Cache} {language : Text} {content : Bytes} {w w' : World}
    {x : Except Failure Path} {host : Host} {path : Text} {loc : Location} {face : Face}
    (heffect : c.WriteEffect language content w x w') (h : w.Keeps host path loc face)
    (hlink : ¬ c.ReachesLink w language) (hother : ¬ c.Reaches w language loc) :
    w'.Keeps host path loc face := by
  cases heffect with
  | failed made way becomes => exact (h.makesWay way).reported (becomes.reported way.home)
  | recorded made way takes becomes =>
    have hkeeps := h.makesWay way
    rw [Reaches, made] at hother
    rw [ReachesLink, made] at hlink
    have hpresent := hkeeps.view
    rw [World.files_withFiles] at hpresent
    refine hkeeps.becomes way.home (takes.ne (by simp [hpresent]) fun hl => hother ⟨rfl, hl⟩)
      (takes.frame_eq_none fun hl => hlink ⟨rfl, hl⟩) ?_ becomes
    split
    · exact Or.inr rfl
    · exact Or.inl rfl

end Cache

namespace Resolver

/-! ## Calls -/

/-- What can be asked of a resolver and of its records; or the remote source changes. -/
inductive Call where
  /-- The index of a language is resolved. -/
  | resolve (language : Text)
  /-- A document is fetched. -/
  | fetchDocument (path : Text)
  /-- It is asked whether there is a record. -/
  | exists? (language : Text)
  /-- A record is read. -/
  | read (language : Text)
  /-- A record is written. -/
  | write (language : Text) (index : Index)
  /-- Records are deleted. -/
  | clear (languages : List Text)
  /-- From now on the remote source answers differently. -/
  | answers (remote : Text → Reply)

/-- The world after a call, whether it fails or not. -/
def Call.run (r : Resolver) (w : World) : Call → World
  | .resolve language => ((r.resolve language).exec w).2
  | .fetchDocument path => ((r.fetchDocument path).exec w).2
  | .exists? language => ((r.cache.exists? language).exec w).2
  | .read language => ((r.cache.read language).exec w).2
  | .write language index => ((r.cache.write language index).exec w).2
  | .clear languages => ((r.cache.clear languages).exec w).2
  | .answers remote => { w with remote := remote }

/-- The world after a run of calls. -/
def after (r : Resolver) (w : World) (calls : List Call) : World :=
  calls.foldl (fun w call => call.run r w) w

/-- The call does not touch the record of `language`, which is at `loc`.  Records are written and
deleted elsewhere, and in the place of no link.  Resolving is free to write, but for one case: the
path of the record is rooted, the directory of the records is missing, and once it has been made the
path of a language without a record leads to this record. -/
def Call.Spares (r : Resolver) (language : Text) (loc : Location) (w : World) : Call → Prop
  | .resolve other => other.IsScalar ∧ (∀ c ∈ other, c.val ≠ 0) ∧ ¬ r.cache.ReachesLink w other ∧
      ¬ (isRooted language = true ∧ w.files.isDirectory r.cache.directory.text = false ∧
        ((r.cache.exists? other).exec w).1 = .ok false ∧ r.cache.Reaches w other loc)
  | .write other _ => other.IsScalar ∧ (∀ c ∈ other, c.val ≠ 0) ∧
      ¬ r.cache.ReachesLink w other ∧ ¬ r.cache.Reaches w other loc
  | .clear others => ∀ other ∈ others, ¬ w.files.LeadsToLink (r.cache.recordPath other).text ∧
      ¬ w.files.LeadsTo (r.cache.recordPath other).text loc
  | _ => True

/-- No call of a run touches the record of `language`, which is at `loc`. -/
def Spares (r : Resolver) (language : Text) (loc : Location) : World → List Call → Prop
  | _, [] => True
  | w, call :: rest => call.Spares r language loc w ∧ Spares r language loc (call.run r w) rest

/-! ## One call -/

variable {r : Resolver} {host : Host} {language other path : Text} {loc : Location} {face : Face}
  {w : World}

/-- A record whose path no file can have is not read. -/
lemma exec_read_refused {c : Cache} {f : Failure}
    (h : Files.refusal? (c.recordPath language).text = some f) (w : World) :
    (c.read language).exec w = (.error f, w) := by
  have hbytes : (Cache.readBytes (c.recordPath language).text).exec w = (.error f, w) := by
    unfold Cache.readBytes
    rw [Action.exec_tryCatch, Files.read, Files.exec_look, h]
    cases f with
    | system e => exact absurd rfl (Files.ne_system_of_refusal? h e)
    | _ => rfl
  unfold Cache.read
  exact (Action.exec_bind_ok (Action.exec_reader w)).trans (Action.exec_bind_error hbytes)

/-- Reading a record changes no file but the log. -/
lemma reported_read (c : Cache) (language : Text) (w : World) :
    World.Reported w ((c.read language).exec w).2 := by
  cases hrefused : Files.refusal? (c.recordPath language).text with
  | none =>
    obtain ⟨w', hread, hreported, -⟩ := Cache.exec_read (Files.refusal?_eq_none_iff.mp hrefused) w
    rw [hread]
    exact hreported
  | some f =>
    rw [exec_read_refused hrefused]
    exact .refl w

/-- Writing spares a record to which it does not lead. -/
lemma keeps_write (h : w.Keeps host path loc face) (index : Index) (hscalar : other.IsScalar)
    (hnul : ∀ c ∈ other, c.val ≠ 0) (hlink : ¬ r.cache.ReachesLink w other)
    (hother : ¬ r.cache.Reaches w other loc) :
    ((r.cache.write other index).exec w).2.Keeps host path loc face := by
  have hpass := Files.isPassable_of_isScalar hscalar hnul
  cases hrefused : Files.refusal? r.cache.directory.text with
  | some f =>
    rw [Cache.exec_write_of_refusal hrefused]
    exact h
  | none =>
    have hdirectory := Files.refusal?_eq_none_iff.mp hrefused
    by_cases hindex : index.IsScalar
    · obtain ⟨x, w', hwrite, heffect⟩ := Cache.exec_write h.sound hdirectory hpass hindex
      rw [hwrite]
      exact heffect.keeps h hlink hother
    · obtain ⟨f, w', -, s, hwrite, -, hway, hbecomes⟩ :=
        Cache.exec_write_unwritable h.sound hdirectory hpass hindex
      rw [hwrite]
      exact (h.makesWay hway).reported (hbecomes.reported hway.home)

/-- What holds of a file that is deleted elsewhere: nothing else is gone. -/
structure Outlasts (host : Host) (path : Text) (loc : Location) (face : Face) (w w' : World) :
    Prop where
  /-- What is expected stands. -/
  keeps : w'.Keeps host path loc face
  /-- The working directory is the same. -/
  home : w'.files.home = w.files.home
  /-- The directories and links are the same. -/
  frame : w'.files.frame = w.files.frame
  /-- Nothing has come. -/
  absent : ∀ loc', w.files.view loc' = none → w'.files.view loc' = none

/-- Deleting a file spares an entry to which its path does not lead. -/
lemma outlasts_unlink {file : Text} (h : w.Keeps host path loc face) (hlink : ¬ w.files.LeadsToLink file)
    (hother : ¬ w.files.LeadsTo file loc) :
    ∃ x w', (Files.unlink file).exec w = (x, w') ∧ Outlasts host path loc face w w' := by
  have hrefl : Outlasts host path loc face w w := ⟨h, rfl, rfl, fun _ hview => hview⟩
  unfold Files.unlink
  rw [Action.exec_bind, Files.exec_change]
  cases Files.refusal? file with
  | some f => exact ⟨_, w, rfl, hrefl⟩
  | none =>
    cases hunlink : w.files.unlink file with
    | error e => exact ⟨_, w, rfl, hrefl⟩
    | ok u =>
      obtain ⟨gone, s⟩ := u
      obtain ⟨hhome, hview, n, hn, hface⟩ := State.view_unlink hunlink
      have hframe : w.files.frame gone = none := by
        rw [State.frame_eq, State.find?_of_object hn]
        cases n with
        | file content => rfl
        | link target => exact absurd ⟨gone, target, hn⟩ hlink
        | directory es => exact absurd rfl hface
      have hne : gone ≠ loc := by
        rintro rfl
        exact hother ⟨n, hn⟩
      refine ⟨.ok (), (w.withFiles s).forget gone, rfl, h.forget hhome hview hne hframe, hhome,
        State.frame_eq_of_view_update hview (by rw [hframe]; rfl), ?_⟩
      intro loc' habsent
      rw [World.files_forget, World.files_withFiles, hview]
      by_cases hloc : loc' = gone
      · rw [hloc, Function.update_self]
      · rwa [Function.update_of_ne hloc]

/-- Deleting a record spares one to which its path does not lead. -/
lemma outlasts_clearOne (h : w.Keeps host path loc face)
    (hlink : ¬ w.files.LeadsToLink (r.cache.recordPath other).text)
    (hother : ¬ w.files.LeadsTo (r.cache.recordPath other).text loc) :
    ∃ x w', (r.cache.clearOne other).exec w = (x, w') ∧ Outlasts host path loc face w w' := by
  obtain ⟨x, w', hunlink, houtlasts⟩ := outlasts_unlink h hlink hother
  unfold Cache.clearOne
  simp only
  rw [Action.exec_bind, Action.exec_tryCatch, Action.exec_bind, hunlink]
  cases x with
  | error f =>
    cases f with
    | system e =>
      obtain ⟨errno, first, second⟩ := e
      cases errno <;> exact ⟨_, w', rfl, houtlasts⟩
    | _ => exact ⟨_, w', rfl, houtlasts⟩
  | ok u =>
    have hr := World.reported_report w' ⟨.info, "index.cache_cleared",
      Context.bind [("component", .string "index_cache")]
        [("path", .string (r.cache.recordPath other).text)], none⟩
    exact ⟨_, _, rfl, houtlasts.keeps.reported hr, hr.home.trans houtlasts.home,
      hr.frame.trans houtlasts.frame,
      fun loc' hview => (hr.alike.absent loc').mpr (houtlasts.absent loc' hview)⟩

/-- Deleting records spares one to which none of their paths leads. -/
lemma keeps_clear (h : w.Keeps host path loc face) {others : List Text}
    (hothers : ∀ other ∈ others, ¬ w.files.LeadsToLink (r.cache.recordPath other).text ∧
      ¬ w.files.LeadsTo (r.cache.recordPath other).text loc) :
    ((r.cache.clear others).exec w).2.Keeps host path loc face := by
  induction others generalizing w with
  | nil => exact h
  | cons other rest ih =>
    obtain ⟨hlink, hother⟩ := hothers other List.mem_cons_self
    obtain ⟨x, w', hclear, houtlasts⟩ := outlasts_clearOne h hlink hother
    -- what a path leads to afterwards it led to before
    have hrest : ∀ other ∈ rest, ¬ w'.files.LeadsToLink (r.cache.recordPath other).text ∧
        ¬ w'.files.LeadsTo (r.cache.recordPath other).text loc := by
      intro other hmem
      obtain ⟨hlink', hother'⟩ := hothers other (List.mem_cons_of_mem _ hmem)
      refine ⟨fun hl => hlink' (hl.of_frame_eq houtlasts.frame.symm houtlasts.home.symm), ?_⟩
      intro hl
      refine hother' (hl.of_frame_eq houtlasts.frame.symm houtlasts.home.symm ?_)
      rw [h.view]
      simp
    have hkeeps := ih houtlasts.keeps hrest
    unfold Cache.clear
    rw [Action.exec_bind, hclear]
    cases x with
    | error f => exact houtlasts.keeps
    | ok deleted =>
      simp only
      rw [Action.exec_bind]
      split
      · rename_i hexec
        rw [hexec] at hkeeps
        exact hkeeps
      · rename_i hexec
        rw [hexec] at hkeeps
        exact hkeeps

/-- Resolving spares a record, whatever language is resolved, unless the record is rooted, the
directory of the records is missing, and the path of a language without a record is to lead to it. -/
lemma keeps_resolve (h : w.Keeps host (r.cache.recordPath language).text loc face)
    (hproper : r.cache.directory.IsProper)
    (hpass : Files.IsPassable (r.cache.recordPath language).text)
    (hface : ∀ target, face ≠ .link target) (hscalar : other.IsScalar)
    (hnul : ∀ c ∈ other, c.val ≠ 0) (hlink : ¬ r.cache.ReachesLink w other)
    (hother : ¬ (isRooted language = true ∧ w.files.isDirectory r.cache.directory.text = false ∧
      ((r.cache.exists? other).exec w).1 = .ok false ∧ r.cache.Reaches w other loc)) :
    ((r.resolve other).exec w).2.Keeps host (r.cache.recordPath language).text loc face := by
  have hlanguage := Files.isPassable_of_isScalar hscalar hnul
  by_cases hexists : ((r.cache.exists? other).exec w).1 = .ok false
  · rcases r.fetcher.sources.indexUrl_cases other with ⟨-, url, hurl⟩ | ⟨-, hnone⟩
    case inr =>
      obtain ⟨w', hresolve, hreported, -⟩ := exec_resolve_unsupported hexists hnone
      rw [hresolve]
      exact h.reported hreported
    case inl =>
      obtain ⟨x, w', hresolve, -, herror, hok, -⟩ :=
        exec_resolve_remote h.sound hlanguage hexists hurl
      rw [hresolve]
      cases x with
      | error f => exact h.reported (herror f rfl)
      | ok index =>
        obtain ⟨-, v, y, v', hv, -, heffect, hv'⟩ := hok index rfl
        refine (heffect.keeps (h.reported hv) ?_ ?_).reported hv'
        · exact fun hl => hlink (hl.of_alike hv.alike)
        · intro hreached
          have hreaches : r.cache.Reaches w other loc := hreached.of_alike hv.alike
          have hdirectory : Files.IsPassable r.cache.directory.text := by
            rw [← Files.refusal?_eq_none_iff]
            cases hrefused : Files.refusal? r.cache.directory.text with
            | none => rfl
            | some f =>
              rw [Cache.Reaches, Files.exec_makePath_refused hrefused] at hreaches
              cases hreaches.1
          -- a path that leads to the record already is one that is found
          have hmissing : w.files.isDirectory r.cache.directory.text = false := by
            by_contra hthere
            rw [Bool.not_eq_false] at hthere
            have hleads := Cache.leads_of_reaches hproper hdirectory hthere hreaches
            rw [Cache.exists_of_leads (Cache.isPassable_recordPath hdirectory hlanguage) hleads
              h.view hface] at hexists
            cases hexists
          have hrooted : isRooted language = true := by
            by_contra hrelative
            rw [Bool.not_eq_true] at hrelative
            rw [Cache.isDirectory_of_leads hproper hrelative hpass h.leads h.view hface] at hmissing
            cases hmissing
          exact hother ⟨hrooted, hmissing, hexists, hreaches⟩
  · obtain ⟨x, w', hresolve, hreported, -, -⟩ := exec_resolve_cached hexists
    rw [hresolve]
    exact h.reported hreported

/-- Each call that spares a record preserves the invariant. -/
theorem Call.Spares.keeps {call : Call} (hspares : call.Spares r language loc w)
    (hproper : r.cache.directory.IsProper)
    (hpass : Files.IsPassable (r.cache.recordPath language).text)
    (hface : ∀ target, face ≠ .link target)
    (h : w.Keeps host (r.cache.recordPath language).text loc face) :
    (call.run r w).Keeps host (r.cache.recordPath language).text loc face := by
  cases call with
  | resolve other =>
    obtain ⟨hscalar, hnul, hlink, hother⟩ := hspares
    exact keeps_resolve h hproper hpass hface hscalar hnul hlink hother
  | fetchDocument path =>
    obtain ⟨x, w', hfetch, hreported⟩ := Fetcher.exec_fetchDocument r.fetcher path w
    have hrun : Call.run r w (.fetchDocument path) = w' := congrArg Prod.snd hfetch
    rw [hrun]
    exact h.reported hreported
  | exists? other =>
    have hrun : Call.run r w (.exists? other) = w := congrArg Prod.snd (exec_exists? r.cache other w)
    rw [hrun]
    exact h
  | read other => exact h.reported (reported_read r.cache other w)
  | write other index =>
    obtain ⟨hscalar, hnul, hlink, hother⟩ := hspares
    exact keeps_write h index hscalar hnul hlink hother
  | clear others => exact keeps_clear h hspares
  | answers remote => exact ⟨⟨h.sound.log, h.sound.home⟩, h.log, h.view, h.leads, h.host⟩

/-- A run of calls that spares a record preserves the invariant. -/
theorem keeps_after {calls : List Call} (hspares : r.Spares language loc w calls)
    (hproper : r.cache.directory.IsProper)
    (hpass : Files.IsPassable (r.cache.recordPath language).text)
    (hface : ∀ target, face ≠ .link target)
    (h : w.Keeps host (r.cache.recordPath language).text loc face) :
    (r.after w calls).Keeps host (r.cache.recordPath language).text loc face := by
  induction calls generalizing w with
  | nil => exact h
  | cons call rest ih =>
    obtain ⟨hcall, hrest⟩ := hspares
    exact ih hrest (hcall.keeps hproper hpass hface h)

/-! ## What resolving gives -/

/-- While the invariant holds, resolving the language reads the record and asks for nothing. -/
lemma exec_resolve_of_keeps (h : w.Keeps host (r.cache.recordPath language).text loc face)
    (hpass : Files.IsPassable (r.cache.recordPath language).text)
    (hface : ∀ target, face ≠ .link target) :
    ((r.resolve language).exec w).1 = r.cache.readFrom host.reader language w.files ∧
      ((r.resolve language).exec w).2.requests = w.requests := by
  have hexists := Cache.exists_of_leads hpass h.leads h.view hface
  obtain ⟨w', hresolve, -, hrequests⟩ := exec_resolve_of_exists hexists
  rw [hresolve, h.host]
  exact ⟨rfl, hrequests⟩

/-- An index that resolving gives has no surrogates. -/
lemma isScalar_of_resolve {w' : World} {index : Index} (hw : w.Sound)
    (hlanguage : Files.IsPassable language)
    (h : (r.resolve language).exec w = (.ok index, w')) : index.IsScalar := by
  by_cases hexists : ((r.cache.exists? language).exec w).1 = .ok false
  · rcases r.fetcher.sources.indexUrl_cases language with ⟨-, url, hurl⟩ | ⟨-, hnone⟩
    case inr =>
      obtain ⟨w'', hresolve, -, -⟩ := exec_resolve_unsupported hexists hnone
      rw [h] at hresolve
      cases hresolve
    case inl =>
      obtain ⟨x, w'', hresolve, -, -, hok, -⟩ := exec_resolve_remote hw hlanguage hexists hurl
      rw [h] at hresolve
      cases hresolve
      obtain ⟨⟨status, phrase, content, -, -, hdecode⟩, -⟩ := hok index rfl
      exact Index.isScalar_of_decode hdecode
  · obtain ⟨x, w'', hresolve, -, -, hread⟩ := exec_resolve_cached hexists
    rw [h] at hresolve
    cases hresolve
    rcases hread with ⟨bytes, -, hreceive⟩ | ⟨reason, hfailed⟩
    · unfold Index.receive at hreceive
      split at hreceive
      · rename_i hdecode
        cases hreceive
        exact Index.isScalar_of_decode hdecode
      · cases hreceive
    · cases hfailed

/-- After a record was written, the language is resolved to what was written if the path of the record
leads anywhere. -/
lemma readFrom_of_write {reader : Json.Reader} {w' : World} {index : Index} {path : Path} {n : Node}
    (hw : w.Sound) (hindex : index.IsScalar) (h : (r.cache.write language index).exec w = (.ok path, w'))
    (hplace : w'.files.locate .entry (r.cache.recordPath language).text = .ok (.object loc n))
    (hlink : ∀ target, n ≠ .link target) :
    r.cache.readFrom reader language w'.files = .ok index := by
  obtain ⟨s, -, hkept, hcut⟩ := Cache.locate_of_write hw hindex h
  have hlookup := State.locate_lookup_of_entry hplace hlink
  by_cases hruns : s.RunsThroughItsLink (r.cache.recordPath language).text
  · rw [hcut hruns] at hlookup
    cases hlookup
  · obtain ⟨loc', hloc⟩ := hkept hruns
    exact Cache.readFrom_of_locate hindex hloc

/-- A record that is written where its path leads stands there. -/
lemma view_of_write {v w' : World} {index : Index} {path : Path} (hv : v.Sound)
    (hindex : index.IsScalar) (h : (r.cache.write other index).exec v = (.ok path, w'))
    (hreaches : r.cache.Reaches v other loc) :
    w'.files.view loc = some (.file (Utf8.encodeAll index.render)) := by
  obtain ⟨hdirectory, hlanguage⟩ := Cache.isPassable_of_write h
  obtain ⟨x, w₁, hwrite, heffect⟩ := Cache.exec_write hv hdirectory hlanguage hindex
  rw [h] at hwrite
  cases hwrite
  cases heffect with
  | recorded made way takes becomes =>
    rw [Cache.Reaches, made] at hreaches
    obtain ⟨p, hp, hdest, -⟩ := takes.leads
    obtain ⟨-, n, hn⟩ := hreaches
    rw [World.files_withFiles, hp, Except.ok.injEq] at hn
    subst hn
    subst hdest
    rw [Place.location] at becomes
    rw [becomes.view_of_ne (by split <;> simp_all), Function.update_self]

/-! ## Runs of calls -/

/-- A record that is there is authoritative.  Whatever run of calls follows that spares it, it stays as
it is, and resolving its language gives the same outcome without a request; this is the index that was
resolved if the record was written then.

The last part says that nothing more can be promised.  When a language without a record is resolved
whose path will lead to this record once the directory has been made, and the index is written, then
it is written over the record. -/
theorem record_authority (r : Resolver) (language : Text) (w : World) (loc : Location) (n : Node)
    (hw : w.Sound) (hproper : r.cache.directory.IsProper)
    (hexists : ((r.cache.exists? language).exec w).1 = .ok true)
    (hplace : w.files.locate .entry (r.cache.recordPath language).text = .ok (.object loc n))
    (hlink : ∀ target, n ≠ .link target) (hlog : w.logFile? ≠ some loc) (calls : List Call)
    (hspares : r.Spares language loc w calls) :
    (r.after w calls).files.view loc = w.files.view loc ∧
      ((r.resolve language).exec (r.after w calls)).1 = ((r.resolve language).exec w).1 ∧
      ((r.resolve language).exec (r.after w calls)).2.requests = (r.after w calls).requests ∧
      (∀ u v index path, u.Sound → (r.resolve language).exec u = (.ok index, w) →
        World.Reported u v → (r.cache.write language index).exec v = (.ok path, w) →
          ((r.resolve language).exec (r.after w calls)).1 = .ok index) ∧
      ∀ other v w' index path, other.IsScalar → (∀ c ∈ other, c.val ≠ 0) →
        r.cache.Reaches (r.after w calls) other loc →
          (r.resolve other).exec (r.after w calls) = (.ok index, w') →
            World.Reported (r.after w calls) v →
              (r.cache.write other index).exec v = (.ok path, w') →
                w'.files.view loc = some (.file (Utf8.encodeAll index.render)) := by
  obtain ⟨hpass, -⟩ := lookup_of_exists hexists
  have hview : w.files.view loc = some n.face := State.view_eq_of_find? (State.find?_of_object hplace)
  have hface : ∀ target, n.face ≠ .link target := by
    intro target htarget
    cases n with
    | link target' => exact hlink target' rfl
    | file content => cases htarget
    | directory es => cases htarget
  have hkeeps : w.Keeps w.host (r.cache.recordPath language).text loc n.face :=
    ⟨hw, hlog, hview, ⟨n, hplace⟩, rfl⟩
  have hafter := keeps_after hspares hproper hpass hface hkeeps
  have hsame : ((r.resolve language).exec (r.after w calls)).1 =
      ((r.resolve language).exec w).1 := by
    rw [(exec_resolve_of_keeps hafter hpass hface).1, (exec_resolve_of_keeps hkeeps hpass hface).1]
    exact Cache.readFrom_eq_of_leads hkeeps.leads hafter.leads hkeeps.view hafter.view hface
  refine ⟨hafter.view.trans hview.symm, hsame, (exec_resolve_of_keeps hafter hpass hface).2, ?_, ?_⟩
  · intro u v index path hu hresolve huv hwrite
    have hindex := isScalar_of_resolve hu (Cache.isPassable_of_write hwrite).2 hresolve
    rw [hsame, (exec_resolve_of_keeps hkeeps hpass hface).1]
    exact readFrom_of_write (hu.reported huv) hindex hwrite hplace hlink
  · intro other v w' index path hscalar hnul hreaches hresolve hv hwrite
    have hindex := isScalar_of_resolve hafter.sound (Files.isPassable_of_isScalar hscalar hnul)
      hresolve
    exact view_of_write (hafter.sound.reported hv) hindex hwrite (hreaches.of_alike hv.alike.symm)

/-- The example files hold one record, which is that of an index without entries. -/
def sampleRecord : Node :=
  .directory [("c", .directory [("py_index.json", .file (Utf8.encodeAll (Index.render ⟨[]⟩)))])]

/-- A remote source that answers everything with an index of one entry. -/
def sampleNews : Text → Reply := fun _ =>
  .response 200 "OK" (Utf8.encodeAll (Index.render ⟨[⟨"n", "p", "t"⟩]⟩))

/-- Resolving another language, writing and deleting its record, and reading it leave the example
record alone. -/
theorem record_authority_sample :
    (((sample "/c" "js").resolve "py").exec ((sample "/c" "js").after
      (World.still sampleRecord sampleNews)
      [.resolve "js", .answers sampleRemote, .write "js" sampleIndex, .clear ["js"],
        .read "js"])).1 = .ok ⟨[]⟩ := by
  have h := record_authority (sample "/c" "js") "py" (World.still sampleRecord sampleNews)
    ["c", "py_index.json"] (.file (Utf8.encodeAll (Index.render ⟨[]⟩)))
    (World.sound_still sampleRecord sampleNews) (Path.isProper_ofText _) (by decide +kernel) rfl
    (by simp) (by simp [World.still, World.logFile?])
    [.resolve "js", .answers sampleRemote, .write "js" sampleIndex, .clear ["js"], .read "js"]
    ⟨⟨by decide, by decide, by decide +kernel, by decide +kernel⟩, trivial,
      ⟨by decide, by decide, by decide +kernel, by decide +kernel⟩,
      fun other hother => by
        rw [List.mem_singleton] at hother
        subst hother
        exact ⟨by decide +kernel, by decide +kernel⟩,
      trivial, trivial⟩
  rw [h.2.1]
  decide +kernel

/-- A record is not authoritative if the directory of the records is missing.  The record of `/c/py` is
there and that of `py` is not, but once `/c/d` has been made they are the same. -/
theorem record_overwritten_sample :
    (((sample "/c/d/.." "py").cache.exists? "/c/py").exec
        (World.still sampleRecord sampleNews)).1 = .ok true ∧
      (((sample "/c/d/.." "py").resolve "/c/py").exec
        (World.still sampleRecord sampleNews)).1 = .ok ⟨[]⟩ ∧
      (((sample "/c/d/.." "py").resolve "/c/py").exec ((sample "/c/d/.." "py").after
        (World.still sampleRecord sampleNews) [.resolve "py"])).1 = .ok ⟨[⟨"n", "p", "t"⟩]⟩ := by
  decide +kernel

end Resolver

end EditorDocs
