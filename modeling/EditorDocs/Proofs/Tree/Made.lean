import EditorDocs.Proofs.Tree.Build
import EditorDocs.Proofs.Tree.Outline
import EditorDocs.Proofs.World.Made
import EditorDocs.Proofs.World.Twin

/-!
# What a build leaves behind

A build makes the directory that is asked for and those on the way to it (`TreeSettings.madeFiles`), and
does nothing else to the files but what reports do to the log.  What it finds depends on the files with
these directories alone (`TreeSettings.found`, `TreeSettings.exec_build_made`): a build does not see what
was reported (`TreeSettings.isBlind_build`), so that a second one finds the same and makes nothing more
(`TreeSettings.build_again`).
-/

namespace EditorDocs

open FileSystem (Node State)
open Files (IsPassable Lacks GoesUp Makes refusal? splitPath finds)

namespace TreeSettings

/-! ## What was reported makes no difference -/

/-- To make a missing directory is blind. -/
lemma isBlind_makeMissing (path : Text) : (makeMissing path).IsBlind := by
  intro w v hwv
  unfold Action.Agrees
  rw [exec_makeMissing, exec_makeMissing, hwv.host]
  exact Files.isBlind_makeDirectories _ path w v hwv

/-- To prepare a build is blind. -/
lemma isBlind_prepare (s : TreeSettings) (path : Text) : (s.prepare path).IsBlind := by
  unfold prepare
  split
  · refine (isBlind_makeMissing path).tryCatch fun e => ?_
    split
    · exact Action.isBlind_report _
    · exact Action.isBlind_throw _
  · exact Action.isBlind_pure ()

/-- The walk finds the same in twins. -/
lemma tree_of_twin (s : TreeSettings) {w v : World} (h : w.Twin v) (path : Text) :
    (s.walk v.host).tree path (rootListing v path) =
      (s.walk w.host).tree path (rootListing w path) := by
  have hlisting : (rootListing v path).map Node.outlineOfEntries =
      (rootListing w path).map Node.outlineOfEntries := by
    have hlist := h.files.list path
    unfold rootListing
    rw [h.host]
    generalize w.files.list path = x at hlist
    generalize v.files.list path = y at hlist
    cases x with
    | error e => cases y <;> simp_all [Except.map, bind, Except.bind]
    | ok es =>
      cases y with
      | error e => simp [Except.map] at hlist
      | ok es' =>
        simp only [bind, Except.bind]
        split
        · rfl
        · exact hlist
  rw [h.host, ← Walk.tree_outline, hlisting, Walk.tree_outline]

/-- To build a tree is blind, whether or not the reports are collected. -/
lemma isBlind_buildCollecting (s : TreeSettings) (path : Text) (collected : Option (List Skipped)) :
    (s.buildCollecting path collected).IsBlind := by
  refine (s.isBlind_prepare path).bind fun _ => ?_
  split
  · exact Action.isBlind_throw _
  · intro w v hwv
    have htree := s.tree_of_twin hwv path
    unfold Action.Agrees
    simp only [Action.exec_bind, Action.exec_get, htree]
    cases (s.walk w.host).tree path (rootListing w path) with
    | error skipped => exact ⟨_, w, v, rfl, rfl, hwv⟩
    | ok built =>
      have hreports := (Action.isBlind_forM (f := reportSkipped) (fun _ => Action.isBlind_report _)
        built.2) w v hwv
      obtain ⟨_, w', v', hw, hv, htwin⟩ := hreports
      simp only [Action.exec_bind, exec_foldlM_collect, hw, hv]
      exact ⟨_, w', v', rfl, rfl, htwin⟩

/-- So it is to build one with all reports. -/
lemma isBlind_build (s : TreeSettings) (path : Text) : (s.build path).IsBlind :=
  (s.isBlind_buildCollecting path (some [])).bind fun _ => Action.isBlind_pure _

/-! ## What is made and what is found -/

/-- The files in which the directory that is asked for has been made, with those on the way to it. -/
def madeFiles (s : TreeSettings) (path : Text) (w : World) : State :=
  if s.createMissing then ((makeMissing path).exec w).2.files else w.files

/-- What a build finds in a world in which it makes no more directories. -/
def found (s : TreeSettings) (path : Text) (w : World) : Except Failure (DirTree × List Skipped) :=
  match refusal? path with
  | some f => .error f
  | none => match (s.walk w.host).tree path (rootListing w path) with
    | .error first => .error (.unlistable first.path first.message)
    | .ok built => .ok built

/-- Directories are made by the settings alone, in so many rounds at most. -/
lemma makes_madeFiles (s : TreeSettings) (path : Text) (w : World) :
    (s.createMissing = false ∧ s.madeFiles path w = w.files) ∨
      s.createMissing = true ∧ ∃ x,
        (makeMissing path).exec w = (x, w.withFiles (s.madeFiles path w)) ∧
          Makes w.host.stack.directories path w.files x (s.madeFiles path w) := by
  cases hcreate : s.createMissing with
  | false => exact Or.inl ⟨rfl, by simp [madeFiles, hcreate]⟩
  | true =>
    obtain ⟨x, m, hexec, hmakes⟩ := Files.exec_makeDirectories_makes w.host.stack.directories path w
    have hmade : s.madeFiles path w = m := by simp [madeFiles, hcreate, exec_makeMissing, hexec]
    rw [← exec_makeMissing] at hexec
    exact Or.inr ⟨rfl, x, by rw [hmade]; exact hexec, by rw [hmade]; exact hmakes⟩

/-- Only directories on the way are added. -/
theorem adds_madeFiles (s : TreeSettings) (path : Text) (w : World) :
    State.Adds path w.files (s.madeFiles path w) := by
  rcases s.makes_madeFiles path w with ⟨-, hsame⟩ | ⟨-, x, -, hmakes⟩
  · rw [hsame]
    exact .refl path _
  · exact hmakes.adds

/-- The log's file is there still. -/
lemma hasLog_madeFiles (s : TreeSettings) (path : Text) {w : World} (hlog : w.HasLog) :
    (w.withFiles (s.madeFiles path w)).HasLog := by
  intro loc hloc
  obtain ⟨content, hcontent⟩ := hlog loc hloc
  exact ⟨content, (s.adds_madeFiles path w).kept loc _ hcontent⟩

/-- To report what was left empty leaves a twin behind. -/
lemma twin_reportSkipped (skipped : List Skipped) {v w : World} (h : v.Twin w) :
    v.Twin ((skipped.forM reportSkipped).exec w).2 := by
  induction skipped generalizing w with
  | nil => exact h
  | cons first rest ih =>
    obtain ⟨r, hfirst⟩ : ∃ r, (reportSkipped first).exec w = (.ok (), w.report r) := ⟨_, rfl⟩
    have hall : ((first :: rest).forM reportSkipped).exec w =
        (rest.forM reportSkipped).exec (w.report r) := Action.exec_bind_ok hfirst
    rw [hall]
    exact ih (h.trans (.of_report h.symm.hasLog r))

/-- Once the directory has been made, a build gives what it finds, and reports at most. -/
lemma exec_build_of_prepare {s : TreeSettings} {path : Text} {w w₁ v : World}
    (hprepare : (s.prepare path).exec w = (.ok (), w₁)) (htwin : v.Twin w₁) :
    ∃ w₂, (s.build path).exec w = (s.found path v, w₂) ∧ v.Twin w₂ ∧
      (w₁.journal = none → w₂.journal = none ∧ w₂.files = w₁.files) := by
  rw [exec_build, hprepare, found]
  cases refusal? path with
  | some f => exact ⟨w₁, rfl, htwin, fun hnone => ⟨hnone, rfl⟩⟩
  | none =>
    simp only [s.tree_of_twin htwin path]
    rcases (s.walk v.host).tree path (rootListing v path) with first | ⟨tree, skipped⟩
    · exact ⟨w₁, rfl, htwin, fun hnone => ⟨hnone, rfl⟩⟩
    · obtain ⟨w₂, hexec, -, hquiet⟩ := exec_reportSkipped skipped w₁
      have htwin₂ := twin_reportSkipped skipped htwin
      rw [hexec] at htwin₂
      exact ⟨w₂, by simp only [hexec], htwin₂, hquiet⟩

/-- To prepare is to make directories.  That a file operation failed is reported, and only that too many
directories are missing or that no file can have the path is a failure. -/
lemma exec_prepare_made (s : TreeSettings) {path : Text} {w : World} (hlog : w.HasLog)
    (hnul : ∀ c ∈ path, c.val ≠ 0) :
    (¬ (s.createMissing = true ∧ Lacks w.files w.host.stack.directories path) ∧ ∃ w₁,
      (s.prepare path).exec w = (.ok (), w₁) ∧ (w.withFiles (s.madeFiles path w)).Twin w₁ ∧
        (w.journal = none → w₁.journal = none ∧ w₁.files = s.madeFiles path w)) ∨
    ∃ f, (s.prepare path).exec w = (.error f, w.withFiles (s.madeFiles path w)) ∧
      (f = .tooDeep ∧ s.createMissing = true ∧ Lacks w.files w.host.stack.directories path ∨
        refusal? path = some f ∧
          ¬ (s.createMissing = true ∧ Lacks w.files w.host.stack.directories path)) := by
  have hlog' := s.hasLog_madeFiles path hlog
  rcases s.makes_madeFiles path w with ⟨hcreate, hsame⟩ | ⟨hcreate, x, hexec, hmakes⟩
  · rw [hsame] at hlog' ⊢
    refine Or.inl ⟨by simp [hcreate], w, ?_, .refl hlog', fun hnone => ⟨hnone, rfl⟩⟩
    rw [prepare, hcreate]
    rfl
  have hfew : x ≠ .error .tooDeep →
      ¬ (s.createMissing = true ∧ Lacks w.files w.host.stack.directories path) := fun hx h =>
    hx (hmakes.of_lacks h.2).1
  cases x with
  | ok u =>
    refine Or.inl ⟨hfew (by simp), _, ?_, .refl hlog', fun hnone => ⟨hnone, rfl⟩⟩
    rw [prepare, if_pos hcreate]
    exact Action.exec_tryCatch_ok hexec
  | error f =>
    rcases hmakes.failure hnul rfl with rfl | ⟨e, rfl⟩ | hrefused
    · refine Or.inr ⟨_, ?_, Or.inl ⟨rfl, hcreate, hmakes.of_tooDeep.2⟩⟩
      rw [prepare, if_pos hcreate, Action.exec_tryCatch_error hexec]
      rfl
    · obtain ⟨r, hreport⟩ : ∃ r, (s.prepare path).exec w =
          (.ok (), (w.withFiles (s.madeFiles path w)).report r) := by
        rw [prepare, if_pos hcreate, Action.exec_tryCatch_error hexec]
        exact ⟨_, rfl⟩
      refine Or.inl ⟨hfew (by simp), _, hreport, .of_report hlog' r, fun hnone => ?_⟩
      unfold World.report
      simp [World.withFiles, hnone]
    · have hother : ∀ e, f ≠ .system e := fun e => Files.ne_system_of_refusal? hrefused e
      refine Or.inr ⟨f, ?_, Or.inr ⟨hrefused, hfew ?_⟩⟩
      · rw [prepare, if_pos hcreate, Action.exec_tryCatch_error hexec]
        split
        · exact absurd rfl (hother _)
        · rfl
      · rintro ⟨⟩
        exact Files.ne_tooDeep_of_refusal? hrefused rfl

/-- A build makes directories, gives what it then finds and reports, unless too many directories are
missing. -/
theorem exec_build_made (s : TreeSettings) {path : Text} {w : World} (hlog : w.HasLog)
    (hnul : ∀ c ∈ path, c.val ≠ 0) :
    ∃ w₂, (w.withFiles (s.madeFiles path w)).Twin w₂ ∧
      (w.journal = none → w₂.journal = none ∧ w₂.files = s.madeFiles path w) ∧
      (s.build path).exec w =
        (if s.createMissing = true ∧ Lacks w.files w.host.stack.directories path then .error .tooDeep
          else s.found path (w.withFiles (s.madeFiles path w)), w₂) := by
  have hlog' := s.hasLog_madeFiles path hlog
  rcases s.exec_prepare_made hlog hnul with ⟨hfew, w₁, hprepare, htwin₁, hquiet₁⟩ |
    ⟨f, hprepare, ⟨rfl, hcreate, hlacks⟩ | ⟨hrefused, hfew⟩⟩
  · obtain ⟨w₂, hbuild, htwin, hquiet⟩ := exec_build_of_prepare hprepare htwin₁
    refine ⟨w₂, htwin, fun hnone => ?_, by rw [hbuild, if_neg hfew]⟩
    obtain ⟨hnone₁, hfiles₁⟩ := hquiet₁ hnone
    obtain ⟨hnone₂, hfiles₂⟩ := hquiet hnone₁
    exact ⟨hnone₂, hfiles₂.trans hfiles₁⟩
  · refine ⟨_, .refl hlog', fun hnone => ⟨hnone, rfl⟩, ?_⟩
    rw [exec_build, hprepare, if_pos ⟨hcreate, hlacks⟩]
  · refine ⟨_, .refl hlog', fun hnone => ⟨hnone, rfl⟩, ?_⟩
    rw [exec_build, hprepare, if_neg hfew, found, hrefused]

/-! ## Building once more -/

/-- Where the directories have been made, no more are made. -/
lemma madeFiles_again (s : TreeSettings) {path : Text} {w u : World} (hhost : u.host = w.host)
    (hu : u.files = s.madeFiles path w) : s.madeFiles path u = s.madeFiles path w := by
  rcases s.makes_madeFiles path w with ⟨hcreate, -⟩ | ⟨hcreate, x, -, hmakes⟩
  · rw [← hu]
    simp [madeFiles, hcreate]
  · rcases s.makes_madeFiles path u with ⟨hnot, -⟩ | ⟨-, y, -, hmakes'⟩
    · rw [hcreate] at hnot
      cases hnot
    · rw [hu, hhost] at hmakes'
      exact hmakes.again hmakes'

/-- Too many directories are missing for the second build if they were for the first one. -/
lemma lacks_madeFiles_iff (s : TreeSettings) {path : Text} {w : World}
    (hcreate : s.createMissing = true) :
    Lacks (s.madeFiles path w) w.host.stack.directories path ↔
      Lacks w.files w.host.stack.directories path := by
  refine ⟨Files.lacks_of_adds (s.adds_madeFiles path w), fun hlacks => ?_⟩
  rcases s.makes_madeFiles path w with ⟨hnot, -⟩ | ⟨-, x, -, hmakes⟩
  · rw [hcreate] at hnot
    cases hnot
  · rw [(hmakes.of_lacks hlacks).2]
    exact hlacks

/-- A second build gives what the first one gave, and leaves a world that differs in what was reported
alone. -/
theorem build_again (s : TreeSettings) {path : Text} {w : World} (hlog : w.HasLog)
    (hnul : ∀ c ∈ path, c.val ≠ 0) :
    let first := (s.build path).exec w
    let second := (s.build path).exec first.2
    second.1 = first.1 ∧ first.2.Twin second.2 ∧
      (w.journal = none → second.2.files = first.2.files) := by
  intro first second
  obtain ⟨w₂, htwin, hquiet, hfirst⟩ := s.exec_build_made hlog hnul
  have hw₂ : first.2 = w₂ := congrArg Prod.snd hfirst
  -- the second build goes as it would without the reports
  have hlog' := s.hasLog_madeFiles path hlog
  obtain ⟨v₂, htwin', -, hunreported⟩ := s.exec_build_made hlog' hnul
  obtain ⟨y, v', w', hv', hw', hsame⟩ := s.isBlind_build path _ _ htwin
  have hmade : s.madeFiles path (w.withFiles (s.madeFiles path w)) = s.madeFiles path w :=
    s.madeFiles_again rfl rfl
  have hsecond : second = (y, w') := by
    show (s.build path).exec first.2 = _
    rw [hw₂, hw']
  rw [hunreported, Prod.mk.injEq] at hv'
  rw [hmade, World.withFiles_withFiles] at htwin'
  refine ⟨?_, ?_, fun hnone => ?_⟩
  · rw [hsecond, ← hv'.1, hmade, World.withFiles_withFiles, World.files_withFiles,
      World.host_withFiles]
    refine Eq.trans ?_ (congrArg Prod.fst hfirst).symm
    by_cases hcreate : s.createMissing = true
    · simp only [hcreate, true_and, s.lacks_madeFiles_iff hcreate]
    · simp only [hcreate, false_and, if_false, Bool.false_eq_true]
  · rw [hsecond, hw₂]
    rw [← hv'.2] at hsame
    exact (htwin.symm.trans htwin').trans hsame
  · obtain ⟨hnone₂, hfiles₂⟩ := hquiet hnone
    obtain ⟨w₃, -, hquiet₃, hthird⟩ := s.exec_build_made htwin.symm.hasLog hnul
    have hw₃ : second.2 = w₃ := by
      show ((s.build path).exec first.2).2 = _
      rw [hw₂, hthird]
    rw [hw₃, hw₂, (hquiet₃ hnone₂).2, s.madeFiles_again (w := w) htwin.host hfiles₂,
      hfiles₂]

/-! ## The directories that are asked for -/

/-- What is found in an empty directory is the empty tree, and nothing is left out. -/
lemma found_of_empty (s : TreeSettings) {path : Text} {w : World} (hpath : IsPassable path)
    (hlist : rootListing w path = .ok []) : s.found path w = .ok (.empty, []) := by
  have htree : (s.walk w.host).tree path (.ok []) = .ok (.empty, []) := by
    unfold Walk.tree
    rw [Walk.run]
    cases (s.walk w.host).limitAt? 0 with
    | none =>
      simp only [FileSystem.Entries.sort, Walk.subdirectories, Walk.fileNames, Walk.Task.push,
        List.length_nil]
      rw [Walk.run, Walk.run]
      rfl
    | some limit =>
      simp only [FileSystem.Entries.sort, Walk.subdirectories, Walk.fileNames, List.map_nil]
      rw [Walk.run]
      cases (s.walk w.host).strict <;> rfl
  rw [found, Files.refusal?_eq_none_iff.mpr hpath, hlist]
  simp only [htree]

/-- A build only adds the directories that are asked for: what was there stays, and what is new is a
directory to which a beginning of the path leads, but for the log, which gets the reports.  Nothing is
added if nothing is to be made or the directory is there.

If the directories are made then the path leads to one, unless it ends in a single dot below a part that
was missing: such a path is not made itself, and leads to a directory exactly if this part does and it is
not too long.  A directory that was missing and can be listed has the empty tree then, unless the path
goes up.

A second build gives the same and adds nothing. -/
theorem build_frame (s : TreeSettings) (path : Text) (w : World) (hlog : w.HasLog)
    (hnul : ∀ c ∈ path, c.val ≠ 0) :
    let made := s.madeFiles path w
    let first := (s.build path).exec w
    let second := (s.build path).exec first.2
    (State.Adds path w.files made ∧ State.Twin w.logFile? made first.2.files ∧
      (w.journal = none → first.2.files = made)) ∧
    (s.createMissing = false ∨ IsPassable path ∧ w.files.isDirectory path = true →
      made = w.files) ∧
    (s.createMissing = true → ((makeMissing path).exec w).1 = .ok () →
      (¬ (GoesUp w.files path ∧ (splitPath path).2 = FileSystem.dot) →
        made.isDirectory path = true) ∧
      (GoesUp w.files path ∧ (splitPath path).2 = FileSystem.dot →
        (made.isDirectory path = true ↔ made.isDirectory (splitPath path).1 = true ∧
          ¬ FileSystem.pathLimit < FileSystem.byteLength path)) ∧
      (finds w.files path = false → FileSystem.dotDot ∉ path.splitOn '/' →
        (∃ es, rootListing (w.withFiles made) path = .ok es) → first.1 = .ok (.empty, []))) ∧
    second.1 = first.1 ∧ first.2.Twin second.2 ∧
      (w.journal = none → second.2.files = first.2.files) := by
  intro made first second
  obtain ⟨w₂, htwin, hquiet, hbuild⟩ := s.exec_build_made hlog hnul
  have hfirst : first = _ := hbuild
  refine ⟨⟨s.adds_madeFiles path w, ?_, ?_⟩, ?_, ?_, s.build_again hlog hnul⟩
  · rw [hfirst]
    exact htwin.files
  · intro hnone
    rw [hfirst]
    exact (hquiet hnone).2
  · rintro (hcreate | ⟨hpath, hdirectory⟩)
    · simp [made, madeFiles, hcreate]
    · rcases s.makes_madeFiles path w with ⟨-, hsame⟩ | ⟨-, x, -, hmakes⟩
      · exact hsame
      · exact hmakes.of_isDirectory hpath hdirectory
  · intro hcreate hcreated
    rcases s.makes_madeFiles path w with ⟨hnot, -⟩ | ⟨-, x, hexec, hmakes⟩
    · rw [hcreate] at hnot
      cases hnot
    obtain rfl : x = .ok () := by rw [← hcreated, hexec]
    have hpath := hmakes.isPassable .done
    refine ⟨(hmakes.isDirectory_or_dot rfl).resolve_left, ?_, ?_⟩
    · rintro ⟨hup, hname⟩
      have hextends := Files.extends_splitPath hup.1 hup.2.1
      rw [hname] at hextends
      exact hextends.isDirectory_dot_iff hpath.isByteText
    · rintro hmissing hdots ⟨es, hes⟩
      obtain rfl := hmakes.list_eq_nil rfl hmissing hdots (list_of_rootListing hes)
      have hfew : ¬ (s.createMissing = true ∧ Lacks w.files w.host.stack.directories path) := by
        rintro ⟨-, hlacks⟩
        cases (hmakes.of_lacks hlacks).1
      rw [hfirst, if_neg hfew]
      exact s.found_of_empty hpath hes

/-- A missing directory is made below one that is there, and its tree is empty. -/
theorem build_frame_sample :
    ((build ⟨false, none, true⟩ "r/x/y").exec sampleWorld).1 = .ok (.empty, []) ∧
      ((build ⟨false, none, true⟩ "r/x/y").exec sampleWorld).2.files.view ["r", "x", "y"] =
        some .directory := by
  have hlog : sampleWorld.HasLog := fun loc hloc => by cases hloc
  obtain ⟨⟨-, -, hmade⟩, -, hcreated, -⟩ :=
    build_frame ⟨false, none, true⟩ "r/x/y" sampleWorld hlog (by decide)
  refine ⟨(hcreated rfl rfl).2.2 rfl (by decide) ⟨[], rfl⟩, ?_⟩
  rw [hmade rfl]
  rfl

/-- A world with a link that leads nowhere. -/
def strayWorld : World :=
  World.still (.directory [("l", .link "nowhere")]) fun _ => .interruption

/-- Behind a link that leads nowhere a path that ends in a single dot is made without a failure, and
there is no directory at it. -/
theorem no_directory_behind_stray_link :
    ((makeMissing "l/.").exec strayWorld).1 = .ok () ∧
      ((build ⟨false, none, true⟩ "l/.").exec strayWorld).2.files.isDirectory "l/." = false := by
  have hlog : strayWorld.HasLog := fun loc hloc => by cases hloc
  have hnul : ∀ c ∈ ("l/." : Text), c.val ≠ 0 := by decide
  obtain ⟨w₂, -, hquiet, hbuild⟩ :=
    exec_build_made ⟨false, none, true⟩ hlog hnul
  refine ⟨rfl, ?_⟩
  rw [hbuild, (hquiet rfl).2]
  rfl

end TreeSettings

end EditorDocs
