import EditorDocs.Proofs.FileSystem.Listing
import EditorDocs.Proofs.Tree.Growth
import EditorDocs.Proofs.World.Directories
import EditorDocs.Tree.Build

/-!
# What is built

A tree is built in three stages: the directory is made if it is missing, the tree is found by a walk,
and what was left empty is reported (`TreeSettings.exec_build`).

`TreeSettings.Shows` says what the tree of a path is by nothing but listing paths: that of the
directory, and those of its subdirectories.  The recursion of the walk gives this tree and no other
(`TreeSettings.shows_treeOf`, `TreeSettings.eq_treeOf_of_shows`), so this is what a lenient build gives
(`TreeSettings.build_lenient`), and what grows when directories are filled in one after the other.
A strict one gives the same tree, or ends with the first report of the lenient one.
-/

namespace EditorDocs

open FileSystem (Entries Name Node IsByteText)
open Files (IsPassable Lacks Hindrance refusal?)

/-- What is logged about a directory that was left empty. -/
def Skipped.record (skipped : Skipped) : Record :=
  ⟨.warning, "tree.listing_failed",
    Context.bind [("component", .string "tree_builder")] [("path", .string skipped.path),
      ("error", .string skipped.message), ("error_type", .string skipped.kind)], none⟩

namespace TreeSettings

/-! ## The stages -/

/-- Reporting what was left empty leaves everything but the log as it is. -/
lemma exec_reportSkipped (skipped : List Skipped) (w : World) :
    ∃ w', (skipped.forM reportSkipped).exec w = (.ok (), w') ∧ w.Reported w' ∧
      (w.journal = none → w'.journal = none ∧ w'.files = w.files) := by
  induction skipped generalizing w with
  | nil => exact ⟨w, rfl, .refl w, fun hnone => ⟨hnone, rfl⟩⟩
  | cons first rest ih =>
    obtain ⟨w₁, hfirst⟩ : ∃ w₁, (reportSkipped first).exec w = (.ok (), w₁) ∧ w.Reported w₁ ∧
        (w.journal = none → w₁.journal = none ∧ w₁.files = w.files) := by
      refine ⟨_, rfl, w.reported_report _, fun hnone => ?_⟩
      unfold World.report
      simp [hnone]
    obtain ⟨hexec, hreported, hquiet⟩ := hfirst
    obtain ⟨w', hrest, hreported', hquiet'⟩ := ih w₁
    refine ⟨w', ?_, hreported.trans hreported', fun hnone => ?_⟩
    · exact (Action.exec_bind_ok hexec).trans hrest
    · obtain ⟨hnone₁, hsame⟩ := hquiet hnone
      rw [← hsame]
      exact hquiet' hnone₁

/-- Collecting what was left empty logs it, and adds it to what was collected before. -/
lemma exec_foldlM_collect (skipped : List Skipped) (collected : Option (List Skipped)) (w : World) :
    (skipped.foldlM collect collected).exec w =
      (.ok (collected.map (· ++ skipped)), ((skipped.forM reportSkipped).exec w).2) := by
  induction skipped generalizing collected w with
  | nil =>
    cases collected with
    | none => rfl
    | some before => exact congrArg (fun l => (Except.ok (some l), w)) (List.append_nil before).symm
  | cons first rest ih =>
    have hfirst : (collect collected first).exec w =
        (.ok (collected.map (· ++ [first])), w.report first.record) := rfl
    have hlogged : (reportSkipped first).exec w = (.ok (), w.report first.record) := rfl
    have hall : ((first :: rest).forM reportSkipped).exec w =
        (rest.forM reportSkipped).exec (w.report first.record) := Action.exec_bind_ok hlogged
    rw [List.foldlM_cons, Action.exec_bind_ok hfirst, ih, hall, Option.map_map]
    have happend : (fun l : List Skipped => l ++ rest) ∘ (fun l => l ++ [first]) =
        (· ++ (first :: rest)) := by
      funext l
      simp
    rw [happend]

/-- How many directories may be missing is up to the machine. -/
lemma exec_makeMissing (path : Text) (w : World) : (makeMissing path).exec w =
    (Files.makeDirectories w.host.stack.directories path).exec w := rfl

/-- Making the directory is hindered by its path alone: that a file operation fails is reported.  Names
stay names. -/
lemma exec_prepare (s : TreeSettings) (path : Text) (w : World) :
    ∃ x w₁, (s.prepare path).exec w = (x, w₁) ∧ (w.journal = none → w₁.journal = none) ∧
      (w.files.IsNamed → w₁.files.IsNamed) ∧ ∀ f, x = .error f → s.createMissing = true ∧
        Hindrance w.files w.host.stack.directories path f ∧ ∀ e, f ≠ .system e := by
  unfold prepare
  cases hcreate : s.createMissing with
  | false => exact ⟨.ok (), w, rfl, id, id, by simp⟩
  | true =>
    obtain ⟨x, files, hx, hnamed, hhindered⟩ := Files.exec_makeDirectories w.host.stack.directories path w
    rw [if_pos rfl, Action.exec_tryCatch, exec_makeMissing, hx]
    cases x with
    | ok u => exact ⟨.ok u, w.withFiles files, rfl, id, hnamed, by simp⟩
    | error f =>
      have hf := hhindered f rfl
      simp only
      split
      · refine ⟨.ok (), _, rfl, fun hnone => ?_, fun hs => World.isNamed_report (hnamed hs) _, by simp⟩
        unfold World.report
        simp [World.withFiles, hnone]
      · rename_i hother
        refine ⟨.error f, w.withFiles files, rfl, id, hnamed, ?_⟩
        rintro f' ⟨⟩
        exact ⟨trivial, hf, hother⟩

/-- The directory is not made if too many are missing on the way to it. -/
lemma exec_prepare_of_lacks {s : TreeSettings} (hs : s.createMissing = true) {path : Text} {w : World}
    (h : Lacks w.files w.host.stack.directories path) : (s.prepare path).exec w = (.error .tooDeep, w) := by
  rw [prepare, if_pos hs, Action.exec_tryCatch_error
    ((exec_makeMissing path w).trans (Files.exec_makeDirectories_of_lacks h))]
  rfl

/-- What is built is the result of the walk in the world in which the directory has been made, with the
reports behind those that were collected before. -/
lemma exec_buildCollecting (s : TreeSettings) (path : Text) (collected : Option (List Skipped))
    (w : World) :
    (s.buildCollecting path collected).exec w = match (s.prepare path).exec w with
      | (.error f, w₁) => (.error f, w₁)
      | (.ok _, w₁) => match refusal? path with
        | some f => (.error f, w₁)
        | none => match (s.walk w₁.host).tree path (rootListing w₁ path) with
          | .error first => (.error (.unlistable first.path first.message), w₁)
          | .ok (tree, skipped) =>
            (.ok (tree, collected.map (· ++ skipped)), ((skipped.forM reportSkipped).exec w₁).2) := by
  unfold buildCollecting
  rw [Action.exec_bind]
  rcases (s.prepare path).exec w with ⟨f | u, w₁⟩
  · rfl
  · cases refusal? path with
    | some f => rfl
    | none =>
      simp only [Action.exec_bind, Action.exec_get]
      rcases (s.walk w₁.host).tree path (rootListing w₁ path) with first | ⟨tree, skipped⟩
      · rfl
      · simp only [Action.exec_bind, exec_foldlM_collect, Action.exec_pure]

/-- So it is for one who collects all reports. -/
lemma exec_build (s : TreeSettings) (path : Text) (w : World) :
    (s.build path).exec w = match (s.prepare path).exec w with
      | (.error f, w₁) => (.error f, w₁)
      | (.ok _, w₁) => match refusal? path with
        | some f => (.error f, w₁)
        | none => match (s.walk w₁.host).tree path (rootListing w₁ path) with
          | .error first => (.error (.unlistable first.path first.message), w₁)
          | .ok (tree, skipped) =>
            (.ok (tree, skipped), ((skipped.forM reportSkipped).exec w₁).2) := by
  unfold build
  rw [Action.exec_bind, exec_buildCollecting]
  rcases (s.prepare path).exec w with ⟨f | u, w₁⟩
  · rfl
  · cases refusal? path with
    | some f => rfl
    | none =>
      simp only
      rcases (s.walk w₁.host).tree path (rootListing w₁ path) with first | ⟨tree, skipped⟩ <;> rfl

/-- Nothing is built if too many directories are missing on the way. -/
lemma exec_build_of_lacks {s : TreeSettings} (hs : s.createMissing = true) {path : Text} {w : World}
    (h : Lacks w.files w.host.stack.directories path) : (s.build path).exec w = (.error .tooDeep, w) := by
  rw [exec_build, exec_prepare_of_lacks hs h]

/-- Making the directory leaves the files named as they should be. -/
lemma isNamed_prepare (s : TreeSettings) (path : Text) {w : World} (hw : w.files.IsNamed) :
    ((s.prepare path).exec w).2.files.IsNamed := by
  obtain ⟨x, w₁, hprepare, -, hstay, -⟩ := exec_prepare s path w
  rw [hprepare]
  exact hstay hw

/-- The directory is made, or that it cannot be made is logged, if a file can have the path and not too
many directories are missing on the way to it. -/
lemma exec_prepare_ok {s : TreeSettings} {path : Text} {w : World} (hpath : IsPassable path)
    (hfew : ¬ (s.createMissing = true ∧ Lacks w.files w.host.stack.directories path)) :
    (s.prepare path).exec w = (.ok (), ((s.prepare path).exec w).2) := by
  obtain ⟨x, w₁, hprepare, -, -, hhindered⟩ := exec_prepare s path w
  rw [hprepare]
  cases x with
  | ok u => rfl
  | error f =>
    obtain ⟨hcreate, hhindrance, hother⟩ := hhindered f rfl
    cases hhindrance with
    | system e => exact absurd rfl (hother e)
    | tooDeep hlacks => exact absurd ⟨hcreate, hlacks⟩ hfew
    | refused hbad hrefused => exact absurd hpath hbad

/-- Otherwise nothing is built, whatever else the settings are. -/
lemma exec_build_hindered {create : Bool} {path : Text} {w : World}
    (h : ¬ (IsPassable path ∧ ¬ (create = true ∧ Lacks w.files w.host.stack.directories path))) :
    ∃ f, ∀ strict maxDepth, (build ⟨strict, maxDepth, create⟩ path).exec w =
      (.error f, ((prepare ⟨strict, maxDepth, create⟩ path).exec w).2) := by
  have hsame : ∀ strict maxDepth, (prepare ⟨strict, maxDepth, create⟩ path).exec w =
      (prepare ⟨false, none, create⟩ path).exec w := fun _ _ => rfl
  by_cases hpath : IsPassable path
  · obtain ⟨hcreate, hlacks⟩ := not_not.mp fun hfew => h ⟨hpath, hfew⟩
    refine ⟨.tooDeep, fun strict maxDepth => ?_⟩
    rw [exec_build_of_lacks hcreate hlacks, exec_prepare_of_lacks hcreate hlacks]
  · obtain ⟨f, hrefused⟩ : ∃ f, refusal? path = some f := by
      cases hrefused : refusal? path with
      | some f => exact ⟨f, rfl⟩
      | none => exact absurd (Files.refusal?_eq_none_iff.mp hrefused) hpath
    rcases hprepare : (prepare ⟨false, none, create⟩ path).exec w with ⟨e | u, w₁⟩
    · refine ⟨e, fun strict maxDepth => ?_⟩
      rw [exec_build, hsame, hprepare]
    · refine ⟨f, fun strict maxDepth => ?_⟩
      rw [exec_build, hsame, hprepare, hrefused]

/-! ## The tree of a path -/

mutual

/-- The tree of a path, which is found by listing paths. -/
inductive Shows (w : World) : Text → DirTree → Prop where
  /-- What cannot be listed is empty. -/
  | unlisted {path e} (hlist : rootListing w path = .error e) : Shows w path .empty
  /-- What can be listed has the names of its entries that are no directories, and the trees of the
  others in the order in which they are listed. -/
  | listed {path es trees} (hlist : rootListing w path = .ok es)
      (hdirs : ShowsAll w path (Walk.subdirectories (Entries.sort w.host.listsBefore es)) trees) :
      Shows w path (.node (Walk.fileNames (Entries.sort w.host.listsBefore es)) trees)

/-- The trees of directories below a path, which are found by listing their paths. -/
inductive ShowsAll (w : World) : Text → List (Name × Entries) → List DirTree → Prop where
  /-- No directories have no trees. -/
  | nil {path} : ShowsAll w path [] []
  /-- Each directory has its tree. -/
  | cons {path d dirs tree trees} (hfirst : Shows w (FileSystem.under path d.1) tree)
      (hrest : ShowsAll w path dirs trees) : ShowsAll w path (d :: dirs) (tree :: trees)

end

/-- The subdirectories are the entries that are directories. -/
lemma mem_of_mem_subdirectories {es : Entries} {d : Name × Entries}
    (h : d ∈ Walk.subdirectories es) : (d.1, Node.directory d.2) ∈ es := by
  fun_induction Walk.subdirectories es with
  | case1 => cases h
  | case2 name es' rest ih =>
    rcases List.mem_cons.mp h with rfl | hrest
    · exact List.mem_cons_self
    · exact List.mem_cons_of_mem _ (ih hrest)
  | case3 e rest hfile ih => exact List.mem_cons_of_mem _ (ih h)

/-- What is listed under a path is what the file system has there. -/
lemma list_of_rootListing {w : World} {path : Text} {es : Entries} (h : rootListing w path = .ok es) :
    w.files.list path = .ok es := by
  obtain ⟨es', hes', hlistable⟩ := Result.of_bind h
  split at hlistable
  · cases hlistable
  · cases hlistable
    exact hes'

/-- On the walk a subdirectory is listed as it is listed at its path. -/
lemma rootListing_under (s : TreeSettings) {w : World} (hw : w.files.IsNamed) {path : Text}
    (hpath : IsByteText path) {es : Entries} (hlist : rootListing w path = .ok es)
    {d : Name × Entries} (hd : d ∈ Walk.subdirectories (Entries.sort w.host.listsBefore es)) :
    rootListing w (FileSystem.under path d.1) =
        (s.walk w.host).listing (FileSystem.under path d.1) d.2 ∧
      IsByteText (FileSystem.under path d.1) := by
  have hentry : (d.1, Node.directory d.2) ∈ es :=
    (FileSystem.Entries.sort_perm _ es).subset (mem_of_mem_subdirectories hd)
  have hes := list_of_rootListing hlist
  have hchild := FileSystem.State.list_under hw hpath hes hentry
  obtain ⟨dir, hlocate⟩ := FileSystem.State.list_eq_ok_iff.mp hes
  have hname := (hw.entries dir es (FileSystem.State.find?_of_object hlocate)).2 d.1
    (List.mem_map_of_mem (f := Prod.fst) hentry)
  refine ⟨?_, hpath.under hname.bytes⟩
  rw [rootListing, Walk.listing, hchild]
  split
  · rfl
  · rfl

/-- The recursion of the walk gives the tree that is found by listing paths. -/
theorem shows_treeOf (s : TreeSettings) {w : World} (hw : w.files.IsNamed) {path : Text}
    (hpath : IsByteText path) :
    Shows w path ((s.walk w.host).treeOf path (rootListing w path)) := by
  generalize hfound : rootListing w path = found
  induction path, found using Walk.treeOf.induct (s.walk w.host) with
  | case1 path e =>
    rw [Walk.treeOf_error]
    exact .unlisted hfound
  | case2 path es ih =>
    rw [Walk.treeOf_ok]
    refine .listed hfound ?_
    have hall : ∀ dirs, (∀ d ∈ dirs,
        d ∈ Walk.subdirectories (Entries.sort w.host.listsBefore es)) →
        ShowsAll w path dirs (dirs.map ((s.walk w.host).treeBelow path)) := by
      intro dirs hdirs
      induction dirs with
      | nil => exact .nil
      | cons d rest ihrest =>
        have hd := hdirs d List.mem_cons_self
        obtain ⟨hlist, hbytes⟩ := rootListing_under s hw hpath hfound hd
        exact .cons (ih ⟨d, hd⟩ hbytes hlist)
          (ihrest fun d' hd' => hdirs d' (List.mem_cons_of_mem d hd'))
    exact hall _ fun d hd => hd

/-- A path has one tree. -/
lemma eq_treeOf_of_shows (s : TreeSettings) {w : World} (hw : w.files.IsNamed) {path : Text}
    (hpath : IsByteText path) {t : DirTree} (h : Shows w path t) :
    t = (s.walk w.host).treeOf path (rootListing w path) := by
  generalize hfound : rootListing w path = found
  induction path, found using Walk.treeOf.induct (s.walk w.host) generalizing t with
  | case1 path e =>
    rw [Walk.treeOf_error]
    cases h with
    | unlisted hlist => rfl
    | listed hlist hdirs => cases hlist.symm.trans hfound
  | case2 path es ih =>
    rw [Walk.treeOf_ok]
    have hall : ∀ dirs trees, (∀ d ∈ dirs,
        d ∈ Walk.subdirectories (Entries.sort w.host.listsBefore es)) →
        ShowsAll w path dirs trees → trees = dirs.map ((s.walk w.host).treeBelow path) := by
      intro dirs trees hdirs htrees
      induction dirs generalizing trees with
      | nil =>
        cases htrees
        rfl
      | cons d rest ihrest =>
        have hd := hdirs d List.mem_cons_self
        obtain ⟨hlist, hbytes⟩ := rootListing_under s hw hpath hfound hd
        cases htrees with
        | cons hfirst hrest =>
          rw [List.map_cons, ihrest _ (fun d' hd' => hdirs d' (List.mem_cons_of_mem d hd')) hrest,
            ih ⟨d, hd⟩ hbytes hfirst hlist]
          rfl
    cases h with
    | unlisted hlist => cases hlist.symm.trans hfound
    | listed hlist hdirs =>
      cases hlist.symm.trans hfound
      rw [hall _ _ (fun d hd => hd) hdirs]
      rfl

/-! ## The lenient walk -/

/-- Without a deepest level and without strictness, what is built is the tree that the recursion gives
in the world in which the directory has been made, unless no file can have the path or too many
directories are missing on the way to it: then nothing is built.  It is also the tree that grows when each
directory gets a cell that is filled in later, and the reports are the same.  The tree is the one that is
found by listing paths. -/
theorem build_lenient (create : Bool) (path : Text) (w : World) :
    let s : TreeSettings := ⟨false, none, create⟩
    let w₁ := ((s.prepare path).exec w).2
    let tree := (s.walk w₁.host).treeOf path (rootListing w₁ path)
    (IsPassable path ∧ ¬ (create = true ∧ Lacks w.files w.host.stack.directories path) →
      (∃ reports w₂, (s.build path).exec w = (.ok (tree, reports), w₂) ∧
        ∃ cells, Walk.Growth.run (s.walk w₁.host) (.start path (rootListing w₁ path)) =
            .ok ⟨[], cells, reports⟩ ∧
          ∀ t, DirTree.Shows DirTree.node cells 1 0 t ↔ t = tree) ∧
        (w.files.IsNamed → ∀ t, Shows w₁ path t ↔ t = tree)) ∧
    (¬ IsPassable path ∨ create = true ∧ Lacks w.files w.host.stack.directories path →
      ∃ f w₂, (s.build path).exec w = (.error f, w₂)) := by
  intro s w₁ tree
  constructor
  · rintro ⟨hpath, hfew⟩
    refine ⟨?_, fun hnamed t => ?_⟩
    · have hgrown := Walk.Growth.tree_grows (s.walk w₁.host) path (rootListing w₁ path)
      rw [Walk.tree_eq_treeOf rfl] at hgrown
      rw [exec_build, exec_prepare_ok hpath hfew, Files.refusal?_eq_none_iff.mpr hpath]
      simp only [Walk.tree_eq_treeOf (w := s.walk _) rfl]
      exact ⟨_, _, rfl, hgrown⟩
    · have hbytes := hpath.isByteText
      have hnamed₁ : w₁.files.IsNamed := isNamed_prepare s path hnamed
      constructor
      · exact eq_treeOf_of_shows s hnamed₁ hbytes
      · rintro rfl
        exact shows_treeOf s hnamed₁ hbytes
  · intro h
    have hnot : ¬ (IsPassable path ∧ ¬ (create = true ∧ Lacks w.files w.host.stack.directories path)) :=
      fun ⟨hpath, hfew⟩ => h.elim (absurd hpath) hfew
    obtain ⟨f, hbuild⟩ := exec_build_hindered hnot
    exact ⟨f, _, hbuild false none⟩

/-- A directory with a file, a link, a directory that can be listed and one that cannot. -/
def sampleEntries : Entries :=
  [("a", .file []), ("s", .directory [("b", .file [])]), ("l", .link "."),
    ("t", .directory [("c", .file [])])]

/-- A world with this directory, in which entries are listed in the order in which they stand here. -/
def sampleWorld : World :=
  { World.still (.directory [("r", .directory sampleEntries)]) (fun _ => .interruption) with
    host := ⟨fun _ _ => true, fun p => if p = Path.ofText "r/t" then some .accessDenied else none,
      .usual, ⟨false⟩, .usual⟩ }

/-- The names of the sample are names. -/
lemma isNamed_sample : sampleWorld.files.IsNamed := by
  have hdirectory : ∀ {es : Entries}, (Table.keys es).Nodup →
      (∀ name ∈ Table.keys es, FileSystem.IsName name) →
      (∀ e ∈ es, FileSystem.State.IsNamed ⟨e.2, []⟩) →
      FileSystem.State.IsNamed ⟨.directory es, []⟩ := fun hnodup hnames hentries =>
    FileSystem.isNamed_directory_iff.mpr ⟨hnodup, hnames, hentries⟩
  have hfile : ∀ content, FileSystem.State.IsNamed ⟨.file content, []⟩ := fun content =>
    FileSystem.isNamed_file content
  have hlink : FileSystem.State.IsNamed ⟨.link ".", []⟩ :=
    FileSystem.isNamed_link ⟨by unfold IsByteText; decide, rfl⟩
  have hsub : ∀ name, FileSystem.IsName name →
      FileSystem.State.IsNamed ⟨.directory [(name, .file [])], []⟩ := by
    intro name hname
    refine hdirectory (by simp [Table.keys]) ?_ ?_
    · simpa [Table.keys] using hname
    · simpa using hfile []
  refine hdirectory (by decide) (by decide) ?_
  intro e he
  obtain rfl := List.mem_singleton.mp he
  refine hdirectory (by decide) (by decide) ?_
  simp only [sampleEntries, List.forall_mem_cons]
  exact ⟨hfile _, hsub _ (by decide), hlink, hsub _ (by decide), by simp⟩

/-- The tree of the sample has a file and a link, and only one of its subdirectories can be listed. -/
lemma treeOf_sample (s : TreeSettings) :
    (s.walk sampleWorld.host).treeOf "r" (rootListing sampleWorld "r") =
      .node [("a" : Text), ("l" : Text)] [.node [("b" : Text)] [], .empty] := by
  have hlist : rootListing sampleWorld "r" = .ok sampleEntries := rfl
  have hs : (s.walk sampleWorld.host).treeBelow "r" ("s", [("b", .file [])]) =
      .node [("b" : Text)] [] := Walk.treeOf_ok _ _ _
  have ht : (s.walk sampleWorld.host).treeBelow "r" ("t", [("c", .file [])]) = .empty :=
    Walk.treeOf_error _ _ .accessDenied
  rw [hlist, Walk.treeOf_ok]
  show DirTree.node _ [_, _] = _
  rw [hs, ht]
  rfl

/-- Files can have the path of the sample, and no directory is missing on the way to it. -/
lemma buildable_sample : IsPassable ("r" : Text) ∧
    ¬ (true = true ∧ Lacks sampleWorld.files sampleWorld.host.stack.directories "r") := by
  unfold IsPassable
  decide

/-- The tree of the sample is built. -/
theorem build_lenient_sample :
    (∃ reports w₂, (build ⟨false, none, true⟩ "r").exec sampleWorld =
      (.ok (.node [("a" : Text), ("l" : Text)] [.node [("b" : Text)] [], .empty], reports), w₂)) ∧
    Shows sampleWorld "r" (.node [("a" : Text), ("l" : Text)] [.node [("b" : Text)] [], .empty]) := by
  have hprepare : ((prepare ⟨false, none, true⟩ "r").exec sampleWorld).2 = sampleWorld := rfl
  obtain ⟨⟨reports, w₂, hbuilt, -⟩, hshows⟩ := (build_lenient true "r" sampleWorld).1 buildable_sample
  rw [hprepare, treeOf_sample] at hbuilt
  rw [hprepare] at hshows
  exact ⟨⟨reports, w₂, hbuilt⟩, (hshows isNamed_sample _).mpr (treeOf_sample _).symm⟩

/-! ## A path too far below -/

/-- The path of a directory so many levels below one, all of the same name. -/
def farBelow : Nat → Text
  | 0 => [('d' : CodePoint)]
  | n + 1 => farBelow n ++ ('/' : CodePoint) :: [('d' : CodePoint)]

/-- The path consists of names and slashes. -/
lemma mem_farBelow {n : Nat} {c : CodePoint} (h : c ∈ farBelow n) :
    c = ('d' : CodePoint) ∨ c = ('/' : CodePoint) := by
  induction n with
  | zero => exact Or.inl (List.mem_singleton.mp h)
  | succ n ih =>
    rcases List.mem_append.mp h with hup | hlast
    · exact ih hup
    · simp only [List.mem_cons, List.not_mem_nil, or_false] at hlast
      exact hlast.symm

/-- The path can be passed. -/
lemma isPassable_farBelow (n : Nat) : IsPassable (farBelow n) := by
  intro c hc
  rcases mem_farBelow hc with rfl | rfl <;> decide

/-- One level up is the path with one level less. -/
lemma splitPath_farBelow (n : Nat) :
    Files.splitPath (farBelow (n + 1)) = (farBelow n, [('d' : CodePoint)]) := by
  obtain ⟨start, hstart⟩ : ∃ start, farBelow n = start ++ [('d' : CodePoint)] := by
    cases n with
    | zero => exact ⟨[], rfl⟩
    | succ n => exact ⟨farBelow n ++ [('/' : CodePoint)], by simp [farBelow]⟩
  have hslash : ('d' : CodePoint) ≠ ('/' : CodePoint) := by decide
  have hsplit : Files.splitLast (farBelow (n + 1)) = (farBelow n, [('d' : CodePoint)]) := by
    rw [farBelow, hstart]
    have hlong : List.take (start.length + 2) start = start := List.take_of_length_le (by omega)
    simp [Files.splitLast, FileSystem.dropEndSlashes, Text.dropEndWhile, hslash, List.take_append,
      hlong]
  unfold Files.splitPath
  rw [hsplit]

/-- Where there is nothing, the names of the path lead nowhere. -/
lemma splitOn_farBelow (n : Nat) :
    (farBelow n).splitOn '/' = List.replicate (n + 1) [('d' : CodePoint)] := by
  induction n with
  | zero => decide
  | succ n ih =>
    rw [farBelow, Text.splitOn_append_cons, ih, List.replicate_succ' (n := n + 1)]
    rfl

/-- In a world without files there is nothing at the path. -/
lemma finds_farBelow (n : Nat) : Files.finds ⟨.directory [], []⟩ (farBelow n) = false := by
  have hcanonical : FileSystem.canonical (farBelow n) = farBelow n := by
    have hnone : (farBelow n).any FileSystem.isEscapedByte = false := by
      rw [List.any_eq_false]
      intro c hc
      rcases mem_farBelow hc with rfl | rfl <;> decide
    rw [FileSystem.canonical, hnone]
    rfl
  have hlookup : ∀ node, FileSystem.State.lookup ⟨.directory [], []⟩ (farBelow n) ≠ .ok node := by
    intro node h
    obtain ⟨loc, hlocate⟩ := FileSystem.State.lookup_eq_ok_iff.mp h
    rw [FileSystem.State.locate, hcanonical, splitOn_farBelow, List.replicate_succ] at hlocate
    split at hlocate
    · cases hlocate
    split at hlocate
    · cases hlocate
    have hfirst : ∀ rest, FileSystem.State.walk ⟨.directory [], []⟩ .lookup FileSystem.linkLimit []
        ([('d' : CodePoint)] :: rest) =
          if rest.all List.isEmpty then .ok (.vacancy [] [('d' : CodePoint)] !rest.isEmpty)
          else .error .noEntry := fun rest => rfl
    simp only [ite_self] at hlocate
    rw [hfirst] at hlocate
    split at hlocate <;> cases hlocate
  unfold Files.finds
  cases hnode : FileSystem.State.lookup ⟨.directory [], []⟩ (farBelow n) with
  | ok node => exact absurd hnode (hlookup node)
  | error e => exact Bool.and_false _

/-- Any number of directories is missing on the way to a path that is farther below. -/
lemma lacks_farBelow {missing n : Nat} (h : missing ≤ n) :
    Lacks ⟨.directory [], []⟩ missing (farBelow n) := by
  induction missing generalizing n with
  | zero => trivial
  | succ missing ih =>
    obtain ⟨n, rfl⟩ : ∃ m, n = m + 1 := ⟨n - 1, by omega⟩
    rw [Lacks, splitPath_farBelow]
    exact ⟨by cases n <;> simp [farBelow], by simp, finds_farBelow n, ih (by omega)⟩

/-- In a world without files nothing is built at a path far below, although a file can have it. -/
theorem not_built_far_below : IsPassable (farBelow 1200) ∧
    ((build ⟨false, none, true⟩ (farBelow 1200)).exec
      (World.still (.directory []) fun _ => .interruption)).1 = .error .tooDeep := by
  have hlacks : Lacks ⟨.directory [], []⟩ Stack.usual.directories (farBelow 1200) :=
    lacks_farBelow (by decide)
  refine ⟨isPassable_farBelow 1200, ?_⟩
  generalize farBelow 1200 = path at hlacks
  rw [exec_build_of_lacks rfl (w := World.still (.directory []) fun _ => .interruption) hlacks]

/-! ## The strict walk -/

/-- How a strict build ends where the lenient one gives a tree and reports: in the same way if there
is nothing to report, and with the first report otherwise. -/
def severeOutcome (tree : DirTree) : List Skipped → Except Failure (DirTree × List Skipped)
  | [] => .ok (tree, [])
  | first :: _ => .error (.unlistable first.path first.message)

/-- A strict build is a lenient one that ends with the first report, unless both fail before the
walk. -/
lemma exec_build_either (s : TreeSettings) (path : Text) (w : World) :
    ∃ w₁ x w₂, ({ s with strict := false }.build path).exec w = (x, w₂) ∧ w₁.Reported w₂ ∧
      (w.journal = none → w₂.files = w₁.files) ∧
      ((∃ tree failures, x = .ok (tree, failures) ∧
          ({ s with strict := true }.build path).exec w = (severeOutcome tree failures, w₁)) ∨
        ∃ f, x = .error f ∧ f.isDocumentation = false ∧
          ({ s with strict := true }.build path).exec w = (.error f, w₁)) := by
  obtain ⟨y, w₁, hprepare, hquiet, -, hhindered⟩ := exec_prepare s path w
  have hlenient := exec_build { s with strict := false } path w
  have hsevere := exec_build { s with strict := true } path w
  -- the directory is made in the same way whether the walk is strict or not
  have hprepare₀ : (prepare { s with strict := false } path).exec w = (y, w₁) := hprepare
  have hprepare₁ : (prepare { s with strict := true } path).exec w = (y, w₁) := hprepare
  rw [hprepare₀] at hlenient
  rw [hprepare₁] at hsevere
  cases y with
  | error f =>
    obtain ⟨-, hhindrance, -⟩ := hhindered f rfl
    exact ⟨w₁, .error f, w₁, hlenient, .refl w₁, fun _ => rfl,
      Or.inr ⟨f, rfl, hhindrance.isDocumentation, hsevere⟩⟩
  | ok u =>
    cases hrefused : refusal? path with
    | some f =>
      simp only [hrefused] at hlenient hsevere
      exact ⟨w₁, .error f, w₁, hlenient, .refl w₁, fun _ => rfl,
        Or.inr ⟨f, rfl, Files.isDocumentation_of_refusal? hrefused, hsevere⟩⟩
    | none =>
      obtain ⟨tree, failures, hwalk, hhalted⟩ :=
        (s.walk w₁.host).tree_severe path (rootListing w₁ path)
      obtain ⟨w₂, hreports, hreported, hsame⟩ := exec_reportSkipped failures w₁
      have hwalk₀ : (walk { s with strict := false } w₁.host).tree path (rootListing w₁ path) =
          .ok (tree, failures) := hwalk
      have hwalk₁ : (walk { s with strict := true } w₁.host).tree path (rootListing w₁ path) =
          Walk.endingWith (tree, []) failures := hhalted
      simp only [hrefused, hwalk₀, hreports] at hlenient
      simp only [hrefused, hwalk₁] at hsevere
      refine ⟨w₁, .ok (tree, failures), w₂, hlenient, hreported, fun h => (hsame (hquiet h)).2,
        Or.inl ⟨tree, failures, rfl, ?_⟩⟩
      rw [hsevere]
      cases failures <;> rfl

/-- A strict build fails with a directory that cannot be listed exactly if the lenient build in the
same world reports one; the failure then has the path and the wording of the first report, and
otherwise the tree is the same.  What hinders the one build hinders the other, and both leave the same
files, but for the log, which gets the reports. -/
theorem build_strict (s : TreeSettings) (path : Text) (w : World) :
    let lenient := ({ s with strict := false }.build path).exec w
    let severe := ({ s with strict := true }.build path).exec w
    (∀ tree failures, lenient.1 = .ok (tree, failures) →
      ((∃ p reason, severe.1 = .error (.unlistable p reason)) ↔ failures ≠ []) ∧
      (∀ first rest, failures = first :: rest →
        severe.1 = .error (.unlistable first.path first.message)) ∧
      (failures = [] → severe.1 = .ok (tree, []))) ∧
    (∀ f, lenient.1 = .error f → f.isDocumentation = false ∧ severe.1 = .error f) ∧
    severe.2.Reported lenient.2 ∧ (w.journal = none → severe.2.files = lenient.2.files) := by
  intro lenient severe
  obtain ⟨w₁, x, w₂, hlenient, hreported, hsame, houtcome⟩ := exec_build_either s path w
  have hx : lenient = (x, w₂) := hlenient
  rw [hx]
  rcases houtcome with ⟨tree, failures, rfl, hsevere⟩ | ⟨f, rfl, hother, hsevere⟩
  · have hy : severe = (severeOutcome tree failures, w₁) := hsevere
    rw [hy]
    refine ⟨?_, by simp, hreported, fun h => (hsame h).symm⟩
    rintro tree' failures' ⟨⟩
    cases failures with
    | nil =>
      refine ⟨⟨?_, fun h => absurd rfl h⟩, by simp, fun _ => rfl⟩
      rintro ⟨p, reason, hfailed⟩
      cases hfailed
    | cons first rest =>
      refine ⟨⟨fun _ => List.cons_ne_nil first rest, fun _ => ⟨_, _, rfl⟩⟩, ?_, by simp⟩
      rintro first' rest' ⟨⟩
      rfl
  · have hy : severe = (.error f, w₁) := hsevere
    rw [hy]
    refine ⟨by simp, ?_, hreported, fun h => (hsame h).symm⟩
    rintro f' ⟨⟩
    exact ⟨hother, rfl⟩

/-- The strict build of the sample fails with the directory that the lenient one reports. -/
theorem build_strict_sample :
    ((build ⟨true, none, true⟩ "r").exec sampleWorld).1 =
      .error (.unlistable "r/t" (SystemError.message ⟨.accessDenied, "r/t", none⟩)) := by
  have hprepare : (prepare ⟨false, none, true⟩ "r").exec sampleWorld = (.ok (), sampleWorld) := rfl
  have hlenient : ((build ⟨false, none, true⟩ "r").exec sampleWorld).1 =
      .ok (.node [("a" : Text), ("l" : Text)] [.node [("b" : Text)] [], .empty],
        [⟨"r/t", .system ⟨.accessDenied, "r/t", none⟩⟩]) := by
    have hreports : (walk ⟨false, none, true⟩ sampleWorld.host).reportsOf "r"
        (rootListing sampleWorld "r") 0 = [⟨"r/t", .system ⟨.accessDenied, "r/t", none⟩⟩] := by
      have hlist : rootListing sampleWorld "r" = .ok sampleEntries := rfl
      have hs : (walk ⟨false, none, true⟩ sampleWorld.host).reportsBelow "r" 1
          ("s", [("b", .file [])]) = [] := Walk.reportsOf_of_no_limit _ _ _ _ rfl
      have ht : (walk ⟨false, none, true⟩ sampleWorld.host).reportsBelow "r" 1
          ("t", [("c", .file [])]) = [⟨"r/t", .system ⟨.accessDenied, "r/t", none⟩⟩] :=
        Walk.reportsOf_error _ _ _ _
      rw [hlist, Walk.reportsOf_of_no_limit _ _ _ _ rfl]
      show List.flatMap _ [_, _] = _
      simp [hs, ht]
    have hrefused : refusal? ("r" : Text) = none := rfl
    rw [exec_build, hprepare, hrefused]
    simp only
    rw [Walk.tree_eq_treeOf rfl, hreports, treeOf_sample]
    rfl
  exact ((build_strict ⟨true, none, true⟩ "r" sampleWorld).1 _ _ hlenient).2.1 _ _ rfl

end TreeSettings

end EditorDocs
