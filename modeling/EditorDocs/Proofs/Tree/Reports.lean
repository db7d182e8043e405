import EditorDocs.Proofs.Tree.Places
import Mathlib.Data.List.Nodup

/-!
# What is left empty

A lenient walk leaves a directory empty for two reasons: it cannot be listed, or it lies one level below
the deepest one.  `TreeSettings.LeavesEmpty` says so of the directories that names lead to, without the
walk and its stack.

The walk reports these directories and no others (`TreeSettings.mem_reportsOf_iff`), and none twice
(`TreeSettings.nodup_reportsOf`): what is reported below a subdirectory has a path on which the
subdirectory lies, and a path leads through one subdirectory only.  Whoever collects the reports gets
them in the order in which they are logged, and who collects nothing gets the same tree and the same log
(`TreeSettings.build_reports`).
-/

namespace EditorDocs

open FileSystem (Entries Name Node IsByteText IsName under descend)
open Files (IsPassable Lacks refusal?)

namespace Walk

variable {w : Walk} {depth limit : Nat}

/-- What lies below a level is too deep if this level is the deepest one, or lies below it. -/
lemma limitAt?_eq_some_iff :
    w.limitAt? depth = some limit ↔ limit ∈ w.maxDepth ∧ limit ≤ depth := by
  have hreached : depth + 1 > limit ↔ limit ≤ depth := Nat.lt_succ_iff
  cases hmax : w.maxDepth with
  | none => simp [limitAt?, hmax]
  | some deepest =>
    simp only [limitAt?, hmax, Option.bind_some, Option.ite_none_right_eq_some, Option.some.injEq,
      Option.mem_def]
    constructor
    · rintro ⟨hlevel, rfl⟩
      exact ⟨rfl, hreached.mp hlevel⟩
    · rintro ⟨rfl, hlevel⟩
      exact ⟨hreached.mpr hlevel, rfl⟩

/-- Nothing is too deep if the next level is not below the deepest one. -/
lemma limitAt?_eq_none_iff : w.limitAt? depth = none ↔ ∀ limit ∈ w.maxDepth, depth + 1 ≤ limit := by
  rw [Option.eq_none_iff_forall_ne_some]
  constructor
  · intro h limit hmax
    by_contra hdeep
    exact h limit (limitAt?_eq_some_iff.mpr ⟨hmax, by omega⟩)
  · intro h limit hlimit
    obtain ⟨hmax, hreached⟩ := limitAt?_eq_some_iff.mp hlimit
    have := h limit hmax
    omega

end Walk

namespace TreeSettings

/-! ## Directories that are left empty -/

/-- A walk that starts at a path on a level leaves a directory empty, and this is what it reports. -/
inductive LeavesEmpty (w : World) (maxDepth : Option Nat) (path : Text) (depth : Nat) :
    Skipped → Prop where
  /-- The directory cannot be listed, though it is not too deep for that. -/
  | unlisted {names e} (hleads : Leads w path names)
      (hlevel : ∀ limit ∈ maxDepth, depth + names.length ≤ limit)
      (hlist : rootListing w (descend path names) = .error e) :
      LeavesEmpty w maxDepth path depth ⟨descend path names, .system ⟨e, descend path names, none⟩⟩
  /-- The directory lies one level below the deepest one. -/
  | tooDeep {names limit} (hmax : limit ∈ maxDepth) (hleads : Leads w path names)
      (hlevel : depth + names.length = limit + 1) :
      LeavesEmpty w maxDepth path depth ⟨descend path names, .depth limit⟩

section

variable {w : World} {maxDepth : Option Nat} {path : Text} {depth : Nat} {r : Skipped}

/-- Names lead to the directory. -/
lemma LeavesEmpty.exists_names (h : LeavesEmpty w maxDepth path depth r) :
    ∃ names, Leads w path names ∧ r.path = descend path names := by
  cases h with
  | unlisted hleads hlevel hlist => exact ⟨_, hleads, rfl⟩
  | tooDeep hmax hleads hlevel => exact ⟨_, hleads, rfl⟩

/-- If the directory itself cannot be listed, it is what is left empty. -/
lemma leavesEmpty_iff_of_error {e : Errno} (hlist : rootListing w path = .error e)
    (hlevel : ∀ limit ∈ maxDepth, depth ≤ limit) :
    LeavesEmpty w maxDepth path depth r ↔ r = ⟨path, .system ⟨e, path, none⟩⟩ := by
  have hhere : ∀ {names}, Leads w path names → names = [] := by
    intro names hleads
    cases hleads with
    | here => rfl
    | down hlist' hentry hrest => cases hlist.symm.trans hlist'
  constructor
  · intro h
    cases h with
    | unlisted hleads hlevel' hlist' =>
      obtain rfl := hhere hleads
      cases hlist.symm.trans hlist'
      rfl
    | tooDeep hmax hleads hlevel' =>
      obtain rfl := hhere hleads
      have := hlevel _ hmax
      rw [List.length_nil] at hlevel'
      omega
  · rintro rfl
    exact .unlisted .here hlevel hlist

/-- One level below the deepest one the directory itself is left empty. -/
lemma leavesEmpty_iff_below {limit : Nat} (hmax : limit ∈ maxDepth) :
    LeavesEmpty w maxDepth path (limit + 1) r ↔ r = ⟨path, .depth limit⟩ := by
  constructor
  · intro h
    cases h with
    | unlisted hleads hlevel hlist =>
      have := hlevel limit hmax
      omega
    | @tooDeep names limit' hmax' hleads hlevel =>
      obtain rfl : limit' = limit := Option.mem_unique hmax' hmax
      obtain rfl : names = [] := List.eq_nil_of_length_eq_zero (by omega)
      rfl
  · rintro rfl
    exact .tooDeep hmax .here rfl

/-- If the directory can be listed, what is left empty lies below its subdirectories. -/
lemma leavesEmpty_iff_of_ok {es : Entries} (hlist : rootListing w path = .ok es)
    (hlevel : ∀ limit ∈ maxDepth, depth ≤ limit) :
    LeavesEmpty w maxDepth path depth r ↔
      ∃ d ∈ Walk.subdirectories (Entries.sort w.host.listsBefore es),
        LeavesEmpty w maxDepth (under path d.1) (depth + 1) r := by
  constructor
  · intro h
    cases h with
    | unlisted hleads hlevel' hlist' =>
      cases hleads with
      | here => cases hlist.symm.trans hlist'
      | @down _ _ name es' names hfound hentry hrest =>
        cases hlist.symm.trans hfound
        refine ⟨(name, es'), mem_subdirectories_iff.mpr hentry, ?_⟩
        refine .unlisted hrest (fun limit hmax => ?_) hlist'
        have := hlevel' limit hmax
        rw [List.length_cons] at this
        omega
    | tooDeep hmax hleads hlevel' =>
      cases hleads with
      | here =>
        have := hlevel _ hmax
        rw [List.length_nil] at hlevel'
        omega
      | @down _ _ name es' names hfound hentry hrest =>
        cases hlist.symm.trans hfound
        refine ⟨(name, es'), mem_subdirectories_iff.mpr hentry, .tooDeep hmax hrest ?_⟩
        rw [List.length_cons] at hlevel'
        omega
  · rintro ⟨d, hd, h⟩
    have hentry := mem_subdirectories_iff.mp hd
    cases h with
    | unlisted hleads hlevel' hlist' =>
      refine .unlisted (.down hlist hentry hleads) (fun limit hmax => ?_) hlist'
      have := hlevel' limit hmax
      rw [List.length_cons]
      omega
    | tooDeep hmax hleads hlevel' =>
      refine .tooDeep hmax (.down hlist hentry hleads) ?_
      rw [List.length_cons]
      omega

end

/-! ## What the walk reports -/

section

variable (s : TreeSettings) {w : World} (hw : w.files.IsNamed) {path : Text} {depth : Nat}

include hw

/-- The walk reports what it leaves empty. -/
theorem mem_reportsOf_iff (hpath : IsByteText path) (hlevel : ∀ limit ∈ s.maxDepth, depth ≤ limit)
    {r : Skipped} :
    r ∈ (s.walk w.host).reportsOf path (rootListing w path) depth ↔
      LeavesEmpty w s.maxDepth path depth r := by
  generalize hfound : rootListing w path = found
  induction path, found, depth using Walk.reportsOf.induct (s.walk w.host) with
  | case1 path depth e =>
    rw [Walk.reportsOf_error, List.mem_singleton, leavesEmpty_iff_of_error hfound hlevel]
  | case2 path depth es limit hlimit =>
    obtain ⟨hmax, hreached⟩ := Walk.limitAt?_eq_some_iff.mp hlimit
    obtain rfl : depth = limit := Nat.le_antisymm (hlevel limit hmax) hreached
    rw [Walk.reportsOf_of_limit _ _ _ _ hlimit, leavesEmpty_iff_of_ok hfound hlevel, List.mem_map]
    constructor
    · rintro ⟨d, hd, rfl⟩
      exact ⟨d, hd, (leavesEmpty_iff_below hmax).mpr rfl⟩
    · rintro ⟨d, hd, hr⟩
      exact ⟨d, hd, ((leavesEmpty_iff_below hmax).mp hr).symm⟩
  | case3 path depth es hlimit ih =>
    have hroom := Walk.limitAt?_eq_none_iff.mp hlimit
    rw [Walk.reportsOf_of_no_limit _ _ _ _ hlimit, leavesEmpty_iff_of_ok hfound hlevel,
      List.mem_flatMap]
    refine exists_congr fun d => ?_
    rw [List.mem_reverse]
    refine and_congr_right fun hd => ?_
    obtain ⟨hchild, hbytes⟩ := rootListing_under s hw hpath hfound hd
    exact ih ⟨d, hd⟩ hbytes hroom hchild

/-- What is left empty below different subdirectories has different paths. -/
lemma LeavesEmpty.path_ne {maxDepth : Option Nat} {es : Entries}
    (hlist : rootListing w path = .ok es) {d d' : Name × Entries}
    (hd : d ∈ Walk.subdirectories (Entries.sort w.host.listsBefore es))
    (hd' : d' ∈ Walk.subdirectories (Entries.sort w.host.listsBefore es)) (hne : d.1 ≠ d'.1)
    {r r' : Skipped} (h : LeavesEmpty w maxDepth (under path d.1) depth r)
    (h' : LeavesEmpty w maxDepth (under path d'.1) depth r') : r.path ≠ r'.path := by
  obtain ⟨names, hleads, hpath⟩ := h.exists_names
  obtain ⟨names', hleads', hpath'⟩ := h'.exists_names
  intro hsame
  have hdown : Leads w path (d.1 :: names) := .down hlist (mem_subdirectories_iff.mp hd) hleads
  have hdown' : Leads w path (d'.1 :: names') := .down hlist (mem_subdirectories_iff.mp hd') hleads'
  have hnames := hdown.unique hw hdown' (hpath.symm.trans (hsame.trans hpath'))
  exact hne (List.cons.inj hnames).1

/-- Nothing is reported twice. -/
theorem nodup_reportsOf (hpath : IsByteText path) (hlevel : ∀ limit ∈ s.maxDepth, depth ≤ limit) :
    (((s.walk w.host).reportsOf path (rootListing w path) depth).map Skipped.path).Nodup := by
  have hdifferent : ∀ {path es}, rootListing w path = .ok es →
      (Walk.subdirectories (Entries.sort w.host.listsBefore es)).Pairwise fun d d' => d.1 ≠ d'.1 :=
    fun hlist => List.pairwise_map.mp (nodup_subdirectories (isName_of_rootListing hw hlist).1)
  generalize hfound : rootListing w path = found
  induction path, found, depth using Walk.reportsOf.induct (s.walk w.host) with
  | case1 path depth e =>
    rw [Walk.reportsOf_error]
    exact List.nodup_singleton path
  | case2 path depth es limit hlimit =>
    obtain ⟨hmax, hreached⟩ := Walk.limitAt?_eq_some_iff.mp hlimit
    rw [Walk.reportsOf_of_limit _ _ _ _ hlimit, List.map_map]
    refine List.pairwise_map.mpr ((hdifferent hfound).imp_of_mem fun {d d'} hd hd' hne => ?_)
    exact LeavesEmpty.path_ne hw hfound hd hd' hne
      ((leavesEmpty_iff_below hmax).mpr rfl) ((leavesEmpty_iff_below hmax).mpr rfl)
  | case3 path depth es hlimit ih =>
    have hroom := Walk.limitAt?_eq_none_iff.mp hlimit
    rw [Walk.reportsOf_of_no_limit _ _ _ _ hlimit, List.map_flatMap, List.nodup_flatMap]
    constructor
    · intro d hd
      have hd := List.mem_reverse.mp hd
      obtain ⟨hchild, hbytes⟩ := rootListing_under s hw hpath hfound hd
      exact ih ⟨d, hd⟩ hbytes hroom hchild
    · -- a report below a subdirectory says through which one its path leads
      have hempty : ∀ d ∈ Walk.subdirectories (Entries.sort w.host.listsBefore es),
          ∀ r ∈ (s.walk w.host).reportsBelow path (depth + 1) d,
            LeavesEmpty w s.maxDepth (under path d.1) (depth + 1) r := by
        intro d hd r hr
        obtain ⟨hchild, hbytes⟩ := rootListing_under s hw hpath hfound hd
        rw [Walk.reportsBelow, ← hchild] at hr
        exact (mem_reportsOf_iff s hw hbytes hroom).mp hr
      rw [List.pairwise_reverse]
      refine (hdifferent hfound).imp_of_mem fun {d d'} hd hd' hne => ?_
      intro p hp' hp
      obtain ⟨r, hr, rfl⟩ := List.mem_map.mp hp
      obtain ⟨r', hr', hsame⟩ := List.mem_map.mp hp'
      exact LeavesEmpty.path_ne hw hfound hd hd' hne (hempty d hd r hr) (hempty d' hd' r' hr')
        hsame.symm

end

/-! ## What is logged -/

/-- What was left empty is logged in the order in which it is reported. -/
lemma records_reportSkipped (skipped : List Skipped) (w : World) :
    ((skipped.forM reportSkipped).exec w).2.records = w.records ++ skipped.map Skipped.record := by
  induction skipped generalizing w with
  | nil => exact (List.append_nil w.records).symm
  | cons first rest ih =>
    have hlogged : (reportSkipped first).exec w = (.ok (), w.report first.record) := rfl
    have hall : ((first :: rest).forM reportSkipped).exec w =
        (rest.forM reportSkipped).exec (w.report first.record) := Action.exec_bind_ok hlogged
    have hone : (w.report first.record).records = w.records ++ [first.record] := by
      unfold World.report
      cases w.journal <;> rfl
    rw [hall, ih, hone, List.append_assoc]
    rfl

/-- Whoever collects what was left empty gets the same tree and the same log as who does not. -/
lemma exec_buildCollecting_eq (s : TreeSettings) (path : Text) (collected : Option (List Skipped))
    (w : World) :
    (s.buildCollecting path collected).exec w = match (s.build path).exec w with
      | (.error f, w₂) => (.error f, w₂)
      | (.ok (tree, reports), w₂) => (.ok (tree, collected.map (· ++ reports)), w₂) := by
  rw [exec_build, exec_buildCollecting]
  rcases (s.prepare path).exec w with ⟨f | u, w₁⟩
  · rfl
  · cases refusal? path with
    | some f => rfl
    | none =>
      simp only
      rcases (s.walk w₁.host).tree path (rootListing w₁ path) with first | ⟨tree, skipped⟩ <;> rfl

/-- Making the directory logs no directory that was left empty. -/
lemma records_prepare (s : TreeSettings) (path : Text) (w : World) :
    ∃ earlier, ((s.prepare path).exec w).2.records = w.records ++ earlier ∧
      ∀ r ∈ earlier, r.event ≠ "tree.listing_failed" := by
  unfold prepare
  split
  · obtain ⟨x, files, hx, -, -⟩ := Files.exec_makeDirectories w.host.stack.directories path w
    rw [Action.exec_tryCatch, exec_makeMissing, hx]
    cases x with
    | ok u => exact ⟨[], (List.append_nil _).symm, by simp⟩
    | error f =>
      simp only
      split
      · rename_i e
        refine ⟨[⟨.warning, "tree.create_failed", Context.bind [("component", .string "tree_builder")]
          [("path", .string path), ("error", .string e.message)], none⟩], ?_, ?_⟩
        · show (World.report _ _).records = _
          unfold World.report
          cases hjournal : (w.withFiles files).journal <;> rfl
        · intro r hr
          rw [List.mem_singleton.mp hr]
          show ("tree.create_failed" : Text) ≠ "tree.listing_failed"
          decide
      · exact ⟨[], (List.append_nil _).symm, by simp⟩
  · exact ⟨[], (List.append_nil _).symm, by simp⟩

/-! ## The lenient build -/

/-- A lenient build gives the tree and the reports of the recursion. -/
lemma exec_build_lenient {s : TreeSettings} (hlenient : s.strict = false) {path : Text} {w : World}
    (hpath : IsPassable path)
    (hfew : ¬ (s.createMissing = true ∧ Lacks w.files w.host.stack.directories path)) :
    (s.build path).exec w =
      let w₁ := ((s.prepare path).exec w).2
      let walk := s.walk w₁.host
      let reports := walk.reportsOf path (rootListing w₁ path) 0
      (.ok (walk.cut 0 (walk.treeOf path (rootListing w₁ path)), reports),
        ((reports.forM reportSkipped).exec w₁).2) := by
  rw [exec_build, exec_prepare_ok hpath hfew, Files.refusal?_eq_none_iff.mpr hpath]
  simp only [Walk.tree_eq_treeOf (w := s.walk _) hlenient]

/-- No file can have a surrogate for its path. -/
lemma not_isPassable_surrogate : ¬ IsPassable [⟨0xD800, by decide⟩] := by
  unfold IsPassable
  decide

/-- A lenient build reports each directory that it leaves empty, and no other one, once.  Whether the
reports are collected changes neither the tree nor the log, which holds one record for each of them, in
the order in which they are collected.  If no file can have the path or too many directories are missing
on the way to it, nothing is built, reported or logged. -/
theorem build_reports (maxDepth : Option Nat) (create : Bool) (path : Text) (w : World) :
    let s : TreeSettings := ⟨false, maxDepth, create⟩
    let w₁ := ((s.prepare path).exec w).2
    (IsPassable path ∧ ¬ (create = true ∧ Lacks w.files w.host.stack.directories path) →
      ∃ tree reports w₂ earlier, (s.build path).exec w = (.ok (tree, reports), w₂) ∧
        (∀ collected, (s.buildCollecting path collected).exec w =
          (.ok (tree, collected.map (· ++ reports)), w₂)) ∧
        w₂.records = w.records ++ earlier ++ reports.map Skipped.record ∧
        (∀ r ∈ earlier, r.event ≠ "tree.listing_failed") ∧
        (w.files.IsNamed → (reports.map Skipped.path).Nodup ∧
          ∀ r, r ∈ reports ↔ LeavesEmpty w₁ maxDepth path 0 r)) ∧
    (¬ (IsPassable path ∧ ¬ (create = true ∧ Lacks w.files w.host.stack.directories path)) →
      ∃ f w₂ earlier,
        (∀ collected, (s.buildCollecting path collected).exec w = (.error f, w₂)) ∧
        w₂.records = w.records ++ earlier ∧ ∀ r ∈ earlier, r.event ≠ "tree.listing_failed") := by
  intro s w₁
  obtain ⟨earlier, hearlier, hother⟩ := records_prepare s path w
  constructor
  · rintro ⟨hpath, hfew⟩
    have hbuild := exec_build_lenient (s := s) rfl hpath hfew
    refine ⟨_, _, _, earlier, hbuild, fun collected => ?_, ?_, hother, fun hnamed => ?_⟩
    · rw [exec_buildCollecting_eq, hbuild]
    · rw [records_reportSkipped, hearlier]
    · have hnamed₁ : w₁.files.IsNamed := isNamed_prepare s path hnamed
      have hlevel : ∀ limit ∈ s.maxDepth, 0 ≤ limit := fun limit _ => Nat.zero_le limit
      exact ⟨nodup_reportsOf s hnamed₁ hpath.isByteText hlevel,
        fun r => mem_reportsOf_iff s hnamed₁ hpath.isByteText hlevel⟩
  · intro h
    obtain ⟨f, hbuild⟩ := exec_build_hindered h
    refine ⟨f, w₁, earlier, fun collected => ?_, hearlier, hother⟩
    rw [exec_buildCollecting_eq, hbuild]

/-- In the sample the directory that cannot be listed is reported, and it makes no difference that nobody
collects this.  Under a path that no file can have nothing is built. -/
theorem build_reports_sample :
    (∃ tree reports w₂, (build ⟨false, none, true⟩ "r").exec sampleWorld = (.ok (tree, reports), w₂) ∧
      (buildCollecting ⟨false, none, true⟩ "r" none).exec sampleWorld = (.ok (tree, none), w₂) ∧
      (reports.map Skipped.path).Nodup ∧
      (⟨"r/t", .system ⟨.accessDenied, "r/t", none⟩⟩ : Skipped) ∈ reports) ∧
    ∃ f w₂, (buildCollecting ⟨false, none, true⟩ [⟨0xD800, by decide⟩] none).exec sampleWorld =
      (.error f, w₂) := by
  have hprepare : ((prepare ⟨false, none, true⟩ "r").exec sampleWorld).2 = sampleWorld := rfl
  constructor
  · obtain ⟨tree, reports, w₂, earlier, hbuild, hcollect, -, -, hreports⟩ :=
      (build_reports none true "r" sampleWorld).1 buildable_sample
    obtain ⟨hnodup, hmem⟩ := hreports isNamed_sample
    rw [hprepare] at hmem
    have hroot : rootListing sampleWorld "r" = .ok sampleEntries := rfl
    have hentry : (("t" : Text), Node.directory [(("c" : Text), .file [])]) ∈ sampleEntries := by
      simp [sampleEntries]
    have hleads : Leads sampleWorld "r" ["t"] := .down hroot hentry .here
    have hempty : LeavesEmpty sampleWorld none "r" 0 _ := .unlisted hleads (by simp) rfl
    exact ⟨tree, reports, w₂, hbuild, hcollect none, hnodup, (hmem _).mpr hempty⟩
  · obtain ⟨f, w₂, earlier, hbuild, -⟩ :=
      (build_reports none true [⟨0xD800, by decide⟩] sampleWorld).2 fun h =>
        not_isPassable_surrogate h.1
    exact ⟨f, w₂, hbuild none⟩

end TreeSettings

end EditorDocs
