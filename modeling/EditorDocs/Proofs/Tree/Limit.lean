import EditorDocs.Proofs.Tree.Reports
import Mathlib.Data.List.Dedup
import Mathlib.Logic.Relation

/-!
# A deepest level cuts the tree

With a deepest level a build gives the tree that the build without one gives, cut below this level, and
what it reports is what the other one reports down to this level, and each directory one level below.

Both builds leave directories empty by the same rule (`TreeSettings.LeavesEmpty`), so their reports are
compared as sets, down to the deepest level (`TreeSettings.leavesEmpty_iff_of_liesWithin`) and below it
(`TreeSettings.LeavesEmpty.eq_of_not_liesWithin`); since nothing is reported twice, this determines them
up to order (`TreeSettings.perm_reportsOf_limited`).

That nothing is listed below the deepest level is a fact about the stack.  `Walk.next` is one round of a
lenient walk: the rounds end with the result of the walk (`Walk.exists_reaches_end`), and every directory
that is on the stack in between lies on the level that its task carries
(`TreeSettings.fits_of_reaches`).
-/

namespace EditorDocs

open FileSystem (Entries Name Node IsByteText under)
open Files (IsPassable Lacks)

namespace Walk

/-! ## Rounds -/

/-- Where a walk stands: what is left to do, the trees that are there and the reports that were made. -/
structure Stage where
  /-- What is left to do. -/
  tasks : List Task
  /-- The trees that are there. -/
  trees : List DirTree
  /-- The reports that were made. -/
  reports : List Skipped

/-- One round of a lenient walk, in which the task on top of the stack is done. -/
def next (w : Walk) : Stage → Option Stage
  | ⟨[], _, _⟩ => none
  | ⟨.gather files count :: tasks, trees, reports⟩ =>
    some ⟨tasks, .node files (trees.take count) :: trees.drop count, reports⟩
  | ⟨.visit path (.error e) _ :: tasks, trees, reports⟩ =>
    some ⟨tasks, .empty :: trees, reports ++ [⟨path, .system ⟨e, path, none⟩⟩]⟩
  | ⟨.visit path (.ok es) depth :: tasks, trees, reports⟩ =>
    let dirs := subdirectories (Entries.sort w.listsBefore es)
    let files := fileNames (Entries.sort w.listsBefore es)
    match w.limitAt? depth with
    | some limit =>
      let skipped := dirs.map fun d => (⟨under path d.1, .depth limit⟩ : Skipped)
      some ⟨tasks, .node files (skipped.map fun _ => .empty) :: trees, reports ++ skipped⟩
    | none => some ⟨Task.push w path (depth + 1) dirs (.gather files dirs.length :: tasks), trees,
        reports⟩

/-- Rounds lead from one stage to another. -/
def Reaches (w : Walk) : Stage → Stage → Prop :=
  Relation.ReflTransGen fun a b => w.next a = some b

/-- The rounds of a lenient walk end, and what is there at the end is its result. -/
theorem exists_reaches_end {w : Walk} (hw : w.strict = false) (tasks : List Task)
    (trees : List DirTree) (reports : List Skipped) :
    ∃ trees' reports', w.Reaches ⟨tasks, trees, reports⟩ ⟨[], trees', reports'⟩ ∧
      w.run tasks trees reports = .ok (trees', reports') := by
  induction tasks, trees, reports using run.induct w with
  | case1 done reports => exact ⟨done, reports, .refl, by rw [run]⟩
  | case2 files count tasks done reports ih =>
    obtain ⟨trees', reports', hreaches, hrun⟩ := ih
    exact ⟨trees', reports', .head rfl hreaches, by rw [run, hrun]⟩
  | case3 path e depth tasks done reports hstrict => exact absurd (hstrict.symm.trans hw) (by decide)
  | case4 path e depth tasks done reports skipped hstrict ih =>
    obtain ⟨trees', reports', hreaches, hrun⟩ := ih
    exact ⟨trees', reports', .head rfl hreaches, by rw [run, if_neg hstrict, hrun]⟩
  | case5 path es depth tasks done reports listed limit hlimit skipped s rest hskipped hstrict =>
    exact absurd (hstrict.symm.trans hw) (by decide)
  | case6 path es depth tasks done reports listed files limit hlimit skipped tree hlast ih =>
    obtain ⟨trees', reports', hreaches, hrun⟩ := ih
    have hnext : w.next ⟨.visit path (.ok es) depth :: tasks, done, reports⟩ =
        some ⟨tasks, tree :: done, reports ++ skipped⟩ := by
      simp only [next, hlimit]
      rfl
    refine ⟨trees', reports', .head hnext hreaches, ?_⟩
    rw [run]
    simp only [hlimit, hw]
    exact hrun
  | case7 path es depth tasks done reports listed files hlimit dirs ih =>
    obtain ⟨trees', reports', hreaches, hrun⟩ := ih
    have hnext : w.next ⟨.visit path (.ok es) depth :: tasks, done, reports⟩ =
        some ⟨Task.push w path (depth + 1) dirs (.gather files dirs.length :: tasks), done,
          reports⟩ := by
      simp only [next, hlimit]
      rfl
    refine ⟨trees', reports', .head hnext hreaches, ?_⟩
    rw [run]
    simp only [hlimit]
    exact hrun

/-- What is put on the stack are visits of the subdirectories. -/
lemma Task.mem_push {w : Walk} {path : Text} {depth : Nat} {dirs : List (Name × Entries)}
    {stack : List Task} {task : Task} (h : task ∈ push w path depth dirs stack) :
    task ∈ stack ∨ ∃ d ∈ dirs,
      task = .visit (under path d.1) (w.listing (under path d.1) d.2) depth := by
  induction dirs generalizing stack with
  | nil => exact Or.inl h
  | cons d rest ih =>
    rcases ih h with hstack | ⟨d', hd', rfl⟩
    · rcases List.mem_cons.mp hstack with rfl | hbelow
      · exact Or.inr ⟨d, List.mem_cons_self, rfl⟩
      · exact Or.inl hbelow
    · exact Or.inr ⟨d', List.mem_cons_of_mem d hd', rfl⟩

end Walk

namespace TreeSettings

/-! ## What is on the stack -/

section

variable (s : TreeSettings) (w : World) (path : Text)

/-- A directory that is to be visited lies on the level that the task carries, which is not below the
deepest one, and what the task carries besides is what is listed under its path. -/
def Fits : Walk.Task → Prop
  | .visit p found depth => LiesAt w path depth p ∧ (∀ limit ∈ s.maxDepth, depth ≤ limit) ∧
      IsByteText p ∧ rootListing w p = found
  | .gather _ _ => True

variable {s w path}

/-- A round leaves only tasks of this kind on the stack. -/
lemma fits_next (hw : w.files.IsNamed) {a b : Walk.Stage} (h : (s.walk w.host).next a = some b)
    (ha : ∀ task ∈ a.tasks, Fits s w path task) : ∀ task ∈ b.tasks, Fits s w path task := by
  obtain ⟨tasks, trees, reports⟩ := a
  cases tasks with
  | nil => cases h
  | cons first rest =>
    obtain ⟨hfirst, hrest⟩ := List.forall_mem_cons.mp ha
    cases first with
    | gather files count =>
      cases h
      exact hrest
    | visit p found depth =>
      obtain ⟨hlies, hlevel, hbytes, hlist⟩ := hfirst
      cases found with
      | error e =>
        cases h
        exact hrest
      | ok es =>
        simp only [Walk.next] at h
        cases hlimit : (s.walk w.host).limitAt? depth with
        | some limit =>
          rw [hlimit] at h
          cases h
          exact hrest
        | none =>
          rw [hlimit] at h
          cases h
          intro task htask
          rcases Walk.Task.mem_push htask with hstack | ⟨d, hd, rfl⟩
          · rcases List.mem_cons.mp hstack with rfl | hbelow
            · trivial
            · exact hrest task hbelow
          · obtain ⟨hchild, hbytes'⟩ := rootListing_under s hw hbytes hlist hd
            exact ⟨hlies.under hlist (mem_subdirectories_iff.mp hd),
              Walk.limitAt?_eq_none_iff.mp hlimit, hbytes', hchild⟩

/-- There are only tasks of this kind on the stack, as far as rounds lead. -/
theorem fits_of_reaches (hw : w.files.IsNamed) {a b : Walk.Stage}
    (h : (s.walk w.host).Reaches a b) (ha : ∀ task ∈ a.tasks, Fits s w path task) :
    ∀ task ∈ b.tasks, Fits s w path task := by
  induction h with
  | refl => exact ha
  | tail hbefore hround ih => exact fits_next hw hround ih

end

/-! ## What is reported -/

/-- The directory lies on the deepest level or above it. -/
def LiesWithin (w : World) (path : Text) (limit : Nat) (p : Text) : Prop :=
  ∃ level ≤ limit, LiesAt w path level p

section

variable {w : World} (hw : w.files.IsNamed) {path : Text} {limit : Nat}

include hw

/-- A directory one level below the deepest one does not lie above that. -/
lemma LiesAt.not_liesWithin {p : Text} (h : LiesAt w path (limit + 1) p) :
    ¬ LiesWithin w path limit p := by
  rintro ⟨level, hlevel, hlies⟩
  have := h.unique hw hlies
  omega

/-- Down to the deepest level, what is left empty with it is what is left empty without it. -/
lemma leavesEmpty_iff_of_liesWithin {r : Skipped} (h : LiesWithin w path limit r.path) :
    LeavesEmpty w (some limit) path 0 r ↔ LeavesEmpty w none path 0 r := by
  constructor
  · intro hempty
    cases hempty with
    | unlisted hleads hlevel hlist => exact .unlisted hleads (by simp) hlist
    | @tooDeep names limit' hmax hleads hlevel =>
      cases hmax
      have hbelow : LiesAt w path (limit + 1) _ := ⟨names, hleads, by omega, rfl⟩
      exact absurd h (hbelow.not_liesWithin hw)
  · intro hempty
    cases hempty with
    | @unlisted names e hleads hnone hlist =>
      obtain ⟨level, hlevel, hlies⟩ := h
      obtain rfl := hlies.unique hw ⟨names, hleads, rfl, rfl⟩
      refine .unlisted hleads (fun limit' hmax => ?_) hlist
      cases hmax
      rwa [Nat.zero_add]
    | tooDeep hmax hleads hdeep => cases hmax

omit hw in
/-- What is left empty with a deepest level and does not lie above it lies one level below. -/
lemma LeavesEmpty.eq_of_not_liesWithin {r : Skipped} (h : LeavesEmpty w (some limit) path 0 r)
    (hnot : ¬ LiesWithin w path limit r.path) :
    ∃ p, LiesAt w path (limit + 1) p ∧ r = ⟨p, .depth limit⟩ := by
  cases h with
  | @unlisted names e hleads hlevel hlist =>
    have hhigh := hlevel limit rfl
    rw [Nat.zero_add] at hhigh
    exact absurd ⟨names.length, hhigh, names, hleads, rfl, rfl⟩ hnot
  | @tooDeep names limit' hmax hleads hlevel =>
    cases hmax
    rw [Nat.zero_add] at hlevel
    exact ⟨_, ⟨names, hleads, hlevel, rfl⟩, rfl⟩

/-- The reports with a deepest level are, up to order, those without one down to this level, and one for
each directory one level below. -/
theorem perm_reportsOf_limited (create : Bool) (hpath : IsByteText path) :
    ∃ (above below : List Skipped) (deep : List Text),
      ((walk ⟨false, none, create⟩ w.host).reportsOf path (rootListing w path) 0).Perm
        (above ++ below) ∧
      ((walk ⟨false, some limit, create⟩ w.host).reportsOf path (rootListing w path) 0).Perm
        (above ++ deep.map fun p => ⟨p, .depth limit⟩) ∧
      (∀ r ∈ above, ∃ level ≤ limit, LiesAt w path level r.path) ∧
      (∀ r ∈ below, ∃ level > limit, LiesAt w path level r.path) ∧
      deep.Nodup ∧ ∀ p, p ∈ deep ↔ LiesAt w path (limit + 1) p := by
  classical
  have hmem := fun maxDepth (r : Skipped) => mem_reportsOf_iff ⟨false, maxDepth, create⟩ hw hpath
    (fun l _ => Nat.zero_le l) (r := r)
  have hnodup := fun maxDepth => nodup_reportsOf ⟨false, maxDepth, create⟩ hw hpath
    (fun l _ => Nat.zero_le l)
  generalize hall : (walk ⟨false, none, create⟩ w.host).reportsOf path (rootListing w path) 0 = all
  generalize hnear : (walk ⟨false, some limit, create⟩ w.host).reportsOf path (rootListing w path) 0 =
    near
  have hmemall : ∀ r, r ∈ all ↔ LeavesEmpty w none path 0 r := hall ▸ hmem none
  have hmemnear : ∀ r, r ∈ near ↔ LeavesEmpty w (some limit) path 0 r := hnear ▸ hmem (some limit)
  have hnodupall : (all.map Skipped.path).Nodup := hall ▸ hnodup none
  have hnodupnear : (near.map Skipped.path).Nodup := hnear ▸ hnodup (some limit)
  let high : Skipped → Bool := fun r => decide (LiesWithin w path limit r.path)
  have hhigh : ∀ {r}, high r = true ↔ LiesWithin w path limit r.path := decide_eq_true_iff
  have hlow : ∀ {r}, (!high r) = true ↔ ¬ LiesWithin w path limit r.path := by
    intro r
    rw [Bool.not_eq_true', decide_eq_false_iff_not]
  -- what is reported with a limit and not above it is there because of the limit
  have hdeep : ∀ r ∈ near.filter (!high ·), ∃ p, LiesAt w path (limit + 1) p ∧
      r = ⟨p, .depth limit⟩ := by
    intro r hr
    obtain ⟨hr, hnot⟩ := List.mem_filter.mp hr
    exact ((hmemnear r).mp hr).eq_of_not_liesWithin (hlow.mp hnot)
  have hsame : (near.filter high).Perm (all.filter high) := by
    refine (List.perm_ext_iff_of_nodup ((hnodupnear.of_map _).filter _)
      ((hnodupall.of_map _).filter _)).mpr fun r => ?_
    rw [List.mem_filter, List.mem_filter, hmemnear, hmemall, hhigh]
    exact and_congr_left (leavesEmpty_iff_of_liesWithin hw)
  have hpaths : ((near.filter (!high ·)).map Skipped.path).map
      (fun p => (⟨p, .depth limit⟩ : Skipped)) = near.filter (!high ·) := by
    rw [List.map_map]
    refine (List.map_congr_left fun r hr => ?_).trans (List.map_id _)
    obtain ⟨p, -, rfl⟩ := hdeep r hr
    rfl
  refine ⟨all.filter high, all.filter (!high ·), (near.filter (!high ·)).map Skipped.path,
    (List.filter_append_perm high all).symm, ?_, ?_, ?_, ?_, ?_⟩
  · rw [hpaths]
    exact (List.filter_append_perm high near).symm.trans (hsame.append_right _)
  · exact fun r hr => hhigh.mp (List.mem_filter.mp hr).2
  · intro r hr
    obtain ⟨hr, hnot⟩ := List.mem_filter.mp hr
    obtain ⟨names, hleads, hnames⟩ := ((hmemall r).mp hr).exists_names
    have hlies : LiesAt w path names.length r.path := ⟨names, hleads, rfl, hnames.symm⟩
    exact ⟨names.length, Nat.lt_of_not_le fun hle => hlow.mp hnot ⟨_, hle, hlies⟩, hlies⟩
  · exact hnodupnear.sublist (List.filter_sublist.map Skipped.path)
  · intro p
    rw [List.mem_map]
    constructor
    · rintro ⟨r, hr, rfl⟩
      obtain ⟨p, hlies, rfl⟩ := hdeep r hr
      exact hlies
    · intro hlies
      have hnot := hlies.not_liesWithin hw
      obtain ⟨names, hleads, hlevel, rfl⟩ := hlies
      have hempty : LeavesEmpty w (some limit) path 0 ⟨_, .depth limit⟩ :=
        .tooDeep rfl hleads (by omega)
      exact ⟨_, List.mem_filter.mpr ⟨(hmemnear _).mpr hempty, hlow.mpr hnot⟩, rfl⟩

end

/-! ## The build -/

/-- The tree of the recursion is the same for all settings. -/
lemma treeOf_walk (s s' : TreeSettings) (h : Host) (path : Text) (found : Except Errno Entries) :
    (s.walk h).treeOf path found = (s'.walk h).treeOf path found := by
  refine Walk.treeOf_congr ?_ ?_ path found <;> rfl

/-- A lenient build with a deepest level gives the tree that the build without one gives, cut below this
level.  Its reports are, up to order, those of the other one down to this level, and one for each
directory one level below.  No directory is visited on the way that lies deeper than the limit.  Where
the one build fails, so does the other. -/
theorem build_limited (limit : Nat) (create : Bool) (path : Text) (w : World) :
    let whole : TreeSettings := ⟨false, none, create⟩
    let s : TreeSettings := ⟨false, some limit, create⟩
    let w₁ := ((s.prepare path).exec w).2
    let start : Walk.Stage := ⟨[.visit path (rootListing w₁ path) 0], [], []⟩
    (∀ tree reports w₂, (whole.build path).exec w = (.ok (tree, reports), w₂) →
      ∃ reports' w₂', (s.build path).exec w = (.ok (tree.prune limit, reports'), w₂') ∧
        (s.walk w₁.host).Reaches start ⟨[], [tree.prune limit], reports'⟩ ∧
        (w.files.IsNamed →
          (∃ (above below : List Skipped) (deep : List Text),
            reports.Perm (above ++ below) ∧
            reports'.Perm (above ++ deep.map fun p => ⟨p, .depth limit⟩) ∧
            (∀ r ∈ above, ∃ level ≤ limit, LiesAt w₁ path level r.path) ∧
            (∀ r ∈ below, ∃ level > limit, LiesAt w₁ path level r.path) ∧
            deep.Nodup ∧ ∀ p, p ∈ deep ↔ LiesAt w₁ path (limit + 1) p) ∧
          ∀ stage, (s.walk w₁.host).Reaches start stage → ∀ p found depth,
            Walk.Task.visit p found depth ∈ stage.tasks → ∃ level ≤ limit, LiesAt w₁ path level p)) ∧
    ∀ f w₂, (whole.build path).exec w = (.error f, w₂) → (s.build path).exec w = (.error f, w₂) := by
  intro whole s w₁ start
  by_cases hbuilt : IsPassable path ∧ ¬ (create = true ∧ Lacks w.files w.host.stack.directories path)
  · have hwhole := exec_build_lenient (s := whole) rfl hbuilt.1 hbuilt.2
    have htree : (s.walk w₁.host).cut 0 ((s.walk w₁.host).treeOf path (rootListing w₁ path)) =
        ((whole.walk w₁.host).treeOf path (rootListing w₁ path)).prune limit := by
      rw [treeOf_walk s whole]
      rfl
    have hlimited := exec_build_lenient (s := s) rfl hbuilt.1 hbuilt.2
    dsimp only at hlimited
    rw [htree] at hlimited
    constructor
    · intro tree reports w₂ h
      rw [hwhole] at h
      cases h
      refine ⟨_, _, hlimited, ?_, fun hnamed => ?_⟩
      · obtain ⟨trees, reports', hreaches, hrun⟩ := Walk.exists_reaches_end (w := s.walk w₁.host) rfl
          [.visit path (rootListing w₁ path) 0] [] []
        rw [Walk.run_visit rfl, Walk.run, htree] at hrun
        cases hrun
        exact hreaches
      · have hnamed₁ : w₁.files.IsNamed := isNamed_prepare s path hnamed
        have hbytes := hbuilt.1.isByteText
        refine ⟨perm_reportsOf_limited hnamed₁ create hbytes, fun stage hstage p found depth hp => ?_⟩
        have hstart : ∀ task ∈ start.tasks, Fits s w₁ path task := by
          intro task htask
          obtain rfl := List.mem_singleton.mp htask
          exact ⟨⟨[], .here, rfl, rfl⟩, fun l _ => Nat.zero_le l, hbytes, rfl⟩
        obtain ⟨hlies, hlevel, -⟩ := fits_of_reaches hnamed₁ hstage hstart _ hp
        exact ⟨depth, hlevel limit rfl, hlies⟩
    · intro f w₂ h
      rw [hwhole] at h
      cases h
  · obtain ⟨f, hfails⟩ := exec_build_hindered hbuilt
    have hwhole : (whole.build path).exec w = (.error f, w₁) := hfails false none
    have hlimited : (s.build path).exec w = (.error f, w₁) := hfails false (some limit)
    constructor
    · intro tree reports w₂ h
      rw [hwhole] at h
      cases h
    · intro f' w₂ h
      rw [hwhole] at h
      cases h
      exact hlimited

/-- In the sample a build that does not go below the directory itself leaves its subdirectories empty and
reports one that can be listed.  Under a path that no file can have both builds fail. -/
theorem build_limited_sample :
    (∃ reports w₂, (build ⟨false, some 0, true⟩ "r").exec sampleWorld =
        (.ok (.node [("a" : Text), ("l" : Text)] [.empty, .empty], reports), w₂) ∧
      (⟨"r/s", .depth 0⟩ : Skipped) ∈ reports) ∧
    ∃ f w₂, (build ⟨false, some 0, true⟩ [⟨0xD800, by decide⟩]).exec sampleWorld = (.error f, w₂) := by
  have hprepare : ∀ maxDepth, ((prepare ⟨false, maxDepth, true⟩ "r").exec sampleWorld).2 = sampleWorld :=
    fun _ => rfl
  constructor
  · have hwhole := exec_build_lenient (s := ⟨false, none, true⟩) rfl buildable_sample.1 buildable_sample.2
    simp only [hprepare, treeOf_sample] at hwhole
    obtain ⟨reports, w₂, hbuild, -, hreports⟩ :=
      (build_limited 0 true "r" sampleWorld).1 _ _ _ hwhole
    obtain ⟨above, below, deep, -, hperm, -, -, -, hdeep⟩ := (hreports isNamed_sample).1
    rw [hprepare] at hdeep
    have hroot : rootListing sampleWorld "r" = .ok sampleEntries := rfl
    have hentry : (("s" : Text), Node.directory [(("b" : Text), .file [])]) ∈ sampleEntries := by
      simp [sampleEntries]
    have hlies : LiesAt sampleWorld "r" 1 "r/s" := ⟨["s"], .down hroot hentry .here, rfl, rfl⟩
    have hmem := List.mem_append_right above
      (List.mem_map_of_mem (f := fun p => (⟨p, .depth 0⟩ : Skipped)) ((hdeep _).mpr hlies))
    exact ⟨reports, w₂, hbuild, hperm.symm.subset hmem⟩
  · have hhindered : ¬ (IsPassable [⟨0xD800, by decide⟩] ∧
        ¬ (true = true ∧ Lacks sampleWorld.files sampleWorld.host.stack.directories [⟨0xD800, by decide⟩])) :=
      fun h => not_isPassable_surrogate h.1
    obtain ⟨f, hfails⟩ := exec_build_hindered hhindered
    exact ⟨f, _, (build_limited 0 true _ sampleWorld).2 f _ (hfails false none)⟩

end TreeSettings

end EditorDocs
