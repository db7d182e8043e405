import EditorDocs.Proofs.Index.Site
import EditorDocs.Proofs.World.Missing

/-!
# When it makes no difference whether the directory has been made

It makes no difference for the records of some languages whether their directory has been made already
if it is there (`Cache.isSteady_of_liesAt`), or if its path consists of names that a directory can have,
none of which goes up, and the paths of the records are not too long (`Cache.isSteady_of_isName`).
-/

namespace EditorDocs

open FileSystem

namespace FileSystem

/-! ## The path from the root -/

variable {s : State} {p : Path} {d loc : Location} {names : List Name} {l : Landing} {links : Nat}

/-- The names of a path of spelled names are these, behind those of its root. -/
lemma exists_splitOn_text (hnames : ∀ name ∈ p.names, IsName name) (hne : p.names ≠ []) :
    ∃ idle : List Name, (∀ n ∈ idle, (n.isEmpty || n = dot) = true) ∧
      (p.root = .relative → idle = []) ∧ (canonical p.text).splitOn '/' = idle ++ p.names := by
  have hjoin : IsSpelled (Text.join "/" p.names) := isSpelled_join fun n hn => (hnames n hn).toIsSpelled
  have hslash : ("/" : Text) = [('/' : CodePoint)] := by decide
  have hsplit : Text.splitOn '/' (Text.join "/" p.names) = p.names := by
    rw [hslash]
    exact Text.splitOn_join hne fun n hn => (hnames n hn).noSlash
  rw [Path.text_eq_join hne]
  cases p.root with
  | relative => exact ⟨[], by simp, by simp, (congrArg _ hjoin.spelled).trans hsplit⟩
  | absolute =>
    refine ⟨[[]], by decide, by simp, ?_⟩
    refine (congrArg _ (isSpelled_nil.append_slash hjoin).spelled).trans ?_
    rw [Text.splitOn_append_cons, hsplit]
    rfl
  | doubled =>
    have hfirst : IsSpelled "/" := isSpelled_nil.append_slash isSpelled_nil
    refine ⟨[[], []], by decide, by simp, ?_⟩
    refine (congrArg _ (hfirst.append_slash hjoin).spelled).trans ?_
    rw [Text.splitOn_append_cons, hsplit]
    rfl

/-- Names that stay where they are make no difference at a directory. -/
lemma Lands.idle_append {f : Location → Option Fixture} {m : Manner} {idle : List Name}
    (hidle : ∀ n ∈ idle, (n.isEmpty || n = dot) = true) (hloc : f loc = some .directory)
    (h : Lands f m links loc names l) : Lands f m links loc (idle ++ names) l := by
  induction idle with
  | nil => exact h
  | cons n idle ih =>
    exact .idle hloc (hidle n List.mem_cons_self) (ih fun n hn => hidle n (List.mem_cons_of_mem _ hn))

/-- The names down to a directory lead to where others lead from there. -/
lemma Lands.descend {m : Manner} (hm : m.writes = false) {down : Location}
    (hdown : s.frame (loc ++ down) = some .directory) (hnames : ∀ name ∈ down, IsName name)
    (h : Lands s.frame m links (loc ++ down) names l) :
    Lands s.frame m links loc (down ++ names) l := by
  induction down generalizing loc with
  | nil => rwa [List.append_nil] at h
  | cons name down ih =>
    rw [List.append_cons] at hdown h
    have hentry := State.frame_of_append hdown
    have hname := hnames name List.mem_cons_self
    refine .down (State.frame_of_append hentry) ⟨?_, hname.regular.2.2, by simp [hm], ?_⟩ hentry
      (ih hdown (fun n hn => hnames n (List.mem_cons_of_mem _ hn)) h)
    · simp [hname.regular.1, hname.regular.2.1]
    · exact Nat.not_lt.mpr hname.short

/-- A relative path that leads to a directory starts at one. -/
lemma State.LiesAt.frame_home (hp : p.IsProper) (hroot : p.root = .relative)
    (hd : s.LiesAt p.text d) : s.frame s.home = some .directory := by
  obtain ⟨es, hes⟩ := hd
  have hstart := State.frame_start_of_locate hes
  rwa [Path.isRooted_text hp, hroot, if_neg (by simp)] at hstart

/-- The working directory consists of names if there is one. -/
lemma State.isName_home (hs : s.IsNamed) (hhome : s.frame s.home = some .directory) :
    ∀ name ∈ s.home, IsName name := by
  obtain ⟨es, hes⟩ := Node.find?_of_view_directory (view_of_frame hhome)
  have hs : State.IsNamed ⟨s.root, s.home⟩ := hs
  exact fun name hname => isName_of_find? hs hes hname

/-- A relative path of spelled names leads where it leads name by name. -/
lemma State.LiesAt.lands (hnames : ∀ name ∈ p.names, IsName name) (hroot : p.root = .relative)
    (hd : s.LiesAt p.text d) : Lands s.frame .lookup linkLimit s.home p.names (.stop d) := by
  have hrooted : isRooted p.text = false := by
    rw [Path.isRooted_text (isProper_of_isName hnames), hroot]
    rfl
  by_cases hne : p.names = []
  · have hlies := (State.liesAt_iff_of_names_eq_nil (isProper_of_isName hnames) hne
      (List.forall_mem_nil _)).mp hd
    rw [hrooted, if_neg Bool.false_ne_true] at hlies
    rw [hne]
    exact hlies.1
  · obtain ⟨-, -, hlands⟩ := land_eq_ok_iff.mp (State.liesAt_iff.mp hd).1
    obtain ⟨idle, -, hidle, hsplit⟩ := exists_splitOn_text hnames hne
    rwa [hsplit, hidle hroot, hrooted, if_neg Bool.false_ne_true] at hlands

/-- Names that lead from the root to a directory are a path that leads there, unless it is too long. -/
lemma State.liesAt_absolute {names : List Name} (hnames : ∀ name ∈ names, IsName name)
    (hshort : ¬ pathLimit < byteLength (⟨.absolute, names⟩ : Path).text)
    (hlands : Lands s.frame .lookup linkLimit [] names (.stop d)) (hd : s.frame d = some .directory) :
    s.LiesAt (⟨.absolute, names⟩ : Path).text d := by
  have hproper := isProper_of_isName (p := ⟨.absolute, names⟩) hnames
  have hrooted : isRooted (⟨.absolute, names⟩ : Path).text = true := by
    rw [Path.isRooted_text hproper]
    rfl
  by_cases hne : names = []
  · subst hne
    refine (State.liesAt_iff_of_names_eq_nil hproper rfl (List.forall_mem_nil _)).mpr ⟨?_, hd⟩
    rwa [hrooted, if_pos rfl]
  · obtain ⟨idle, hidle, -, hsplit⟩ := exists_splitOn_text (p := ⟨.absolute, names⟩) hnames hne
    refine State.liesAt_iff.mpr ⟨land_eq_ok_iff.mpr ⟨hproper.text_ne_nil, hshort, ?_⟩, hd⟩
    rw [hsplit, hrooted, if_pos rfl]
    exact hlands.idle_append hidle (State.frame_nil hd)

end FileSystem

namespace Cache

variable {c : Cache} {about : Text → Prop} {w : World} {language other : Text} {d : Location}

/-! ## Where temporary files go -/

/-- A path lands at the entry of its last name in a directory, if this is no link, where it looks for
the entry. -/
lemma target_below (f : Location → Option Fixture) (d : Location) (name : Name) :
    (Landing.below f d name).target = d ++ [name] := by
  unfold Landing.below
  split <;> rfl

/-- Where the directory of the temporary files is there, or its path is too long, these are not on the
entries of records. -/
lemma apart_of_temporary (hc : c.directory.IsProper) {s : State}
    (hhome : (⟨.absolute, s.home⟩ : Path).IsProper) (hslash : ('/' : CodePoint) ∉ language) {n : Nat}
    (hpass : Files.IsPassable (c.temporaryPath language s (Files.candidate n ++ ".tmp")))
    (hd : ¬ pathLimit < byteLength (c.temporaryDirectory s).text →
      ∃ d, s.LiesAt (c.temporaryDirectory s).text d) {l : Landing}
    (hland : land s.frame s.home .entry
      (c.temporaryPath language s (Files.candidate n ++ ".tmp")) = .ok l) :
    l.target ≠ d ++ [entryName other] := by
  rw [temporaryPath_eq hc hhome] at hland hpass
  have hregular := isRegular_temporaryName language n
  obtain ⟨-, hshort, -⟩ := land_eq_ok_iff.mp hland
  have hle := byteLength_le_childPath (p := c.temporaryDirectory s) hregular.1
  obtain ⟨d', hd'⟩ := hd (by omega)
  rw [State.land_child (isProper_temporaryDirectory hc hhome) hregular (notMem_temporaryName hslash n)
    hpass.isByteText (isRegular_canonical_temporaryName language n) rfl hd'
    (fun hfollows => by cases hfollows), if_neg hshort] at hland
  split at hland
  · cases hland
  · cases hland
    rw [target_below]
    intro heq
    have hname := (List.cons.inj (List.append_inj' heq rfl).2).1
    rw [entryName_eq, canonical_temporaryName, ← List.append_assoc] at hname
    exact name_ne_temporary _ _ hname.symm

/-- Where no name of the directory of the records goes up, the temporary files are there, too. -/
lemma exists_liesAt_temporaryDirectory {s : State} (hs : s.IsNamed)
    (hnames : ∀ name ∈ c.directory.names, IsName name) (hd : s.LiesAt c.directory.text d)
    (hshort : ¬ pathLimit < byteLength (c.temporaryDirectory s).text) :
    ∃ d, s.LiesAt (c.temporaryDirectory s).text d := by
  have hup : ∀ {names : List Name}, (∀ name ∈ names, IsName name) → (".." : Text) ∉ names :=
    fun h hmem => (h _ hmem).regular.2.2 rfl
  unfold temporaryDirectory at hshort ⊢
  by_cases hroot : c.directory.root = .relative
  · have hhome := hd.frame_home (isProper_of_isName hnames) hroot
    have hhomes := State.isName_home hs hhome
    have hall : ∀ name ∈ s.home ++ c.directory.names, IsName name := fun name hname =>
      (List.mem_append.mp hname).elim (hhomes name) (hnames name)
    rw [Path.append, if_pos hroot, Path.collapse_eq (hup hall)] at hshort ⊢
    have hdown : Lands s.frame .lookup linkLimit [] (s.home ++ c.directory.names) (.stop d) :=
      Lands.descend rfl hhome hhomes (hd.lands hnames hroot)
    exact ⟨d, State.liesAt_absolute hall hshort hdown (State.liesAt_iff.mp hd).2⟩
  · rw [Path.append, if_neg hroot, Path.collapse_eq (hup hnames)]
    exact ⟨d, hd⟩

section Steady

variable (site : c.Site about w) (hhome : w.workingDirectory.IsProper)
include site hhome

/-- If the directory can be made whose records these are, and the temporary files are there, too, then
no record stands on the way to them. -/
lemma Site.apart (hpass : Files.IsPassable c.directory.text) {d : Location}
    (hd : ¬ pathLimit < byteLength (c.temporaryDirectory (c.readied w).files).text →
      ∃ d, (c.readied w).files.LiesAt (c.temporaryDirectory (c.readied w).files).text d)
    (hlanguage : about language) {n : Nat} {l : Landing}
    (hland : land (c.readied w).files.frame (c.readied w).files.home .entry
      (c.temporaryPath language (c.readied w).files (Files.candidate n ++ ".tmp")) = .ok l) :
    l.target ≠ d ++ [entryName other] := by
  have hsimple := site.simple language hlanguage
  have hready := (c.readied_eq w).2.1
  refine apart_of_temporary site.proper ?_ hsimple.noSlash ?_ hd hland
  · rw [hready]
    exact hhome
  · refine isPassable_temporaryPath ?_ hpass hsimple.isPassable n
    rw [hready]
    exact site.sound.home

/-- It makes no difference whether the directory of the records has been made if it is there, and its
path leads to a directory also without the two dots in it. -/
theorem isSteady_of_liesAt (hpass : Files.IsPassable c.directory.text)
    (hd : w.files.LiesAt c.directory.text d) {d' : Location}
    (hd' : w.files.LiesAt (c.temporaryDirectory w.files).text d') : c.IsSteady about w := by
  obtain ⟨hmade, hready⟩ := readied_of_liesAt site.proper hpass hd
  constructor
  · intro f hf
    rw [readiness, hmade] at hf
    cases hf
  · intro language _ m _
    rw [hready]
  · intro language other hlanguage _ d n l _ hland
    exact site.apart hhome hpass (fun _ => ⟨d', by rwa [hready]⟩) hlanguage hland

omit hhome in
/-- Where the directory of the records comes, the paths of these show nothing before and after. -/
lemma Site.glance_of_comes (hpass : Files.IsPassable c.directory.text) {s : State}
    (hcomes : w.files.Comes s c.directory.text) (hlanguage : about language)
    (hshort : ¬ c.IsTooLong language) {m : Manner} (hm : m.writes = false) :
    s.glance m (c.recordPath language).text = .error .noEntry ∧
      w.files.glance m (c.recordPath language).text = .error .noEntry := by
  have hslash := (site.simple language hlanguage).noSlash
  have hpath := isPassable_recordPath hpass (site.simple language hlanguage).isPassable
  obtain ⟨d, hd, hempty⟩ := hcomes.empty
  constructor
  · rw [glance_record site.proper hslash hpath hm hd
      fun _ _ target htarget => by rw [hempty] at htarget; cases htarget]
    rw [hempty, shown, if_neg hshort, Option.elim_none]
  · have hlong : ¬ pathLimit < byteLength (c.recordPath language).text := fun h => hshort (Or.inl h)
    have hbytes := hpath.isByteText
    rw [recordPath_eq c hslash] at hlong hbytes ⊢
    exact hcomes.missing.glance_child (isRegular_recordName language) (notMem_recordName hslash) hbytes
      hlong site.proper hm

/-- It makes no difference whether the directory of the records has been made if its path consists of
spelled names, and the paths of the records are not too long. -/
theorem isSteady_of_isName (hpass : Files.IsPassable c.directory.text)
    (hnames : ∀ name ∈ c.directory.names, IsName name) (hlanguage : about language)
    (hshort : ∀ language, about language → ¬ c.IsTooLong language) : c.IsSteady about w := by
  have hdirectory : ¬ pathLimit < byteLength c.directory.text := by
    have hle := byteLength_le_childPath (p := c.directory) (isRegular_recordName language).1
    have hlong : ¬ pathLimit < byteLength (c.recordPath language).text :=
      fun h => hshort language hlanguage (Or.inl h)
    rw [recordPath_eq c (site.simple language hlanguage).noSlash] at hlong
    omega
  have hnamed : (c.readied w).files.IsNamed := by
    have hkeeps := Files.keepsNames_makePath c.directory w site.named
    rwa [exec_makePath_eq] at hkeeps
  have hapart : ∀ language other, about language → about other → ∀ d n l,
      (c.readied w).files.LiesAt c.directory.text d →
      land (c.readied w).files.frame (c.readied w).files.home .entry
          (c.temporaryPath language (c.readied w).files (Files.candidate n ++ ".tmp")) = .ok l →
        l.target ≠ d ++ [entryName other] := fun language other hlanguage _ d n l hd hland =>
    site.apart hhome hpass (exists_liesAt_temporaryDirectory hnamed hnames hd) hlanguage hland
  rcases Files.exec_makePath_comes hnames hpass hdirectory w with ⟨x, hx⟩ | ⟨s, hs, hcomes⟩
  · -- nothing has changed, and so nothing will
    have hready : c.readied w = w := congrArg Prod.snd hx
    refine ⟨fun f hf => ?_, fun language _ m _ => by rw [hready], hapart⟩
    obtain rfl : x = .error f := (congrArg Prod.fst hx).symm.trans hf
    rw [hready, hx]
  · have hready : c.readied w = w.withFiles s := congrArg Prod.snd hs
    refine ⟨fun f hf => ?_, fun language hlanguage m hm => ?_, hapart⟩
    · cases (congrArg Prod.fst hs).symm.trans hf
    · obtain ⟨hafter, hbefore⟩ :=
        site.glance_of_comes hpass hcomes hlanguage (hshort language hlanguage) hm
      rw [hready, hbefore]
      exact hafter

end Steady

end Cache

end EditorDocs
