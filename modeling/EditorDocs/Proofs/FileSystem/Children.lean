import EditorDocs.Proofs.FileSystem.Names
import EditorDocs.Proofs.FileSystem.Ways

/-!
# Entries of a directory

A path with one more name behind it leads to the entry of that name in the directory to which the path
leads, and nowhere else (`State.locate_child`).  What it shows is decided by this entry alone, unless
that is a symbolic link (`State.glance_child`).

Both rest on how names are followed: the last of them leads from a directory to which the others lead
(`Lands.last`), and names that lead to a directory are followed on from it (`Lands.landAfter_append`),
whereas behind a name that is missing no others count (`Lands.edge_append`).  A directory is made where
its path led to a vacancy, and then its path leads there (`State.land_of_makeDirectory`).
-/

namespace EditorDocs.FileSystem

/-! ## The last name and the others -/

/-- Where a name leads from a directory, if it is not followed through a link. -/
def Landing.below (f : Location → Option Fixture) (d : Location) (name : Name) : Landing :=
  if f (d ++ [name]) = none then .edge d name [] else .stop (d ++ [name])

section Last

variable {f : Location → Option Fixture} {links : Nat} {loc d : Location} {names : List Name}
  {name : Name} {l : Landing}

/-- Names that end regularly lead to the entry of the last name in a directory to which the others
lead. -/
lemma Lands.last (h : Lands f .entry links loc (names ++ [name]) l) (hname : IsRegular name)
    (harrives : l.Arrives) :
    ∃ d, Lands f .lookup links loc names (.stop d) ∧ f d = some .directory ∧
      l = .below f d name := by
  obtain ⟨d, left, hd, hdirectory, hlast⟩ := h.split rfl (List.cons_ne_nil _ _) harrives
  refine ⟨d, hd, hdirectory, ?_⟩
  cases hlast with
  | off hnone =>
    rw [hdirectory] at hnone
    cases hnone
  | idle _ hidle _ => simp [hname.1, hname.2.1] at hidle
  | up _ _ => exact absurd rfl hname.2.2
  | edge _ _ hentry => rw [Landing.below, if_pos hentry]
  | down _ _ hentry hrest =>
    cases hrest with
    | stop _ => rw [Landing.below, hentry, if_neg (by simp)]
    | off hnone =>
      rw [hentry] at hnone
      cases hnone
  | link _ _ hentry _ => rw [Landing.below, hentry, if_neg (by simp)]
  | through _ _ _ hfollowed _ => exact absurd rfl hfollowed

/-- Names behind such as lead to a directory are followed from this directory, with fewer links at
most. -/
lemma Lands.landAfter_append {m : Manner} (hm : m.writes = false)
    (h : Lands f .lookup links loc names (.stop d)) {further : List Name}
    (hfurther : further ≠ []) :
    ∃ left ≤ links, landAfter f m links loc (names ++ further) = landAfter f m left d further := by
  generalize hl : Landing.stop d = l at h
  induction h with
  | stop hloc =>
    cases hl
    exact ⟨_, Nat.le_refl _, rfl⟩
  | off hloc => cases hl
  | @idle links loc name rest l hloc hidle hrest ih =>
    obtain ⟨left, hleft, hsame⟩ := ih hl
    refine ⟨left, hleft, ?_⟩
    rw [landAfter_eq_landWith] at hsame ⊢
    rw [List.cons_append, landWith, hloc]
    simp only [hidle, if_true]
    exact hsame
  | @up links loc rest l hloc hrest ih =>
    obtain ⟨left, hleft, hsame⟩ := ih hl
    refine ⟨left, hleft, ?_⟩
    rw [landAfter_eq_landWith] at hsame ⊢
    rw [List.cons_append, landWith, hloc]
    simp only
    rw [if_neg (by decide), if_pos trivial]
    exact hsame
  | edge hloc hpass hentry => cases hl
  | @down links loc name rest l hloc hpass hentry hrest ih =>
    obtain ⟨left, hleft, hsame⟩ := ih hl
    refine ⟨left, hleft, ?_⟩
    rw [landAfter_eq_landWith] at hsame ⊢
    rw [List.cons_append, landWith_of_passes hloc (hpass.of_reads hm), hentry]
    exact hsame
  | link hloc hpass hentry hlast => simp [Manner.lookup] at hlast
  | @through links loc name rest target l hloc hpass hentry hfollowed hrest ih =>
    obtain ⟨left, hleft, hsame⟩ := ih hl
    refine ⟨left, Nat.le_succ_of_le hleft, ?_⟩
    rw [landAfter_eq_landWith, List.cons_append,
      landWith_of_passes hloc (hpass.of_reads hm), hentry]
    simp only
    rw [if_neg (by simp [hfurther]), ← hsame, List.append_assoc]
    rfl

/-- Names behind such as lead to a name that is neither that of a directory nor that of a link remain
there. -/
lemma Lands.edge_append {m : Manner} (hm : m.writes = false) {parent : Location} {rest : List Name}
    (h : Lands f .lookup links loc names (.edge parent name rest)) {further : List Name}
    (hfurther : further ≠ []) :
    Lands f m links loc (names ++ further) (.edge parent name (rest ++ further)) := by
  generalize hl : Landing.edge parent name rest = l at h
  induction h with
  | stop hloc => cases hl
  | off hloc => cases hl
  | idle hloc hidle hbehind ih => exact .idle hloc hidle (ih hl)
  | up hloc hbehind ih => exact .up hloc (ih hl)
  | edge hloc hpass hentry =>
    cases hl
    exact .edge hloc (hpass.of_reads hm) hentry
  | down hloc hpass hentry hbehind ih => exact .down hloc (hpass.of_reads hm) hentry (ih hl)
  | link hloc hpass hentry hlast => simp [Manner.lookup] at hlast
  | through hloc hpass hentry hfollowed hbehind ih =>
    refine .through hloc (hpass.of_reads hm) hentry (by simp [hfurther]) ?_
    have hsame := ih hl
    rwa [List.append_assoc] at hsame

/-- A regular name leads from a directory to its entry, unless it is too long or that of a link which
is replaced. -/
lemma landAfter_singleton {m : Manner} (hname : IsRegular name) (hd : f d = some .directory)
    (hlink : m.followsLast = true → ¬ nameLimit < byteLength name → ∀ target,
      f (d ++ [name]) ≠ some (.link target)) :
    landAfter f m links d [name] =
      if nameLimit < byteLength name then .error .nameTooLong else .ok (.below f d name) := by
  have hidle : ¬ (name.isEmpty || name = dot) = true := by
    simp [hname.1, hname.2.1]
  rw [landAfter_eq_landWith]
  by_cases hlong : nameLimit < byteLength name
  · rw [if_pos hlong, landWith, hd]
    simp only
    rw [if_neg hidle, if_neg hname.2.2, if_neg (by simp), if_pos hlong]
  · rw [if_neg hlong, landWith_of_passes hd ⟨hidle, hname.2.2, by simp, hlong⟩, Landing.below]
    cases hentry : f (d ++ [name]) with
    | none => rfl
    | some x =>
      cases x with
      | directory => simp [landWith, hentry]
      | link target =>
        have hstops : m.followsLast = false := by
          cases hfollows : m.followsLast with
          | false => rfl
          | true => exact absurd hentry (hlink hfollows hlong target)
        simp [hstops]

end Last

/-! ## What is read -/

/-- What reading an entry gives. -/
def Face.read : Face → Except Errno Bytes
  | .file content => .ok content
  | _ => .error .isDirectory

/-- What stands where a path leads, or why nothing does. -/
def State.glance (s : State) (m : Manner) (path : Text) : Except Errno Face :=
  match s.locate m path with
  | .ok (.object _ n) => .ok n.face
  | .ok (.vacancy _ _ _) => .error .noEntry
  | .error e => .error e

/-- What is looked up is what the path shows. -/
lemma State.map_face_lookup (s : State) (path : Text) :
    (s.lookup path).map Node.face = s.glance .lookup path := by
  rw [lookup, glance]
  cases s.locate .lookup path with
  | error e => rfl
  | ok p => cases p <;> rfl

/-- A file that the path shows can be deleted. -/
lemma State.unlink_of_glance {s : State} {path : Text} {content : Bytes}
    (h : s.glance .entry path = .ok (.file content)) :
    ∃ loc, s.locate .entry path = .ok (.object loc (.file content)) ∧
      s.unlink path = .ok (loc, s.remove loc) := by
  unfold glance at h
  cases hlocate : s.locate .entry path with
  | error e => simp [hlocate] at h
  | ok p =>
    cases p with
    | vacancy _ _ _ => simp [hlocate] at h
    | object loc n =>
      simp only [hlocate, Except.ok.injEq] at h
      cases n with
      | file content' =>
        cases h
        exact ⟨loc, rfl, unlink_of_locate hlocate (by simp [Node.face])⟩
      | link target => cases h
      | directory es => cases h

/-- What the path does not show is not deleted, for the same cause. -/
lemma State.unlink_of_glance_error {s : State} {path : Text} {e : Errno}
    (h : s.glance .entry path = .error e) : s.unlink path = .error e := by
  unfold glance at h
  unfold unlink
  cases hlocate : s.locate .entry path with
  | error e' =>
    simp only [hlocate] at h
    cases h
    rfl
  | ok p =>
    cases p with
    | vacancy _ _ _ =>
      simp only [hlocate] at h
      cases h
      rfl
    | object loc n => simp [hlocate] at h

/-- What is read at a path depends on the face of what is found there. -/
lemma State.read_eq_of_face (s : State) (path : Text) :
    s.read path = ((s.lookup path).map Node.face).bind Face.read := by
  unfold State.read
  cases s.lookup path with
  | error e => rfl
  | ok n => cases n <;> rfl

/-! ## Slashes in spelled names -/

/-- The byte of a character of ASCII is no part of another one. -/
lemma mem_of_mem_bytesOf {t : Text} {c : CodePoint} (hc : c.val < 0x80)
    (h : UInt8.ofNat c.val ∈ bytesOf t) : c ∈ t := by
  obtain ⟨d, hd, hmem⟩ := List.mem_flatMap.mp h
  have hbyte : (UInt8.ofNat c.val).toNat = c.val := Utf8.toNat_ofNat (by omega)
  have hlt := d.isLt
  split at hmem
  · rename_i hescaped
    simp only [isEscapedByte, Bool.and_eq_true, decide_eq_true_eq] at hescaped
    rw [List.mem_singleton] at hmem
    rw [hmem, Utf8.toNat_ofNat (by omega)] at hbyte
    omega
  · by_cases hascii : d.val < 0x80
    · rw [Utf8.encodeNat, if_pos hascii, List.mem_singleton] at hmem
      rw [hmem, Utf8.toNat_ofNat (by omega)] at hbyte
      obtain rfl : d = c := by
        cases c
        cases d
        simpa using hbyte
      exact hd
    · have := Utf8.le_of_mem_encodeNat (by omega) hlt hmem
      omega

/-- A character of ASCII is one of the bytes. -/
lemma mem_bytesOf {t : Text} {c : CodePoint} (hc : c.val < 0x80) (h : c ∈ t) :
    UInt8.ofNat c.val ∈ bytesOf t := by
  obtain ⟨a, b, rfl⟩ := List.append_of_mem h
  have hbytes := bytesOf_ascii hc
  rw [bytesOf, List.flatMap_singleton] at hbytes
  simp [bytesOf, hbytes]

/-- The spelling of a name without a slash has none. -/
lemma notMem_canonical {t : Text} (ht : IsByteText t) (hslash : ('/' : CodePoint) ∉ t) :
    ('/' : CodePoint) ∉ canonical t := by
  intro hmem
  have hbytes : bytesOf (canonical t) = bytesOf t := by
    rw [canonical_eq ht, bytesOf_ofBytes]
  have hbyte := mem_bytesOf (by decide) hmem
  rw [hbytes] at hbyte
  exact hslash (mem_of_mem_bytesOf (by decide) hbyte)

/-! ## Directories that come -/

/-- Names that lead to a vacancy lead to the directory that takes it. -/
lemma Lands.filled {f f' : Location → Option Fixture} {links : Nat} {loc parent : Location}
    {names rest : List Name} {name : Name}
    (h : Lands f .entry links loc names (.edge parent name rest))
    (hrest : rest.all List.isEmpty = true)
    (hmore : ∀ loc x, f loc = some x → f' loc = some x)
    (hnew : f' (parent ++ [name]) = some .directory) :
    Lands f' .lookup links loc names (.stop (parent ++ [name])) := by
  generalize hl : Landing.edge parent name rest = l at h
  induction h with
  | stop hloc => cases hl
  | off hloc => cases hl
  | link hloc hpass hentry hlast => cases hl
  | idle hloc hidle hbehind ih => exact .idle (hmore _ _ hloc) hidle (ih hl)
  | up hloc hbehind ih => exact .up (hmore _ _ hloc) (ih hl)
  | edge hloc hpass hentry =>
    cases hl
    refine .down (hmore _ _ hloc) (hpass.of_reads rfl) hnew (lands_of_idle _ _ hnew fun n hn => ?_)
    rw [List.all_eq_true.mp hrest n hn, Bool.true_or]
  | down hloc hpass hentry hbehind ih =>
    exact .down (hmore _ _ hloc) (hpass.of_reads rfl) (hmore _ _ hentry) (ih hl)
  | through hloc hpass hentry hfollowed hbehind ih =>
    exact .through (hmore _ _ hloc) (hpass.of_reads rfl) (hmore _ _ hentry) (by simp [Manner.lookup])
      (ih hl)

/-- A path that leads to a vacancy lands there, however it is followed. -/
lemma State.exists_land_of_vacancy {s : State} {path : Text} {parent : Location} {name : Name}
    {slashed : Bool} (h : s.locate .entry path = .ok (.vacancy parent name slashed)) :
    ∃ rest, land s.frame s.home .lookup path = .ok (.edge parent name rest) := by
  obtain ⟨l, hland, hsettles⟩ := locate_eq_ok_iff.mp h
  obtain ⟨hne, hshort, hlands⟩ := land_eq_ok_iff.mp hland
  cases hsettles with
  | @vacancy _ _ rest _ _ =>
    exact ⟨rest, land_eq_ok_iff.mpr ⟨hne, hshort, hlands.lookup fun loc target hl => by cases hl⟩⟩

/-- A path leads to the directory that takes the vacancy to which it led. -/
theorem State.liesAt_put_vacancy {s : State} {path : Text} {parent : Location} {name : Name}
    {slashed : Bool} (h : s.locate .entry path = .ok (.vacancy parent name slashed)) :
    (s.put (parent ++ [name]) (.directory [])).LiesAt path (parent ++ [name]) := by
  have hview := view_put_vacancy h Node.isLeaf_emptyDirectory
  have hnew : (s.put (parent ++ [name]) (.directory [])).frame (parent ++ [name]) =
      some .directory := frame_of_view_directory (by rw [hview, Function.update_self]; rfl)
  obtain ⟨l, hland, hsettles⟩ := locate_eq_ok_iff.mp h
  obtain ⟨hne, hshort, hlands⟩ := land_eq_ok_iff.mp hland
  cases hsettles with
  | vacancy _ hrest =>
    refine liesAt_iff.mpr ⟨land_eq_ok_iff.mpr ⟨hne, hshort, hlands.filled hrest ?_ hnew⟩, hnew⟩
    exact fun loc x hx => frame_of_view_update_none hview (view_of_vacancy h).2 hx

/-- A directory is made where its path led to a vacancy, and then its path leads there. -/
theorem State.land_of_makeDirectory {s s' : State} {p : Path} (hp : p.IsProper)
    (h : s.makeDirectory p.text = .ok s') : ∃ parent name rest,
      land s.frame s.home .lookup p.text = .ok (.edge parent name rest) ∧
        s.view (parent ++ [name]) = none ∧ s'.LiesAt p.text (parent ++ [name]) ∧
        s'.view = Function.update s.view (parent ++ [name]) (some .directory) := by
  obtain ⟨-, parent, name, slashed, hplace, rfl⟩ := makeDirectory_eq_ok_iff.mp h
  rw [Path.dropEndSlashes_text hp] at hplace
  obtain ⟨rest, hland⟩ := exists_land_of_vacancy hplace
  exact ⟨parent, name, rest, hland, (view_of_vacancy hplace).2, liesAt_put_vacancy hplace,
    view_put_vacancy hplace Node.isLeaf_emptyDirectory⟩

/-- A path at which a directory is made leads to it. -/
theorem State.exists_liesAt_of_makeDirectory {s s' : State} {p : Path} (hp : p.IsProper)
    (h : s.makeDirectory p.text = .ok s') : ∃ d, s'.LiesAt p.text d := by
  obtain ⟨parent, name, -, -, -, hd, -⟩ := land_of_makeDirectory hp h
  exact ⟨parent ++ [name], hd⟩

/-- The path of one more name in a directory. -/
def childPath (p : Path) (name : Name) : Path := p.append ⟨.relative, [name]⟩

section Child

variable {p : Path} {name : Name}

/-- A name of an entry adds something to a path. -/
lemma IsRegular.isIdle (hname : IsRegular name) : Path.isIdle name = false := by
  simp only [Path.isIdle, Bool.or_eq_false_iff, decide_eq_false_iff_not]
  exact ⟨by simpa [List.isEmpty_iff] using hname.1, hname.2.1⟩

/-- The path of a name in a directory is proper if both are. -/
lemma isProper_childPath (hp : p.IsProper) (hname : IsRegular name)
    (hslash : ('/' : CodePoint) ∉ name) : (childPath p name).IsProper := by
  refine hp.append ?_
  intro n hn
  rw [List.mem_singleton.mp hn]
  exact ⟨hname.isIdle, hslash⟩

/-- A text that is one name is read as this name. -/
lemma child_eq_childPath (p : Path) (hname : IsRegular name) (hslash : ('/' : CodePoint) ∉ name) :
    p.child name = childPath p name := by
  have hroot : Path.rootOf name = .relative := by
    obtain ⟨c, rest, rfl⟩ := List.exists_cons_of_ne_nil hname.1
    have hc : c ≠ ('/' : CodePoint) := by
      rintro rfl
      exact hslash List.mem_cons_self
    simp [Path.rootOf, hc]
  rw [Path.child, Path.ofText, hroot, Text.splitOn_of_notMem hslash, childPath]
  simp [hname.isIdle]

/-- What is written behind a name belongs to it. -/
lemma under_append (path : Text) (start rest : Name) :
    under path (start ++ rest) = under path start ++ rest := by
  unfold under
  split <;> simp

/-- Behind a root, a name follows at once. -/
lemma text_childPath_of_eq_nil (hnames : p.names = []) :
    (childPath p name).text = p.root.text ++ name := by
  rw [Path.text_eq_join (by simp [childPath, Path.append])]
  simp [childPath, Path.append, hnames, Text.join]

/-- Behind other names, a name follows after a slash. -/
lemma text_childPath_of_ne_nil (hnames : p.names ≠ []) :
    (childPath p name).text = p.text ++ ('/' : CodePoint) :: name := by
  rw [childPath, Path.text_append hnames (by simp) rfl]
  simp [Text.join]

/-- In a directory whose path is rooted, the path of an entry is that of the directory with the name
behind it. -/
lemma under_eq_childPath (hp : p.IsProper) (hroot : p.root ≠ .relative) :
    under p.text name = (childPath p name).text := by
  by_cases hnames : p.names = []
  · have htext : p.text = p.root.text := by rw [Path.text_eq_root hnames, if_neg hroot]
    have hslash : p.root.text.endsWith "/" = true := by
      cases hr : p.root with
      | relative => exact absurd hr hroot
      | absolute => decide
      | doubled => decide
    rw [text_childPath_of_eq_nil hnames, htext, under, if_pos hslash]
  · have hslash : ("/" : Text) = [('/' : CodePoint)] := by decide
    obtain ⟨a, c, htext, hc⟩ := hp.exists_text_concat hnames
    have hends : p.text.endsWith "/" = false := by
      rw [Bool.eq_false_iff]
      intro hends
      rw [Text.endsWith, hslash, htext, List.isSuffixOf_iff_suffix] at hends
      obtain ⟨t, ht⟩ := hends
      exact hc (List.cons.inj (List.append_inj_right' ht rfl)).1.symm
    rw [text_childPath_of_ne_nil hnames, under, hends, if_neg Bool.false_ne_true, hslash]
    simp

/-- Paths of names of the same length in one directory have the same length. -/
lemma byteLength_childPath {name' : Name} (h : byteLength name = byteLength name') :
    byteLength (childPath p name).text = byteLength (childPath p name').text := by
  by_cases hnames : p.names = []
  · rw [text_childPath_of_eq_nil hnames, text_childPath_of_eq_nil hnames, byteLength_append,
      byteLength_append, h]
  · rw [text_childPath_of_ne_nil hnames, text_childPath_of_ne_nil hnames,
      List.append_cons _ _ name, List.append_cons _ _ name', byteLength_append _ name,
      byteLength_append _ name', h]

/-- The path of a name in a directory is rooted if that of the directory is. -/
lemma isRooted_childPath (hp : p.IsProper) (hname : IsRegular name)
    (hslash : ('/' : CodePoint) ∉ name) :
    isRooted (childPath p name).text = isRooted p.text := by
  rw [Path.isRooted_text (isProper_childPath hp hname hslash), Path.isRooted_text hp]
  rfl

/-- Behind the names of a path, one more name is one more name. -/
lemma splitOn_childPath (hnames : p.names ≠ []) (hslash : ('/' : CodePoint) ∉ name)
    (hbytes : IsByteText (childPath p name).text) :
    (canonical (childPath p name).text).splitOn '/' =
      (canonical p.text).splitOn '/' ++ [canonical name] := by
  rw [text_childPath_of_ne_nil hnames] at hbytes ⊢
  have hp' : IsByteText p.text := fun c hc => hbytes c (List.mem_append_left _ hc)
  have hname : IsByteText name := fun c hc =>
    hbytes c (List.mem_append_right _ (List.mem_cons_of_mem _ hc))
  rw [canonical_append_slash hp' hname, Text.splitOn_append_cons,
    Text.splitOn_of_notMem (notMem_canonical hname hslash)]

/-- The names of a path with one more name behind it are such as lead to where the path leads, and
then this name. -/
lemma exists_splitOn_childPath (hp : p.IsProper) (hslash : ('/' : CodePoint) ∉ name)
    (hbytes : IsByteText (childPath p name).text) :
    ∃ before, (canonical (childPath p name).text).splitOn '/' = before ++ [canonical name] ∧
      ∀ (s : State) (d : Location), ¬ pathLimit < byteLength (childPath p name).text →
        (s.LiesAt p.text d ↔
          Lands s.frame .lookup linkLimit (if isRooted p.text then [] else s.home) before
            (.stop d) ∧ s.frame d = some .directory) := by
  by_cases hnames : p.names = []
  · -- the path is a root, whose names add nothing
    have hidle := fun (before : List Name) (hbefore : ∀ n ∈ before, (n.isEmpty || n = dot) = true)
      (s : State) (d : Location) => s.liesAt_iff_of_names_eq_nil (d := d) hp hnames hbefore
    rw [text_childPath_of_eq_nil hnames] at hbytes ⊢
    have hname : IsByteText name := fun c hc => hbytes c (List.mem_append_right _ hc)
    have hlast := Text.splitOn_of_notMem (notMem_canonical hname hslash)
    cases hroot : p.root with
    | relative => exact ⟨[], hlast, fun s d _ => hidle [] (by simp) s d⟩
    | absolute =>
      refine ⟨[[]], ?_, fun s d _ => hidle [[]] (by decide) s d⟩
      have hsplit := canonical_append_slash (a := []) (fun c hc => by cases hc) hname
      exact (congrArg (Text.splitOn '/') hsplit).trans
        ((Text.splitOn_append_cons _ _).trans (congrArg _ hlast))
    | doubled =>
      refine ⟨[[], []], ?_, fun s d _ => hidle [[], []] (by decide) s d⟩
      have hslashes : IsByteText "/" := by
        unfold IsByteText
        decide
      have hsplit := canonical_append_slash hslashes hname
      exact (congrArg (Text.splitOn '/') hsplit).trans
        ((Text.splitOn_append_cons _ _).trans (congrArg _ hlast))
  · refine ⟨(canonical p.text).splitOn '/', splitOn_childPath hnames hslash hbytes,
      fun s d hshort => ?_⟩
    have hshort' : ¬ pathLimit < byteLength p.text := by
      rw [text_childPath_of_ne_nil hnames, byteLength_append] at hshort
      omega
    rw [State.liesAt_iff, land_eq_ok_iff]
    exact ⟨fun h => ⟨h.1.2.2, h.2⟩, fun h => ⟨⟨hp.text_ne_nil, hshort', h.1⟩, h.2⟩⟩

namespace State

variable {s : State}

/-- A path with one more name behind it leads to the entry of this name in a directory to which the
path leads. -/
theorem locate_child (hp : p.IsProper) (hname : IsRegular name) (hslash : ('/' : CodePoint) ∉ name)
    (hbytes : IsByteText (childPath p name).text) (hregular : IsRegular (canonical name))
    {place : Place} (h : s.locate .entry (childPath p name).text = .ok place) :
    ∃ d, s.LiesAt p.text d ∧ place.location = d ++ [canonical name] := by
  obtain ⟨before, hsplit, hlies⟩ := exists_splitOn_childPath hp hslash hbytes
  obtain ⟨l, hland, hsettles⟩ := locate_eq_ok_iff.mp h
  obtain ⟨-, hshort, hlands⟩ := land_eq_ok_iff.mp hland
  rw [hsplit, isRooted_childPath hp hname hslash] at hlands
  have harrives : l.Arrives := by
    have hends := hlands.endsIn List.getLast?_concat hregular
    cases hsettles with
    | stop _ => trivial
    | off _ => rfl
    | file _ => rfl
    | vacancy _ hrest => exact (hends.eq_nil hregular hrest).1
  obtain ⟨d, hd, hdirectory, rfl⟩ := hlands.last hregular harrives
  refine ⟨d, (hlies s d hshort).mpr ⟨hd, hdirectory⟩, ?_⟩
  unfold Landing.below at hsettles
  split at hsettles <;> cases hsettles <;> rfl

/-- Where a name leads from a directory, the entry of this name is what the path shows. -/
lemma glance_of_landing {m : Manner} {path : Text} {d : Location} {n : Name}
    (hland : land s.frame s.home m path = .ok (.below s.frame d n)) :
    s.glance m path = (s.view (d ++ [n])).elim (.error .noEntry) .ok := by
  rw [glance, locate_of_landing hland, Landing.below]
  cases hfind : Node.find? (d ++ [n]) s.root with
  | none =>
    have hview : s.view (d ++ [n]) = none := by simp [view, Node.view, hfind]
    rw [if_pos (by simp [frame, hview]), hview, settle]
    simp only [hfind]
    rfl
  | some node =>
    have hview := view_eq_of_find? hfind
    rw [hview, settle.eq_def]
    cases node <;> simp [frame, hview, Node.face, Face.fixture?, hfind]

/-- Where a directory lies, a path with one more name behind it lands at the entry of this name, unless
that is a link which is replaced. -/
lemma land_child (hp : p.IsProper) (hname : IsRegular name) (hslash : ('/' : CodePoint) ∉ name)
    (hbytes : IsByteText (childPath p name).text) (hregular : IsRegular (canonical name))
    {m : Manner} (hm : m.writes = false) {d : Location} (hd : s.LiesAt p.text d)
    (hlink : m.followsLast = true → ¬ pathLimit < byteLength (childPath p name).text →
      ¬ nameLimit < byteLength (canonical name) → ∀ target,
      s.frame (d ++ [canonical name]) ≠ some (.link target)) :
    land s.frame s.home m (childPath p name).text =
      if pathLimit < byteLength (childPath p name).text then .error .nameTooLong
      else if nameLimit < byteLength (canonical name) then .error .nameTooLong
      else .ok (.below s.frame d (canonical name)) := by
  have hne : (childPath p name).text.isEmpty = false := by
    simpa using (isProper_childPath hp hname hslash).text_ne_nil
  unfold land
  rw [hne, if_neg (by simp)]
  by_cases hlong : pathLimit < byteLength (childPath p name).text
  · rw [if_pos hlong, if_pos hlong]
  obtain ⟨before, hsplit, hlies⟩ := exists_splitOn_childPath hp hslash hbytes
  obtain ⟨hlands, hdirectory⟩ := (hlies s d hlong).mp hd
  obtain ⟨left, -, hsame⟩ := hlands.landAfter_append hm (List.cons_ne_nil (canonical name) [])
  rw [landAfter_singleton hregular hdirectory fun hfollows => hlink hfollows hlong] at hsame
  rw [if_neg hlong, if_neg hlong, hsplit, isRooted_childPath hp hname hslash, hsame]

/-- A path that leads to the entry of a name is not too long, and neither is the name. -/
lemma short_of_locate_child (hp : p.IsProper) (hname : IsRegular name)
    (hslash : ('/' : CodePoint) ∉ name) (hbytes : IsByteText (childPath p name).text)
    (hregular : IsRegular (canonical name)) {place : Place}
    (h : s.locate .entry (childPath p name).text = .ok place) :
    ¬ pathLimit < byteLength (childPath p name).text ∧ ¬ nameLimit < byteLength (canonical name) := by
  obtain ⟨d, hd, -⟩ := locate_child hp hname hslash hbytes hregular h
  obtain ⟨l, hland, -⟩ := locate_eq_ok_iff.mp h
  rw [land_child hp hname hslash hbytes hregular rfl hd (fun hfollows => by cases hfollows)] at hland
  constructor
  · intro hlong
    rw [if_pos hlong] at hland
    cases hland
  · intro hlong
    rw [if_pos hlong, ite_self] at hland
    cases hland

/-- Where a directory lies, what a path with one more name behind it shows depends on the entry of this
name alone, unless that is a link which is replaced. -/
theorem glance_child (hp : p.IsProper) (hname : IsRegular name) (hslash : ('/' : CodePoint) ∉ name)
    (hbytes : IsByteText (childPath p name).text) (hregular : IsRegular (canonical name))
    {m : Manner} (hm : m.writes = false) {d : Location} (hd : s.LiesAt p.text d)
    (hlink : m.followsLast = true → ¬ pathLimit < byteLength (childPath p name).text →
      ¬ nameLimit < byteLength (canonical name) → ∀ target,
      s.view (d ++ [canonical name]) ≠ some (.link target)) :
    s.glance m (childPath p name).text =
      if pathLimit < byteLength (childPath p name).text then .error .nameTooLong
      else if nameLimit < byteLength (canonical name) then .error .nameTooLong
      else (s.view (d ++ [canonical name])).elim (.error .noEntry) .ok := by
  have hland := land_child hp hname hslash hbytes hregular hm hd
    fun hfollows hpath hname target h => hlink hfollows hpath hname target (view_of_frame h)
  by_cases hlongPath : pathLimit < byteLength (childPath p name).text
  · rw [if_pos hlongPath] at hland ⊢
    rw [glance, locate_eq_settle, hland]
    rfl
  rw [if_neg hlongPath] at hland ⊢
  by_cases hlong : nameLimit < byteLength (canonical name)
  · rw [if_pos hlong] at hland ⊢
    rw [glance, locate_eq_settle, hland]
    rfl
  · rw [if_neg hlong] at hland ⊢
    exact glance_of_landing hland

/-- Where a directory lies, what is found under one more name depends on the entry of this name
alone, unless that is a link. -/
theorem lookup_child (hp : p.IsProper) (hname : IsRegular name) (hslash : ('/' : CodePoint) ∉ name)
    (hbytes : IsByteText (childPath p name).text) (hregular : IsRegular (canonical name))
    {d : Location} (hd : s.LiesAt p.text d)
    (hlink : ∀ target, s.view (d ++ [canonical name]) ≠ some (.link target)) :
    (s.lookup (childPath p name).text).map Node.face =
      if pathLimit < byteLength (childPath p name).text then .error .nameTooLong
      else if nameLimit < byteLength (canonical name) then .error .nameTooLong
      else (s.view (d ++ [canonical name])).elim (.error .noEntry) .ok := by
  rw [map_face_lookup]
  exact glance_child hp hname hslash hbytes hregular rfl hd fun _ _ _ => hlink

end State

end Child

end EditorDocs.FileSystem
