import EditorDocs.Proofs.World.Parts

/-!
# What making directories leaves

Making the directories on the way to a path adds directories, each at a beginning of the path, and
leaves all else as it was (`Files.Makes.adds`, `FileSystem.State.Adds`).  However it ends, to do it once
more changes nothing (`Files.Makes.again`): where it failed the way is barred still
(`Files.Makes.isDirectory_eq_false`), and a directory that was made cannot be made twice.

Where it succeeds the path leads to a directory, but for one that ends in a single dot, which is not made
itself (`Files.Makes.isDirectory_or_dot`).  A directory that was missing is empty then, if the path does
not go up (`Files.Makes.list_eq_nil`).
-/

namespace EditorDocs

namespace FileSystem.State

variable {s s' s'' : State} {path part : Text}

/-! ## What is added -/

/-- There is all that was there, and besides directories to which beginnings of the path lead. -/
structure Adds (path : Text) (s s' : State) : Prop where
  /-- The working directory is the same. -/
  home : s'.home = s.home
  /-- What was there has stayed. -/
  kept : ∀ loc face, s.view loc = some face → s'.view loc = some face
  /-- What is new is a directory on the way. -/
  new : ∀ loc, s.view loc = none → s'.view loc ≠ none →
    s'.view loc = some .directory ∧ ∃ part, part <+: path ∧ s'.LiesAt part loc

namespace Adds

/-- Nothing need be added. -/
lemma refl (path : Text) (s : State) : Adds path s s :=
  ⟨rfl, fun _ _ h => h, fun _ hnone hsome => absurd hnone hsome⟩

/-- A path leads to a directory still when something was added. -/
lemma liesAt (h : Adds path s s') {loc : Location} (hlies : s.LiesAt part loc) : s'.LiesAt part loc := by
  obtain ⟨es, hes⟩ := hlies
  obtain ⟨n, hface, hn⟩ := locate_of_more h.home h.kept hes
  obtain ⟨es', rfl⟩ := Node.face_eq_directory hface
  exact ⟨es', hn⟩

/-- A path of a directory is one still when something was added. -/
lemma isDirectory (h : Adds path s s') (hd : s.isDirectory part = true) :
    s'.isDirectory part = true := by
  obtain ⟨d, hlies⟩ := isDirectory_iff.mp hd
  exact isDirectory_iff.mpr ⟨d, h.liesAt hlies⟩

/-- More can be added. -/
lemma trans (h : Adds path s s') (h' : Adds path s' s'') : Adds path s s'' := by
  refine ⟨h'.home.trans h.home, fun loc face hface => h'.kept loc face (h.kept loc face hface), ?_⟩
  intro loc hnone hsome
  cases hmiddle : s'.view loc with
  | none => exact h'.new loc hmiddle hsome
  | some face =>
    obtain ⟨hdirectory, part, hpart, hlies⟩ := h.new loc hnone (by simp [hmiddle])
    exact ⟨h'.kept loc _ hdirectory, part, hpart, h'.liesAt hlies⟩

/-- What is on the way to a beginning of a path is on the way to the path. -/
lemma of_isPrefix (h : Adds part s s') (hpart : part <+: path) : Adds path s s' := by
  refine ⟨h.home, h.kept, fun loc hnone hsome => ?_⟩
  obtain ⟨hdirectory, part', hpart', hlies⟩ := h.new loc hnone hsome
  exact ⟨hdirectory, part', hpart'.trans hpart, hlies⟩

/-- A directory that is made is added. -/
lemma of_makeDirectory (hpath : IsByteText path) (h : s.makeDirectory path = .ok s') :
    Adds path s s' := by
  obtain ⟨loc, hnone, hview, hlies, -⟩ := liesAt_of_makeDirectory hpath h
  refine ⟨(view_makeDirectory h).1, fun loc' face hface => ?_, fun loc' hold hnew => ?_⟩
  · have hne : loc' ≠ loc := by
      rintro rfl
      rw [hnone] at hface
      cases hface
    rw [hview, Function.update_of_ne hne, hface]
  · by_cases hloc : loc' = loc
    · subst hloc
      exact ⟨by rw [hview, Function.update_self], path, List.prefix_refl path, hlies⟩
    · rw [hview, Function.update_of_ne hloc] at hnew
      exact absurd hold hnew

end Adds

end FileSystem.State

namespace Files

open FileSystem

variable {missing : Nat} {path : Text} {s s' s'' : State} {x y : Except Failure Unit}

/-- What stands before the last name is a beginning of the path. -/
lemma splitPath_isPrefix (hup : GoesUp s path) : (splitPath path).1 <+: path :=
  (extends_splitPath hup.1 hup.2.1).isPrefix

/-- The first part of a path that a file can have is one. -/
lemma IsPassable.splitPath (hpath : IsPassable path) : IsPassable (splitPath path).1 :=
  hpath.mono fun _ hc => mem_of_mem_splitPath hc

/-- A path of a directory leads to something. -/
lemma finds_of_isDirectory (hpath : IsPassable path) (h : s.isDirectory path = true) :
    finds s path = true := by
  obtain ⟨d, es, hlies⟩ := State.isDirectory_iff.mp h
  rw [finds, refusal?_eq_none_iff.mpr hpath, State.lookup_eq_ok_iff.mpr ⟨d, hlies⟩]
  rfl

/-- A path leads to something still when something was added. -/
lemma finds_of_adds {part : Text} (h : State.Adds path s s') (hs : finds s part = true) :
    finds s' part = true := by
  rw [finds, Bool.and_eq_true] at hs ⊢
  refine ⟨hs.1, ?_⟩
  cases hlookup : s.lookup part with
  | error e => simp [hlookup, Except.isOk, Except.toBool] at hs
  | ok n =>
    obtain ⟨loc, hlocate⟩ := State.lookup_eq_ok_iff.mp hlookup
    obtain ⟨n', -, hlocate'⟩ := State.locate_of_more h.home h.kept hlocate
    rw [State.lookup_eq_ok_iff.mpr ⟨loc, hlocate'⟩]
    rfl

/-- Where something was added there is no more reason to go up than before. -/
lemma GoesUp.of_adds {part : Text} (h : State.Adds part s s') (hup : GoesUp s' path) :
    GoesUp s path := by
  refine ⟨hup.1, hup.2.1, ?_⟩
  cases hfinds : finds s (Files.splitPath path).1 with
  | false => rfl
  | true => exact (finds_of_adds h hfinds).symm.trans hup.2.2

/-- With more directories no more of them are missing. -/
lemma lacks_of_adds {part : Text} (h : State.Adds part s s') (hlacks : Lacks s' missing path) :
    Lacks s missing path := by
  induction missing generalizing path with
  | zero => trivial
  | succ missing ih =>
    obtain ⟨hhead, hname, hnothing, hrest⟩ := hlacks
    have hup := GoesUp.of_adds h ⟨hhead, hname, hnothing⟩
    exact ⟨hhead, hname, hup.2.2, ih hrest⟩

/-! ## Only directories on the way -/

/-- Making one directory adds it at most. -/
lemma Ensures.adds (h : Ensures path s x s') : State.Adds path s s' := by
  cases h with
  | made hpath hmake => exact .of_makeDirectory hpath.isByteText hmake
  | there _ _ _ => exact .refl path s
  | failed _ _ _ => exact .refl path s
  | refused _ => exact .refl path s

/-- Making directories adds directories on the way to the path and nothing else. -/
theorem Makes.adds (h : Makes missing path s x s') : State.Adds path s s' := by
  induction h with
  | tooDeep => exact .refl _ _
  | here hup h => exact h.adds
  | stopped hup hhead hf ih => exact ih.of_isPrefix (splitPath_isPrefix hup)
  | dot hup hhead hx hname ih => exact ih.of_isPrefix (splitPath_isPrefix hup)
  | next hup hhead hx hname h ih => exact (ih.of_isPrefix (splitPath_isPrefix hup)).trans h.adds

/-- Where there is a directory none is made. -/
lemma Makes.of_isDirectory (h : Makes missing path s x s') (hpath : IsPassable path)
    (hd : s.isDirectory path = true) : s' = s := by
  have hno : ¬ GoesUp s path := by
    intro hup
    have hhead := (extends_splitPath hup.1 hup.2.1).isDirectory_head hpath.isByteText hd
    cases (finds_of_isDirectory hpath.splitPath hhead).symm.trans hup.2.2
  cases h with
  | tooDeep => rfl
  | stopped hup _ _ => exact absurd hup hno
  | dot hup _ _ _ => exact absurd hup hno
  | next hup _ _ _ _ => exact absurd hup hno
  | here _ h =>
    cases h with
    | made _ hmake =>
      obtain ⟨e, he⟩ := State.exists_makeDirectory_error hpath.isByteText hd
      cases he.symm.trans hmake
    | _ => rfl

/-! ## How it ends -/

/-- A run of surrogates ends before a slash. -/
lemma firstRun_append_slash {front : Text} {position : Nat} {run : Utf8.Unencodable}
    (h : Utf8.firstRun isUnwritable position front = some run) (behind : Text) :
    Utf8.firstRun isUnwritable position (front ++ ('/' : CodePoint) :: behind) = some run := by
  induction front generalizing position with
  | nil => cases h
  | cons c front ih =>
    rw [Utf8.firstRun] at h
    rw [List.cons_append, Utf8.firstRun]
    split at h
    · rename_i hbad
      have hslash : ¬ CodePoint.isSurrogate ('/' : CodePoint) = true := by decide
      rw [if_pos hbad, ← h, List.takeWhile_append]
      split
      · rename_i hall
        rw [List.takeWhile_cons_of_neg hslash, List.append_nil,
          (List.takeWhile_prefix _).eq_of_length hall]
      · rfl
    · rename_i hgood
      rw [if_neg hgood]
      exact ih h

/-- What hinders the first part of a path hinders the path in the same way. -/
lemma refusal?_of_extends {head name : Text} (h : Text.Extends head name path)
    (hnul : ∀ c ∈ path, c.val ≠ 0) {f : Failure} (hf : refusal? head = some f) :
    refusal? path = some f := by
  have hclean : ¬ head.any (fun c => c.val = 0) = true := by
    rw [List.any_eq_true]
    rintro ⟨c, hc, hzero⟩
    exact hnul c (h.isPrefix.subset hc) (by simpa using hzero)
  cases hrun : Utf8.firstRun isUnwritable 0 head with
  | none =>
    rw [refusal?, hrun] at hf
    simp only [if_neg hclean] at hf
    cases hf
  | some run =>
    have hpath : Utf8.firstRun isUnwritable 0 path = some run := by
      rcases h.slash with ⟨a, rfl⟩ | ⟨b, rfl⟩
      · obtain ⟨behind, rfl⟩ := h.isPrefix
        cases hfront : Utf8.firstRun isUnwritable 0 a with
        | none =>
          have hall := Utf8.firstRun_eq_none_iff.mp hfront
          have hnone : Utf8.firstRun isUnwritable 0 (a ++ [('/' : CodePoint)]) = none := by
            refine Utf8.firstRun_eq_none_iff.mpr fun c hc => ?_
            rcases List.mem_append.mp hc with hc | hc
            · exact hall c hc
            · rw [List.mem_singleton.mp hc]
              decide
          cases hnone.symm.trans hrun
        | some run' =>
          rw [firstRun_append_slash hfront] at hrun
          rw [List.append_assoc, List.singleton_append, firstRun_append_slash hfront, hrun]
      · exact firstRun_append_slash hrun b
    rw [refusal?, hrun] at hf
    rw [refusal?, hpath]
    exact hf

/-- That a path is refused does not mean that too much is missing. -/
lemma ne_tooDeep_of_refusal? {f : Failure} (h : refusal? path = some f) : f ≠ .tooDeep := by
  rcases cases_of_refusal? h with ⟨run, rfl⟩ | rfl <;> exact Failure.noConfusion

/-- Making directories fails in one of three ways, of which the last depends on the path alone. -/
theorem Makes.failure (h : Makes missing path s x s') (hnul : ∀ c ∈ path, c.val ≠ 0) {f : Failure}
    (hf : x = .error f) : f = .tooDeep ∨ (∃ e, f = .system e) ∨ refusal? path = some f := by
  have hlast : ∀ {path s s' x}, Ensures path s x s' → x = .error f →
      (∃ e, f = .system e) ∨ refusal? path = some f := by
    intro path s s' x h hf
    cases h with
    | made _ _ => cases hf
    | there _ _ _ => cases hf
    | failed _ _ _ =>
      cases hf
      exact Or.inl ⟨_, rfl⟩
    | refused hrefused =>
      cases hf
      exact Or.inr hrefused
  induction h with
  | tooDeep =>
    cases hf
    exact Or.inl rfl
  | here hup h => exact Or.inr (hlast h hf)
  | stopped hup hhead _ ih =>
    have hextends := extends_splitPath hup.1 hup.2.1
    refine (ih (fun c hc => hnul c (hextends.isPrefix.subset hc)) hf).imp_right fun hrest => ?_
    exact hrest.imp_right (refusal?_of_extends hextends hnul)
  | dot _ _ _ _ _ => cases hf
  | next _ _ _ _ h _ => exact Or.inr (hlast h hf)

/-- Where a file operation failed there is no directory at the path. -/
theorem Makes.isDirectory_eq_false (h : Makes missing path s x s') (hpath : IsPassable path)
    {e : SystemError} (he : x = .error (.system e)) : s'.isDirectory path = false := by
  have hlast : ∀ {path s s' x}, Ensures path s x s' → IsPassable path →
      x = .error (.system e) → s'.isDirectory path = false := by
    intro path s s' x h hpath he
    cases h with
    | made _ _ => cases he
    | there _ _ _ => cases he
    | failed _ _ hdirectory => exact hdirectory
    | refused hrefused => cases (refusal?_eq_none_iff.mpr hpath).symm.trans hrefused
  induction h with
  | tooDeep => cases he
  | here hup h => exact hlast h hpath he
  | @stopped _ path _ _ s' hup hhead _ ih =>
    have hhead' := ih hpath.splitPath he
    cases hd : s'.isDirectory path with
    | false => rfl
    | true =>
      cases hhead'.symm.trans
        ((extends_splitPath hup.1 hup.2.1).isDirectory_head hpath.isByteText hd)
  | dot _ _ _ _ _ => cases he
  | next _ _ _ _ h _ => exact hlast h hpath he

/-- Where the round above has not made a directory none can be made at the path. -/
lemma Makes.not_made (hup : GoesUp s path)
    (hhead : Makes missing (splitPath path).1 s x s') {f : Failure} (hf : x = .error f)
    (hdeep : f ≠ .tooDeep) (hpath : IsPassable path) (hmake : s'.makeDirectory path = .ok s'') :
    False := by
  obtain ⟨-, hdirectory⟩ :=
    (extends_splitPath hup.1 hup.2.1).of_makeDirectory hpath.isByteText hmake
  have hpath' := hpath.splitPath
  rcases hhead.failure (fun c hc => (hpath' c hc).2) hf with hf' | ⟨e, rfl⟩ | hrefused
  · exact hdeep hf'
  · cases (hhead.isDirectory_eq_false hpath' hf).symm.trans hdirectory
  · cases (refusal?_eq_none_iff.mpr hpath').symm.trans hrefused

/-! ## Once more -/

/-- Nothing has changed, or the directory has been made. -/
lemma Ensures.eq_or_made (h : Ensures path s x s') :
    s' = s ∨ IsPassable path ∧ s.makeDirectory path = .ok s' := by
  cases h with
  | made hpath hmake => exact Or.inr ⟨hpath, hmake⟩
  | _ => exact Or.inl rfl

/-- To make one directory once more changes nothing. -/
lemma Ensures.again (h : Ensures path s x s') (h' : Ensures path s' y s'') : s'' = s' := by
  refine h'.eq_or_made.resolve_right fun ⟨hpath, hmake'⟩ => ?_
  cases h with
  | made _ hmake =>
    obtain ⟨loc, -, -, hlies, -⟩ := State.liesAt_of_makeDirectory hpath.isByteText hmake
    obtain ⟨e, he⟩ := State.exists_makeDirectory_error hpath.isByteText
      (State.isDirectory_iff.mpr ⟨loc, hlies⟩)
    cases he.symm.trans hmake'
  | there _ hmake _ => cases hmake.symm.trans hmake'
  | failed _ hmake _ => cases hmake.symm.trans hmake'
  | refused hrefused => cases (refusal?_eq_none_iff.mpr hpath).symm.trans hrefused

/-- Where too many directories were missing, nothing has changed. -/
lemma Makes.of_tooDeep (h : Makes missing path s (.error .tooDeep) s') :
    s' = s ∧ Lacks s missing path := by
  cases h.hindrance.2 _ rfl with
  | tooDeep hlacks => exact ⟨(h.of_lacks hlacks).2, hlacks⟩
  | refused _ hrefused => exact absurd rfl (ne_tooDeep_of_refusal? hrefused)

/-- To make directories once more changes nothing, however it ended the first time. -/
theorem Makes.again (h : Makes missing path s x s') (h' : Makes missing path s' y s'') :
    s'' = s' := by
  -- by induction on the rounds; the second time goes up only where the first time did
  induction h generalizing y s'' with
  | tooDeep =>
    cases h'
    rfl
  | here hup h =>
    cases h' with
    | here _ h' => exact h.again h'
    | stopped hup' _ _ => exact absurd (hup'.of_adds h.adds) hup
    | dot hup' _ _ _ => exact absurd (hup'.of_adds h.adds) hup
    | next hup' _ _ _ _ => exact absurd (hup'.of_adds h.adds) hup
  | stopped hup hhead hf ih =>
    -- if too many were missing nothing has changed, otherwise the way is barred
    cases h' with
    | stopped _ hhead' _ => exact ih hhead'
    | dot _ hhead' _ _ => exact ih hhead'
    | here hup' h' =>
      refine h'.eq_or_made.resolve_right fun ⟨hpath, hmake⟩ => ?_
      refine Makes.not_made hup hhead rfl (fun hdeep => ?_) hpath hmake
      obtain ⟨rfl, -⟩ := (hdeep ▸ hhead).of_tooDeep
      exact hup' hup
    | next hup' hhead' hx' _ h' =>
      obtain rfl := ih hhead'
      refine h'.eq_or_made.resolve_right fun ⟨hpath, hmake⟩ => ?_
      refine Makes.not_made hup hhead rfl (fun hdeep => ?_) hpath hmake
      obtain ⟨rfl, hlacks⟩ := (hdeep ▸ hhead).of_tooDeep
      obtain ⟨rfl, -⟩ := hhead'.of_lacks hlacks
      cases hx'
  | dot hup hhead hx hname ih =>
    cases h' with
    | stopped _ hhead' _ => exact ih hhead'
    | dot _ hhead' _ _ => exact ih hhead'
    | next _ _ _ hname' _ => exact absurd hname hname'
    | here _ h' =>
      -- what ends in a single dot is never made
      refine h'.eq_or_made.resolve_right fun ⟨hpath, hmake⟩ => ?_
      obtain ⟨hregular, -⟩ := (extends_splitPath hup.1 hup.2.1).of_makeDirectory hpath.isByteText hmake
      exact hregular.2.1 hname
  | next hup hhead hx hname h ih =>
    rcases h.eq_or_made with rfl | ⟨hpath, hmake⟩
    · cases h' with
      | here _ h' => exact h.again h'
      | stopped _ hhead' _ => exact ih hhead'
      | dot _ hhead' _ _ => exact ih hhead'
      | next _ hhead' _ _ h' =>
        obtain rfl := ih hhead'
        exact h.again h'
    · -- the directory is there now
      obtain ⟨loc, -, -, hlies, -⟩ := State.liesAt_of_makeDirectory hpath.isByteText hmake
      exact h'.of_isDirectory hpath (State.isDirectory_iff.mpr ⟨loc, hlies⟩)

/-! ## Where it succeeds -/

/-- A path that ends in a single dot is one that a file can have if its first part is. -/
lemma isPassable_of_dot {head : Text} (h : Text.Extends head FileSystem.dot path)
    (hhead : IsPassable head) : IsPassable path := by
  intro c hc
  by_cases hslash : c = ('/' : CodePoint)
  · subst hslash
    decide
  · obtain ⟨part, hpart, hin⟩ := Text.exists_mem_splitOn hc hslash
    obtain ⟨names, idle, before, after, -, hbefore, hafter, hleft, hright, -⟩ := h.names
    rw [hright, List.mem_append, List.mem_append, List.mem_cons] at hpart
    rcases hpart with hmem | hmem | rfl | hmem
    · have hfirst : part ∈ head.splitOn '/' := by
        rw [hleft]
        exact List.mem_append_left _ hmem
      exact hhead c (Text.mem_of_mem_splitOn hfirst hin)
    · rw [hbefore part hmem] at hin
      cases hin
    · obtain rfl := List.mem_singleton.mp hin
      decide
    · rw [hafter part hmem] at hin
      cases hin

/-- A directory is made only at a path that a file can have. -/
lemma Makes.isPassable (h : Makes missing path s x s') (hx : IsPassed x) : IsPassable path := by
  have hlast : ∀ {path s s' x}, Ensures path s x s' → IsPassed x → IsPassable path := by
    intro path s s' x h hx
    cases h with
    | made hpath _ => exact hpath
    | there hpath _ _ => exact hpath
    | failed hpath _ _ => exact hpath
    | refused hrefused =>
      cases hx with
      | taken p q => exact absurd rfl (ne_system_of_refusal? hrefused _)
  induction h with
  | tooDeep => cases hx
  | here _ h => exact hlast h hx
  | stopped _ _ hf _ => exact absurd hx hf
  | next _ _ _ _ h _ => exact hlast h hx
  | dot hup _ hpassed hname ih =>
    have hextends := extends_splitPath hup.1 hup.2.1
    rw [hname] at hextends
    exact isPassable_of_dot hextends (ih hpassed)

/-- If directories are made the path leads to one, unless it ends in a single dot below a part that was
missing. -/
theorem Makes.isDirectory_or_dot (h : Makes missing path s x s') (hx : x = .ok ()) :
    (GoesUp s path ∧ (splitPath path).2 = FileSystem.dot) ∨ s'.isDirectory path = true := by
  have hlast : ∀ {s s' x}, Ensures path s x s' → x = .ok () → s'.isDirectory path = true := by
    intro s s' x h hx
    cases h with
    | made hpath hmake =>
      obtain ⟨loc, -, -, hlies, -⟩ := State.liesAt_of_makeDirectory hpath.isByteText hmake
      exact State.isDirectory_iff.mpr ⟨loc, hlies⟩
    | there _ _ hdirectory => exact hdirectory
    | failed _ _ _ => cases hx
    | refused _ => cases hx
  cases h with
  | tooDeep => cases hx
  | here _ h => exact Or.inr (hlast h hx)
  | stopped _ _ _ => cases hx
  | dot hup _ _ hname => exact Or.inl ⟨hup, hname⟩
  | next _ _ _ _ h => exact Or.inr (hlast h hx)

/-- What can be listed is a directory. -/
lemma isDirectory_of_list {es : Entries} (h : s.list path = .ok es) : s.isDirectory path = true := by
  obtain ⟨d, hd⟩ := State.list_eq_ok_iff.mp h
  exact State.isDirectory_iff.mpr ⟨d, es, hd⟩

/-- A directory that has just been made is empty. -/
lemma list_eq_nil_of_makeDirectory (hpath : IsPassable path) (hmake : s.makeDirectory path = .ok s')
    {es : Entries} (hlist : s'.list path = .ok es) : es = [] := by
  obtain ⟨-, -, -, -, hempty⟩ := State.liesAt_of_makeDirectory hpath.isByteText hmake
  rw [hempty] at hlist
  exact (Except.ok.inj hlist).symm

/-- A directory that was missing is empty when it has been made, unless its path goes up. -/
theorem Makes.list_eq_nil (h : Makes missing path s x s') (hx : x = .ok ())
    (hmissing : finds s path = false) (hup : dotDot ∉ path.splitOn '/') {es : Entries}
    (hlist : s'.list path = .ok es) : es = [] := by
  have hpath := h.isPassable (hx ▸ .done)
  induction h generalizing es with
  | tooDeep => cases hx
  | stopped _ _ _ _ => cases hx
  | here _ h =>
    cases h with
    | made _ hmake => exact list_eq_nil_of_makeDirectory hpath hmake hlist
    | there _ _ hd => cases (finds_of_isDirectory hpath hd).symm.trans hmissing
    | failed _ _ _ => cases hx
    | refused _ => cases hx
  | @dot missing path s x s' hgoes hhead hpassed hname ih =>
    have hextends := extends_splitPath hgoes.1 hgoes.2.1
    have hbelow : dotDot ∉ (Files.splitPath path).1.splitOn '/' := fun hmem =>
      hup (hextends.mem_splitOn hmem (by decide))
    rw [hname] at hextends
    have hhead' := hextends.list_head_of_dot hpath.isByteText hlist
    cases hpassed with
    | done => exact ih rfl hgoes.2.2 hbelow hhead' hpath.splitPath
    | taken p q =>
      cases (hhead.isDirectory_eq_false hpath.splitPath rfl).symm.trans (isDirectory_of_list hhead')
  | @next missing path s x s₁ z s₂ hgoes hhead hpassed hname h ih =>
    have hextends := extends_splitPath hgoes.1 hgoes.2.1
    have hbelow : dotDot ∉ (Files.splitPath path).1.splitOn '/' := fun hmem =>
      hup (hextends.mem_splitOn hmem (by decide))
    cases h with
    | failed _ _ _ => cases hx
    | refused _ => cases hx
    | made _ hmake => exact list_eq_nil_of_makeDirectory hpath hmake hlist
    | there _ _ hd =>
      -- then it would be an entry of the directory above, which is empty
      have hregular : IsRegular (Files.splitPath path).2 :=
        ⟨hgoes.2.1, hname, fun hdots => hup (hdots ▸ hextends.name_mem_splitOn)⟩
      obtain ⟨e, es', hhead'⟩ := hextends.exists_list_head hpath.isByteText hregular hd
      cases hpassed with
      | done => cases ih rfl hgoes.2.2 hbelow hhead' hpath.splitPath
      | taken p q =>
        cases (hhead.isDirectory_eq_false hpath.splitPath rfl).symm.trans (isDirectory_of_list hhead')

end Files

end EditorDocs
