import EditorDocs.Proofs.FileSystem.Following
import EditorDocs.Proofs.Result
import Mathlib.Data.List.Induction

/-!
# What operations change

Each operation that succeeds changes the entry at one location, which is where its path leads: a
directory or a file takes a vacancy, a file goes, and a file that is moved takes the place of what is
at its target.  The lemmas below say which entry this is and what stands there before and after.

What an operation changes can be told from where its path leads, whether something stands there or
not (`State.LeadsTo`, `State.LeadsToLink`).
-/

namespace EditorDocs.FileSystem

namespace State

/-! ## The root -/

/-- What stands above a directory is a directory. -/
lemma frame_of_append {s : State} {loc down : Location} (h : s.frame (loc ++ down) = some .directory) :
    s.frame loc = some .directory := by
  induction down using List.reverseRecOn with
  | nil => rwa [List.append_nil] at h
  | append_singleton down name ih =>
    apply ih
    have hup := frame_dropLast h
    rwa [← List.append_assoc, List.dropLast_concat] at hup

/-- The root is a directory if anything is. -/
lemma frame_nil {s : State} {loc : Location} (h : s.frame loc = some .directory) :
    s.frame [] = some .directory := frame_of_append h

/-- A path that leads somewhere starts at a directory. -/
lemma frame_start_of_locate {s : State} {m : Manner} {path : Text} {p : Place}
    (h : s.locate m path = .ok p) :
    s.frame (if isRooted path then [] else s.home) = some .directory := by
  obtain ⟨l, hland, hsettles⟩ := locate_eq_ok_iff.mp h
  obtain ⟨-, -, hlands⟩ := land_eq_ok_iff.mp hland
  refine hlands.start (Text.splitOn_ne_nil _ _) ?_
  rintro loc rest rfl
  cases hsettles with
  | off _ => rfl

/-- If a path leads somewhere then the root is a directory. -/
lemma frame_nil_of_locate {s : State} {m : Manner} {path : Text} {p : Place}
    (h : s.locate m path = .ok p) : s.frame [] = some .directory :=
  frame_nil (frame_start_of_locate h)

/-- An entry that a path leads to and that is no directory is not the root. -/
lemma ne_nil_of_locate {s : State} {m : Manner} {path : Text} {loc : Location} {n : Node}
    (h : s.locate m path = .ok (.object loc n)) (hn : n.face ≠ .directory) : loc ≠ [] := by
  rintro rfl
  have hroot := view_of_frame (frame_nil_of_locate h)
  rw [view_eq_of_find? (find?_of_object h)] at hroot
  exact hn (Option.some.inj hroot)

/-! ## Looking -/

/-- What is looked up is what the path leads to. -/
lemma lookup_eq_ok_iff {s : State} {path : Text} {n : Node} :
    s.lookup path = .ok n ↔ ∃ loc, s.locate .lookup path = .ok (.object loc n) := by
  constructor
  · intro h
    obtain ⟨p, hp, hn⟩ := Result.of_bind h
    cases p with
    | object loc n' =>
      cases hn
      exact ⟨loc, hp⟩
    | vacancy _ _ _ => cases hn
  · rintro ⟨loc, h⟩
    simp [lookup, h, bind, Except.bind, pure, Except.pure]

/-- The content that is read is that of the file to which the path leads. -/
lemma read_eq_ok_iff {s : State} {path : Text} {content : Bytes} :
    s.read path = .ok content ↔ ∃ loc, s.locate .lookup path = .ok (.object loc (.file content)) := by
  constructor
  · intro h
    obtain ⟨n, hn, hcontent⟩ := Result.of_bind h
    obtain ⟨loc, hloc⟩ := lookup_eq_ok_iff.mp hn
    cases n with
    | file _ =>
      cases hcontent
      exact ⟨loc, hloc⟩
    | link _ => cases hcontent
    | directory _ => cases hcontent
  · rintro ⟨loc, hloc⟩
    rw [read, Result.bind_of_ok (lookup_eq_ok_iff.mpr ⟨loc, hloc⟩)]
    rfl

/-! ## Creating -/

/-- A leaf that takes the vacancy to which a path leads is the only change. -/
lemma view_put_vacancy {s : State} {m : Manner} {path : Text} {parent : Location} {name : Name}
    {slashed : Bool} {n : Node} (h : s.locate m path = .ok (.vacancy parent name slashed))
    (hn : n.IsLeaf) :
    (s.put (parent ++ [name]) n).view =
      Function.update s.view (parent ++ [name]) (some n.face) := by
  obtain ⟨hparent, hnone⟩ := view_of_vacancy h
  exact view_put hn (Or.inr (by rwa [List.dropLast_concat])) (by simp [hnone])

/-- A directory is made exactly if its path, without the slashes at its end, leads to a vacancy. -/
lemma makeDirectory_eq_ok_iff {s s' : State} {path : Text} :
    s.makeDirectory path = .ok s' ↔ ¬ pathLimit < byteLength path ∧ ∃ parent name slashed,
      s.locate .entry (dropEndSlashes path) = .ok (.vacancy parent name slashed) ∧
        s.put (parent ++ [name]) (.directory []) = s' := by
  unfold makeDirectory
  by_cases hlong : pathLimit < byteLength path
  · rw [if_pos hlong]
    exact ⟨nofun, fun h => absurd hlong h.1⟩
  rw [if_neg hlong]
  constructor
  · intro h
    obtain ⟨p, hp, hs⟩ := Result.of_bind h
    cases p with
    | object _ _ => cases hs
    | vacancy parent name slashed => exact ⟨hlong, parent, name, slashed, hp, Except.ok.inj hs⟩
  · rintro ⟨-, parent, name, slashed, hp, rfl⟩
    exact Result.bind_of_ok hp _

/-- No directory is made where the path, without the slashes at its end, leads to something. -/
lemma exists_makeDirectory_error_of_lookup {s : State} {path : Text} {n : Node}
    (h : s.lookup (dropEndSlashes path) = .ok n) : ∃ e, s.makeDirectory path = .error e := by
  unfold makeDirectory
  split
  · exact ⟨_, rfl⟩
  obtain ⟨loc, hloc⟩ := lookup_eq_ok_iff.mp h
  rcases locate_entry_of_lookup hloc with hentry | ⟨_, _, hentry⟩
  · exact ⟨.entryExists, Result.bind_of_ok hentry _⟩
  · exact ⟨.entryExists, Result.bind_of_ok hentry _⟩

/-- A file is created exactly if its path leads to a vacancy. -/
lemma createFile_eq_ok_iff {s s' : State} {path : Text} {loc : Location} :
    s.createFile path = .ok (loc, s') ↔ ∃ parent name slashed,
      s.locate .entry path = .ok (.vacancy parent name slashed) ∧
        parent ++ [name] = loc ∧ s.put (parent ++ [name]) (.file []) = s' := by
  constructor
  · intro h
    obtain ⟨p, hp, hs⟩ := Result.of_bind h
    cases p with
    | object _ _ => cases hs
    | vacancy parent name slashed =>
      cases hs
      exact ⟨parent, name, slashed, hp, rfl, rfl⟩
  · rintro ⟨parent, name, slashed, hp, rfl, rfl⟩
    exact Result.bind_of_ok hp _

/-- A directory that is made takes a vacancy. -/
lemma view_makeDirectory {s s' : State} {path : Text} (h : s.makeDirectory path = .ok s') :
    s'.home = s.home ∧ ∃ loc, s.view loc = none ∧ s.view loc.dropLast = some .directory ∧
      s'.view = Function.update s.view loc (some .directory) := by
  obtain ⟨-, parent, name, slashed, hp, rfl⟩ := makeDirectory_eq_ok_iff.mp h
  obtain ⟨hparent, hnone⟩ := view_of_vacancy hp
  exact ⟨rfl, parent ++ [name], hnone, by rwa [List.dropLast_concat],
    view_put_vacancy hp Node.isLeaf_emptyDirectory⟩

/-- A file that is created takes the vacancy to which the path leads. -/
lemma view_createFile {s s' : State} {path : Text} {loc : Location}
    (h : s.createFile path = .ok (loc, s')) :
    s'.home = s.home ∧ s.view loc = none ∧ s.view loc.dropLast = some .directory ∧
      s'.view = Function.update s.view loc (some (.file [])) ∧
      ∃ p, s.locate .entry path = .ok p ∧ p.location = loc := by
  obtain ⟨parent, name, slashed, hp, rfl, rfl⟩ := createFile_eq_ok_iff.mp h
  obtain ⟨hparent, hnone⟩ := view_of_vacancy hp
  exact ⟨rfl, hnone, by rwa [List.dropLast_concat], view_put_vacancy hp (Node.isLeaf_file []),
    _, hp, rfl⟩

/-- A file that is opened for writing is the one to which the path leads, which takes a vacancy if it
was not there.  It is emptied, or holds what it held. -/
lemma view_openForWriting {s s' : State} {truncates : Bool} {path : Text} {loc : Location}
    (h : s.openForWriting truncates path = .ok (loc, s')) :
    s'.home = s.home ∧ (∃ p, s.locate .write path = .ok p ∧ p.location = loc) ∧
      ∃ old : Option Bytes, s.view loc = old.map .file ∧
        s'.view = Function.update s.view loc
          (some (.file (if truncates then [] else old.getD []))) := by
  obtain ⟨p, hp, hs⟩ := Result.of_bind h
  cases p with
  | vacancy parent name slashed =>
    cases hs
    refine ⟨rfl, ⟨_, hp, rfl⟩, none, (view_of_vacancy hp).2, ?_⟩
    rw [Option.getD_none, ite_self]
    exact view_put_vacancy hp (Node.isLeaf_file [])
  | object loc' n =>
    cases n with
    | directory es => cases hs
    | link target => cases hs
    | file content =>
      cases hs
      have hfile : s.view loc = some (.file content) := view_eq_of_find? (find?_of_object hp)
      refine ⟨rfl, ⟨_, hp, rfl⟩, some content, hfile, ?_⟩
      rw [Option.getD_some]
      exact view_put_of_some (Node.isLeaf_file _) (by simp [hfile]) (by simp [hfile])

/-- A file that can be read can be opened for writing. -/
lemma exists_openForWriting {s : State} {path : Text} {content : Bytes}
    (h : s.read path = .ok content) :
    ∃ file t, s.openForWriting true path = .ok (file, t) ∧ s.view file = some (.file content) := by
  obtain ⟨file, hlookup⟩ := read_eq_ok_iff.mp h
  refine ⟨file, s.put file (.file []), ?_, view_eq_of_find? (find?_of_object hlookup)⟩
  rw [openForWriting, Result.bind_of_ok (locate_write_of_file hlookup)]
  rfl

/-- A file that has been opened and given a content is the only change, and the path leads to it. -/
lemma store_of_openForWriting {s t : State} {path : Text} {file : Location}
    (h : s.openForWriting true path = .ok (file, t)) (content : Bytes) :
    (t.store file content).home = s.home ∧
      (t.store file content).view = Function.update s.view file (some (.file content)) ∧
      (t.store file content).locate .lookup path = .ok (.object file (.file content)) := by
  obtain ⟨hhome, ⟨p, hwrite, rfl⟩, old, hold, hview⟩ := view_openForWriting h
  have hempty : t.view p.location = some (.file []) := by
    rw [hview, Function.update_self]
    rfl
  have hstore : (t.store p.location content).view =
      Function.update s.view p.location (some (.file content)) := by
    rw [view_store content hempty, hview, Function.update_idem]
  have hframe : (t.store p.location content).frame = s.frame := by
    refine frame_eq_of_view_update hstore ?_
    rw [frame, hold]
    cases old <;> rfl
  have hhome' : (t.store p.location content).home = s.home := (home_store _ _ _).trans hhome
  obtain ⟨hlookup, hslash⟩ := locate_lookup_of_write hwrite
  refine ⟨hhome', hstore, ?_⟩
  refine locate_of_frame_eq hframe hhome' hlookup hslash (find?_of_view_file ?_)
  rw [hstore, Function.update_self]

/-! ## Deleting and moving -/

/-- Exactly the entry to which the path leads is deleted, unless it is a directory. -/
lemma unlink_eq_ok_iff {s s' : State} {path : Text} {loc : Location} :
    s.unlink path = .ok (loc, s') ↔
      ∃ n, s.locate .entry path = .ok (.object loc n) ∧ n.face ≠ .directory ∧ s.remove loc = s' := by
  constructor
  · intro h
    obtain ⟨p, hp, hs⟩ := Result.of_bind h
    cases p with
    | vacancy _ _ _ => cases hs
    | object loc' n =>
      cases n with
      | directory es => cases hs
      | file content =>
        cases hs
        exact ⟨_, hp, nofun, rfl⟩
      | link target =>
        cases hs
        exact ⟨_, hp, nofun, rfl⟩
  · rintro ⟨n, hp, hface, rfl⟩
    rw [unlink, Result.bind_of_ok hp]
    cases n with
    | directory es => exact absurd rfl hface
    | file content => rfl
    | link target => rfl

/-- A file that is deleted is the entry to which the path leads. -/
lemma view_unlink {s s' : State} {path : Text} {loc : Location}
    (h : s.unlink path = .ok (loc, s')) :
    s'.home = s.home ∧ s'.view = Function.update s.view loc none ∧
      ∃ n, s.locate .entry path = .ok (.object loc n) ∧ n.face ≠ .directory := by
  obtain ⟨n, hp, hface, rfl⟩ := unlink_eq_ok_iff.mp h
  refine ⟨rfl, view_remove (ne_nil_of_locate hp hface) ?_, n, hp, hface⟩
  rw [view_eq_of_find? (find?_of_object hp)]
  exact fun he => hface (Option.some.inj he)

/-- A file to which a path leads can be deleted. -/
lemma unlink_of_locate {s : State} {path : Text} {loc : Location} {n : Node}
    (h : s.locate .entry path = .ok (.object loc n)) (hn : n.face ≠ .directory) :
    s.unlink path = .ok (loc, s.remove loc) := unlink_eq_ok_iff.mpr ⟨n, h, hn, rfl⟩

section Moving

variable {s s' : State} {source target : Text} {gone : Option Location} {loc loc' : Location}
  {n n' : Node}

/-- What is moved to a path that cannot be followed stays, for the same cause. -/
lemma replace_of_error (hsource : s.locate .entry source = .ok (.object loc n)) {e : Errno}
    (htarget : s.locate .entry target = .error e) : s.replace source target = .error e := by
  rw [replace, Result.bind_of_ok hsource]
  simp only [htarget]
  rfl

/-- Nothing is moved over a directory. -/
lemma replace_of_directory (hsource : s.locate .entry source = .ok (.object loc n)) {es : Entries}
    (htarget : s.locate .entry target = .ok (.object loc' (.directory es))) :
    s.replace source target = .error .isDirectory := by
  rw [replace, Result.bind_of_ok hsource]
  simp only [Result.bind_of_ok htarget]
  rfl

/-- What is moved to where an entry is that is no directory takes its place, unless this is where it
is. -/
lemma replace_of_object (hsource : s.locate .entry source = .ok (.object loc n))
    (htarget : s.locate .entry target = .ok (.object loc' n')) (hface : n'.face ≠ .directory) :
    s.replace source target =
      .ok (if loc = loc' then (none, s) else (some loc', (s.remove loc).put loc' n)) := by
  rw [replace, Result.bind_of_ok hsource]
  simp only [Result.bind_of_ok htarget]
  rw [apply_ite Except.ok]
  cases n' with
  | directory es => exact absurd rfl hface
  | file content => rfl
  | link target => rfl

/-- What is moved to a vacancy takes it, unless the path asks for a directory. -/
lemma replace_of_vacancy (hsource : s.locate .entry source = .ok (.object loc n)) {parent : Location}
    {name : Name} {slashed : Bool}
    (htarget : s.locate .entry target = .ok (.vacancy parent name slashed)) :
    s.replace source target =
      if slashed then .error .notDirectory
      else .ok (none, (s.remove loc).put (parent ++ [name]) n) := by
  rw [replace, Result.bind_of_ok hsource]
  simp only [Result.bind_of_ok htarget]
  rfl

/-- How something is moved from one path to another: to the place at which it is already, over another
entry that is no directory, or to a vacancy.  What has to give way is some other entry, if anything. -/
inductive Moves (s : State) (source target : Text) : Option Location → State → Prop where
  /-- Both paths lead to the same place. -/
  | same {loc : Location} {n n' : Node} (hsource : s.locate .entry source = .ok (.object loc n))
      (htarget : s.locate .entry target = .ok (.object loc n')) (hface : n'.face ≠ .directory) :
      Moves s source target none s
  /-- Another entry gives way. -/
  | another {loc loc' : Location} {n n' : Node}
      (hsource : s.locate .entry source = .ok (.object loc n))
      (htarget : s.locate .entry target = .ok (.object loc' n')) (hface : n'.face ≠ .directory)
      (hne : loc ≠ loc') : Moves s source target (some loc') ((s.remove loc).put loc' n)
  /-- A vacancy is taken. -/
  | fresh {loc parent : Location} {name : Name} {n : Node}
      (hsource : s.locate .entry source = .ok (.object loc n))
      (htarget : s.locate .entry target = .ok (.vacancy parent name false)) :
      Moves s source target none ((s.remove loc).put (parent ++ [name]) n)

/-- What has been moved was moved in one of these ways. -/
lemma moves_of_replace (h : s.replace source target = .ok (gone, s')) :
    s.Moves source target gone s' := by
  obtain ⟨p, hsource, hs⟩ := Result.of_bind h
  cases p with
  | vacancy _ _ _ => cases hs
  | object loc n =>
    obtain ⟨q, htarget, hs⟩ := Result.of_bind hs
    cases q with
    | vacancy parent name slashed =>
      rw [replace_of_vacancy hsource htarget] at h
      cases slashed with
      | true => cases h
      | false =>
        cases h
        exact .fresh hsource htarget
    | object loc' n' =>
      have hface : n'.face ≠ .directory := by
        intro hdirectory
        obtain ⟨es, rfl⟩ := Node.face_eq_directory hdirectory
        cases hs
      rw [replace_of_object hsource htarget hface, Except.ok.injEq] at h
      by_cases hsame : loc = loc'
      · rw [if_pos hsame] at h
        cases h
        exact .same hsource (hsame ▸ htarget) hface
      · rw [if_neg hsame] at h
        cases h
        exact .another hsource htarget hface hsame

/-- To move something is to move it in one of these ways. -/
theorem replace_eq_ok_iff :
    s.replace source target = .ok (gone, s') ↔ s.Moves source target gone s' := by
  refine ⟨moves_of_replace, fun h => ?_⟩
  cases h with
  | same hsource htarget hface => rw [replace_of_object hsource htarget hface, if_pos rfl]
  | another hsource htarget hface hne => rw [replace_of_object hsource htarget hface, if_neg hne]
  | fresh hsource htarget => exact replace_of_vacancy hsource htarget

end Moving

/-- A file that is moved to the path takes this place, in which there is no directory. -/
structure Takes (s : State) (path : Text) (dest : Location) : Prop where
  /-- The path leads to the place, and does not ask for a directory there. -/
  leads : ∃ p, s.locate .entry path = .ok p ∧ p.location = dest ∧
    ∀ parent name, p ≠ .vacancy parent name true
  /-- There is no directory. -/
  face : s.view dest ≠ some .directory

/-- A file that is taken away and put where no directory is leaves its old place, and is the only other
change. -/
lemma view_remove_put {s : State} {src dest : Location} {content : Bytes} (hroot : src ≠ [])
    (hsrc : s.view src = some (.file content)) (hne : dest ≠ src)
    (hparent : dest = [] ∨ s.view dest.dropLast = some .directory)
    (hdest : s.view dest ≠ some .directory) :
    ((s.remove src).put dest (.file content)).view =
      Function.update (Function.update s.view src none) dest (some (.file content)) := by
  have hremove : (s.remove src).view = Function.update s.view src none :=
    view_remove hroot (by simp [hsrc])
  rw [← hremove]
  refine view_put (Node.isLeaf_file content) (hparent.imp_right fun hdirectory => ?_) ?_
  · have hup : dest.dropLast ≠ src := by
      intro hup
      rw [hup, hsrc] at hdirectory
      cases hdirectory
    rw [hremove, Function.update_of_ne hup, hdirectory]
  · rw [hremove, Function.update_of_ne hne]
    exact hdest

/-- A file that is moved takes the place to which the target leads, unless it was there already. -/
lemma view_replace {s s' : State} {source target : Text} {src : Location} {content : Bytes}
    {gone : Option Location} (hsrc : s.locate .entry source = .ok (.object src (.file content)))
    (h : s.replace source target = .ok (gone, s')) :
    (∃ n, s.locate .entry target = .ok (.object src n)) ∨
      ∃ dest, s.Takes target dest ∧ dest ≠ src ∧
        gone = (if s.view dest = none then none else some dest) ∧ s'.home = s.home ∧
        s'.view = Function.update (Function.update s.view src none) dest (some (.file content)) := by
  have hfile : s.view src = some (.file content) := view_eq_of_find? (find?_of_object hsrc)
  have hroot : src ≠ [] := ne_nil_of_locate hsrc (by simp [Node.face])
  cases replace_eq_ok_iff.mp h with
  | same hsource htarget hface =>
    cases hsource.symm.trans hsrc
    exact Or.inl ⟨_, htarget⟩
  | @another _ loc _ n hsource htarget hface hne =>
    cases hsource.symm.trans hsrc
    have hview : s.view loc = some n.face := view_eq_of_find? (find?_of_object htarget)
    have hold : s.view loc ≠ some .directory := by
      rw [hview]
      exact fun he => hface (Option.some.inj he)
    refine Or.inr ⟨loc, ⟨⟨_, htarget, rfl, fun _ _ => by simp⟩, hold⟩, hne.symm, by simp [hview],
      rfl, ?_⟩
    exact view_remove_put hroot hfile hne.symm (eq_nil_or_directory (by simp [hview])) hold
  | @fresh _ parent name _ hsource htarget =>
    cases hsource.symm.trans hsrc
    obtain ⟨hparent, hnone⟩ := view_of_vacancy htarget
    have hne : parent ++ [name] ≠ src := by
      rintro he
      rw [he, hfile] at hnone
      cases hnone
    refine Or.inr ⟨parent ++ [name], ⟨⟨_, htarget, rfl, fun _ _ => by simp⟩, by simp [hnone]⟩, hne,
      by simp [hnone], rfl, ?_⟩
    refine view_remove_put hroot hfile hne (Or.inr ?_) (by simp [hnone])
    rw [List.dropLast_concat, hparent]

/-- A file that is moved is moved to where a path leads. -/
lemma exists_place_of_replace {s s' : State} {source target : Text} {gone : Option Location}
    (h : s.replace source target = .ok (gone, s')) : ∃ p, s.locate .entry target = .ok p := by
  cases replace_eq_ok_iff.mp h with
  | same _ htarget _ => exact ⟨_, htarget⟩
  | another _ htarget _ _ => exact ⟨_, htarget⟩
  | fresh _ htarget => exact ⟨_, htarget⟩

/-! ## Where paths lead -/

/-- The path leads to an entry at the location. -/
def LeadsTo (s : State) (path : Text) (loc : Location) : Prop :=
  ∃ n, s.locate .entry path = .ok (.object loc n)

/-- The path leads to a symbolic link. -/
def LeadsToLink (s : State) (path : Text) : Prop :=
  ∃ loc target, s.locate .entry path = .ok (.object loc (.link target))

instance (s : State) (path : Text) (loc : Location) : Decidable (s.LeadsTo path loc) :=
  match h : s.locate .entry path with
  | .ok (.object loc' n) =>
    if heq : loc' = loc then .isTrue ⟨n, heq ▸ h⟩
    else .isFalse fun ⟨n', hn'⟩ => by
      rw [h, Except.ok.injEq, Place.object.injEq] at hn'
      exact heq hn'.1
  | .ok (.vacancy _ _ _) => .isFalse fun ⟨n', hn'⟩ => by
      rw [h] at hn'
      cases hn'
  | .error _ => .isFalse fun ⟨n', hn'⟩ => by
      rw [h] at hn'
      cases hn'

instance (s : State) (path : Text) : Decidable (s.LeadsToLink path) :=
  match h : s.locate .entry path with
  | .ok (.object loc (.link target)) => .isTrue ⟨loc, target, h⟩
  | .ok (.object _ (.file _)) => .isFalse fun ⟨_, _, h'⟩ => by
      rw [h] at h'
      cases h'
  | .ok (.object _ (.directory _)) => .isFalse fun ⟨_, _, h'⟩ => by
      rw [h] at h'
      cases h'
  | .ok (.vacancy _ _ _) => .isFalse fun ⟨_, _, h'⟩ => by
      rw [h] at h'
      cases h'
  | .error _ => .isFalse fun ⟨_, _, h'⟩ => by
      rw [h] at h'
      cases h'

section

variable {s t : State} {path : Text} {loc dest : Location}

/-- A path leads to an entry still if that is there and the directories and links are the same. -/
lemma LeadsTo.of_frame_eq (h : s.LeadsTo path loc) (hframe : t.frame = s.frame)
    (hhome : t.home = s.home) (hview : t.view loc ≠ none) : t.LeadsTo path loc := by
  obtain ⟨n, hn⟩ := h
  obtain ⟨face, hface⟩ := Option.ne_none_iff_exists'.mp hview
  obtain ⟨n', hn', -⟩ := exists_node_of_view hface
  exact ⟨n', locate_of_frame_eq hframe hhome hn (by simp) hn'⟩

/-- A path leads to a link still if the directories and links are the same. -/
lemma LeadsToLink.of_frame_eq (h : s.LeadsToLink path) (hframe : t.frame = s.frame)
    (hhome : t.home = s.home) : t.LeadsToLink path := by
  obtain ⟨loc, target, hlink⟩ := h
  have hfixture : t.frame loc = some (.link target) := by
    rw [hframe, frame_eq, find?_of_object hlink]
  have hfind := find?_of_view_link (view_of_frame hfixture)
  exact ⟨loc, target, locate_of_frame_eq hframe hhome hlink (by simp) hfind⟩

/-- What is moved takes another place than one to which its path does not lead. -/
lemma Takes.ne (h : s.Takes path dest) (hview : s.view loc ≠ none) (hnot : ¬ s.LeadsTo path loc) :
    dest ≠ loc := by
  rintro rfl
  obtain ⟨p, hp, rfl, -⟩ := h.leads
  cases p with
  | object loc n => exact hnot ⟨n, hp⟩
  | vacancy parent name slashed => exact hview (view_of_vacancy hp).2

/-- What is moved takes the place of no directory, and of no link if its path leads to none. -/
lemma Takes.frame_eq_none (h : s.Takes path dest) (hnot : ¬ s.LeadsToLink path) :
    s.frame dest = none := by
  obtain ⟨p, hp, rfl, -⟩ := h.leads
  rw [frame_eq]
  cases p with
  | vacancy parent name slashed =>
    rw [Place.location, find?_eq_none_of_view (view_of_vacancy hp).2]
  | object loc n =>
    have hface := h.face
    rw [Place.location, view_eq_of_find? (find?_of_object hp)] at hface
    rw [Place.location, find?_of_object hp]
    cases n with
    | file content => rfl
    | link target => exact absurd ⟨loc, target, hp⟩ hnot
    | directory es => exact absurd rfl hface

end

end State

end EditorDocs.FileSystem
