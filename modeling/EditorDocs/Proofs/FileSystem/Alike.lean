import EditorDocs.Proofs.FileSystem.Operations

/-!
# States that are alike

Two states are alike if they differ in the contents of files alone.  All paths lead to the same places
in them (`State.Alike.locate`), so that what only asks where paths lead goes in the same way.
-/

namespace EditorDocs.FileSystem

/-- The location of a place, and whether it is one of a vacancy with slashes behind it or without. -/
def Place.shape : Place → Location × Option Bool
  | .object loc _ => (loc, none)
  | .vacancy parent name slashed => (parent ++ [name], some slashed)

/-- Where a path leads in two states: nowhere for the same cause, to entries at the same location, or to
the same vacancy. -/
inductive Place.Resembles : Except Errno Place → Except Errno Place → Prop where
  /-- Following the path fails. -/
  | error (e : Errno) : Resembles (.error e) (.error e)
  /-- The path leads to entries. -/
  | object (loc : Location) (n n' : Node) :
      Resembles (.ok (.object loc n)) (.ok (.object loc n'))
  /-- The path leads to a vacancy. -/
  | vacancy (parent : Location) (name : Name) (slashed : Bool) :
      Resembles (.ok (.vacancy parent name slashed)) (.ok (.vacancy parent name slashed))

/-- Places of the same shape are of the same kind and at the same location. -/
lemma Place.resembles_of_shape {x y : Except Errno Place}
    (h : y.map Place.shape = x.map Place.shape) : Resembles x y := by
  cases x with
  | error e =>
    cases y with
    | ok q => cases h
    | error e' =>
      cases h
      exact .error e
  | ok p =>
    cases y with
    | error e' => cases h
    | ok q =>
      have hshape := Except.ok.inj h
      cases p <;> cases q <;>
        simp only [Place.shape, Prod.mk.injEq, reduceCtorEq, and_false, and_true, Option.some.injEq]
          at hshape
      · rw [hshape]
        exact .object _ _ _
      · obtain ⟨hloc, rfl⟩ := hshape
        obtain ⟨rfl, hname⟩ := List.append_inj' hloc rfl
        cases hname
        exact .vacancy _ _ _

namespace State

/-- A landing settles at places of the same shape if there is something at its target in both states or
in neither. -/
lemma shape_settle {s t : State} {l : Landing}
    (h : t.view l.target = none ↔ s.view l.target = none) :
    (t.settle l).map Place.shape = (s.settle l).map Place.shape := by
  by_cases hs : s.view l.target = none
  · rw [settle_of_none (find?_eq_none_of_view (h.mpr hs)), settle_of_none (find?_eq_none_of_view hs)]
  · have ht : t.view l.target ≠ none := fun ht => hs (h.mp ht)
    obtain ⟨_, hface⟩ := Option.ne_none_iff_exists'.mp hs
    obtain ⟨_, hface'⟩ := Option.ne_none_iff_exists'.mp ht
    obtain ⟨n, hn, -⟩ := exists_node_of_view hface
    obtain ⟨n', hn', -⟩ := exists_node_of_view hface'
    rw [settle_of_some hn, settle_of_some hn']
    split <;> rfl

/-- A path leads to places of the same shape in states with the same directories and links, if there is
something in both or in neither where it lands. -/
lemma shape_locate {s t : State} {m : Manner} {path : Text} (hhome : t.home = s.home)
    (hframe : t.frame = s.frame)
    (h : ∀ l, land s.frame s.home m path = .ok l →
      (t.view l.target = none ↔ s.view l.target = none)) :
    (t.locate m path).map Place.shape = (s.locate m path).map Place.shape := by
  rw [locate_eq_settle, locate_eq_settle, hframe, hhome]
  cases hland : land s.frame s.home m path with
  | error e => rfl
  | ok l => exact shape_settle (h l hland)

/-- Where a path leads to places of the same shape, a file is created at the same location, or not for
the same cause. -/
lemma createFile_of_shape {s t : State} {path : Text}
    (h : (t.locate .entry path).map Place.shape = (s.locate .entry path).map Place.shape) :
    (t.createFile path).map Prod.fst = (s.createFile path).map Prod.fst := by
  have hresembles := Place.resembles_of_shape h
  unfold createFile
  generalize s.locate .entry path = x at hresembles
  generalize t.locate .entry path = y at hresembles
  cases hresembles with
  | error e => rfl
  | object loc n n' => rfl
  | vacancy parent name slashed => rfl

/-- The states differ in the contents of files alone. -/
structure Alike (s t : State) : Prop where
  /-- The working directory is the same. -/
  home : t.home = s.home
  /-- The directories and links are the same. -/
  frame : t.frame = s.frame
  /-- The same entries are there. -/
  absent : ∀ loc, t.view loc = none ↔ s.view loc = none

namespace Alike

variable {s t : State}

/-- Being alike is mutual. -/
lemma symm (h : Alike s t) : Alike t s := ⟨h.home.symm, h.frame.symm, fun loc => (h.absent loc).symm⟩

/-- A path leads to places of the same shape. -/
theorem locate (h : Alike s t) (m : Manner) (path : Text) :
    (t.locate m path).map Place.shape = (s.locate m path).map Place.shape :=
  shape_locate h.home h.frame fun l _ => h.absent l.target

/-- A path leads to entries at the same location or to the same vacancy. -/
lemma resembles (h : Alike s t) (m : Manner) (path : Text) :
    Place.Resembles (s.locate m path) (t.locate m path) :=
  Place.resembles_of_shape (h.locate m path)

/-- A path that leads to an entry leads to one at the same location. -/
lemma object (h : Alike s t) {m : Manner} {path : Text} {loc : Location} {n : Node}
    (hs : s.locate m path = .ok (.object loc n)) :
    ∃ n', t.locate m path = .ok (.object loc n') := by
  have hresembles := h.resembles m path
  rw [hs] at hresembles
  generalize t.locate m path = y at hresembles ⊢
  cases hresembles with
  | object loc n n' => exact ⟨n', rfl⟩

/-- A directory is found where one was, and what fails to be looked up fails for the same cause. -/
lemma lookup (h : Alike s t) (path : Text) :
    (t.lookup path).map Node.isDirectory = (s.lookup path).map Node.isDirectory := by
  have hresembles := h.resembles .lookup path
  unfold State.lookup
  generalize hs : s.locate .lookup path = x at hresembles
  generalize ht : t.locate .lookup path = y at hresembles
  cases hresembles with
  | error e => rfl
  | vacancy parent name slashed => rfl
  | object loc n n' =>
    have hframe := congrFun h.frame loc
    rw [frame_eq, frame_eq, find?_of_object hs, find?_of_object ht] at hframe
    have hsame : n'.isDirectory = n.isDirectory := by
      cases n <;> cases n' <;> first | rfl | cases hframe
    exact congrArg Except.ok hsame

/-- The same directories can be made, and the states are alike afterwards. -/
lemma makeDirectory (h : Alike s t) (path : Text) :
    (∃ e, s.makeDirectory path = .error e ∧ t.makeDirectory path = .error e) ∨
      ∃ s' t', s.makeDirectory path = .ok s' ∧ t.makeDirectory path = .ok t' ∧ Alike s' t' := by
  have hresembles := h.resembles .entry (dropEndSlashes path)
  unfold State.makeDirectory
  split
  · exact Or.inl ⟨_, rfl, rfl⟩
  generalize hs : s.locate .entry (dropEndSlashes path) = x at hresembles
  generalize ht : t.locate .entry (dropEndSlashes path) = y at hresembles
  cases hresembles with
  | error e => exact Or.inl ⟨e, rfl, rfl⟩
  | object loc n n' => exact Or.inl ⟨.entryExists, rfl, rfl⟩
  | vacancy parent name slashed =>
    have hsview := view_put_vacancy hs Node.isLeaf_emptyDirectory
    have htview := view_put_vacancy ht Node.isLeaf_emptyDirectory
    refine Or.inr ⟨_, _, rfl, rfl, h.home, ?_, fun loc => ?_⟩
    · rw [frame_of_view_update htview, frame_of_view_update hsview, h.frame]
    · rw [hsview, htview]
      by_cases hloc : loc = parent ++ [name]
      · rw [hloc, Function.update_self, Function.update_self]
      · rw [Function.update_of_ne hloc, Function.update_of_ne hloc]
        exact h.absent loc

end Alike

end State

end EditorDocs.FileSystem
