import EditorDocs.FileSystem.Operations
import EditorDocs.Proofs.Table
import Mathlib.Logic.Function.Basic

/-!
# What stands at each location

The entries of a directory have no order that operations depend on, so a file system is known by
what stands at each location: a file with its content, a symbolic link with its target, a directory,
or nothing.  `State.view` is this function, and the operations that change one entry change it at
one location (`State.view_put`, `State.view_remove`).

`State.frame` leaves the files out.  Directories and links are all that a path is followed through,
so states with the same frame lead a path to the same location.
-/

namespace EditorDocs

namespace Table

/-- A name that is erased is not found any more. -/
lemma get?_erase_self (key : FileSystem.Name) (es : FileSystem.Entries) :
    get? key (FileSystem.Entries.erase key es) = none := by
  induction es with
  | nil => rfl
  | cons e rest ih =>
    unfold FileSystem.Entries.erase at ih ⊢
    by_cases h : e.1 = key
    · simpa [h] using ih
    · simpa [h, get?] using ih

/-- Other names than the one that is erased stay. -/
lemma get?_erase_of_ne {key k : FileSystem.Name} (hk : k ≠ key) (es : FileSystem.Entries) :
    get? k (FileSystem.Entries.erase key es) = get? k es := by
  induction es with
  | nil => rfl
  | cons e rest ih =>
    unfold FileSystem.Entries.erase at ih ⊢
    by_cases h : e.1 = key
    · have hne : e.1 ≠ k := fun he => hk (he.symm.trans h)
      simpa [h, get?, hne, Ne.symm hk] using ih
    · by_cases hek : e.1 = k
      · simp [get?, hek, hk]
      · simpa [h, get?, hek] using ih

end Table

namespace FileSystem

/-! ## Entries and their faces -/

/-- An entry without what is below it. -/
inductive Face where
  /-- A file with its content. -/
  | file (content : Bytes)
  /-- A symbolic link with the path that it stands for. -/
  | link (target : Text)
  /-- A directory. -/
  | directory
  deriving DecidableEq

/-- What paths lead through. -/
inductive Fixture where
  /-- A symbolic link with the path that it stands for. -/
  | link (target : Text)
  /-- A directory. -/
  | directory
  deriving DecidableEq

/-- The fixture that a face is of, if it is one. -/
def Face.fixture? : Face → Option Fixture
  | .file _ => none
  | .link target => some (.link target)
  | .directory => some .directory

/-- The face of a fixture. -/
def Fixture.face : Fixture → Face
  | .link target => .link target
  | .directory => .directory

namespace Node

/-- The entry without what is below it. -/
def face : Node → Face
  | .file content => .file content
  | .link target => .link target
  | .directory _ => .directory

/-- What stands at each location below a node. -/
def view (root : Node) (loc : Location) : Option Face := (find? loc root).map face

/-- Nothing stands below a node that is no directory, or an empty one. -/
def IsLeaf (n : Node) : Prop := ∀ name rest, find? (name :: rest) n = none

lemma isLeaf_file (content : Bytes) : (Node.file content).IsLeaf := fun _ _ => rfl

lemma isLeaf_emptyDirectory : (Node.directory []).IsLeaf := fun _ _ => rfl

/-- Looking below a location is looking twice. -/
lemma find?_append (a b : Location) (root : Node) :
    find? (a ++ b) root = (find? a root).bind (find? b) := by
  induction a generalizing root with
  | nil => rfl
  | cons name rest ih =>
    cases root with
    | directory es =>
      simp only [List.cons_append, find?]
      cases Table.get? name es with
      | none => rfl
      | some child => exact ih child
    | file _ => rfl
    | link _ => rfl

/-- A node has the face of a directory only if it is one. -/
lemma face_eq_directory {n : Node} (h : n.face = .directory) : ∃ es, n = .directory es := by
  cases n with
  | directory es => exact ⟨es, rfl⟩
  | file _ => cases h
  | link _ => cases h

/-- A directory stands where its face is seen. -/
lemma find?_of_view_directory {root : Node} {loc : Location}
    (h : view root loc = some .directory) : ∃ es, find? loc root = some (.directory es) := by
  obtain ⟨n, hn, hface⟩ := Option.map_eq_some_iff.mp h
  obtain ⟨es, rfl⟩ := face_eq_directory hface
  exact ⟨es, hn⟩

/-- Only a directory has something below it. -/
lemma view_dropLast_of_some {root : Node} {loc : Location} (hne : loc ≠ [])
    (h : view root loc ≠ none) : view root loc.dropLast = some .directory := by
  obtain ⟨parent, name, rfl⟩ : ∃ parent name, loc = parent ++ [name] :=
    ⟨loc.dropLast, loc.getLast hne, (List.dropLast_concat_getLast hne).symm⟩
  rw [List.dropLast_concat]
  unfold view at h ⊢
  rw [find?_append] at h
  cases hp : find? parent root with
  | none => simp [hp] at h
  | some n =>
    cases n with
    | directory es => rfl
    | file _ => simp [hp, find?] at h
    | link _ => simp [hp, find?] at h

/-- Below a directory, a location leads through the entry of its first name. -/
lemma view_directory_cons (name : Name) (rest : Location) (es : Entries) :
    view (.directory es) (name :: rest) =
      (Table.get? name es).bind fun child => view child rest := by
  cases h : Table.get? name es <;> simp [view, find?, h]

/-- What holds something below it is a directory. -/
lemma exists_directory_of_view_cons {root : Node} {name : Name} {rest : Location}
    (h : view root (name :: rest) ≠ none) : ∃ es, root = .directory es := by
  cases root with
  | directory es => exact ⟨es, rfl⟩
  | file _ => exact absurd rfl h
  | link _ => exact absurd rfl h

/-- Two views of directories agree up to a change below the entry `name`, if the entries do. -/
lemma view_directory_eq_update {es es' : Entries} {name : Name} {rest : Location}
    {f : Option Face}
    (hother : ∀ k, k ≠ name → Table.get? k es' = Table.get? k es)
    (hname : ∀ tail, view (.directory es') (name :: tail) =
      if tail = rest then f else view (.directory es) (name :: tail)) :
    view (.directory es') = Function.update (view (.directory es)) (name :: rest) f := by
  funext loc
  cases loc with
  | nil =>
    rw [Function.update_of_ne (by simp)]
    rfl
  | cons k tail =>
    by_cases hk : k = name
    · subst hk
      rw [hname tail]
      by_cases ht : tail = rest
      · rw [if_pos ht, ht, Function.update_self]
      · rw [if_neg ht, Function.update_of_ne (by simpa using ht)]
    · rw [Function.update_of_ne (by simp [hk]), view_directory_cons, view_directory_cons,
        hother k hk]

/-- A change below an entry of a directory is a change below the directory. -/
lemma view_put_entry {es : Entries} {name : Name} {child child' : Node} {rest : Location}
    {f : Option Face} (hget : Table.get? name es = some child)
    (h : view child' = Function.update (view child) rest f) :
    view (.directory (Table.put name child' es)) =
      Function.update (view (.directory es)) (name :: rest) f := by
  apply view_directory_eq_update
  · intro k hk
    rw [Table.get?_put, if_neg (Ne.symm hk)]
  · intro tail
    rw [view_directory_cons, view_directory_cons, Table.get?_put, if_pos rfl, hget]
    simp only [Option.bind_some, h, Function.update_apply]

/-- An entry that is put into a directory in the place of nothing or of a leaf is the only change.
The induction follows the location down the tree. -/
lemma view_put {n : Node} (hn : n.IsLeaf) (loc : Location) (root : Node)
    (hparent : loc = [] ∨ view root loc.dropLast = some .directory)
    (hbelow : ∀ name rest, view root (loc ++ name :: rest) = none) :
    view (put n loc root) = Function.update (view root) loc (some n.face) := by
  induction loc generalizing root with
  | nil =>
    funext loc
    cases loc with
    | nil => rfl
    | cons name rest =>
      have hold : view root (name :: rest) = none := hbelow name rest
      rw [Function.update_of_ne (by simp), hold]
      simp only [view, put, hn name rest, Option.map_none]
  | cons a rest ih =>
    cases rest with
    | nil =>
      have hroot : view root [] = some .directory := by simpa using hparent
      obtain ⟨es, hes⟩ := find?_of_view_directory hroot
      simp only [find?, Option.some.injEq] at hes
      subst hes
      have hput : put n [a] (.directory es) = .directory (Table.put a n es) := by simp [put]
      rw [hput]
      apply view_directory_eq_update
      · intro k hk
        rw [Table.get?_put, if_neg (Ne.symm hk)]
      · intro tail
        rw [view_directory_cons, Table.get?_put, if_pos rfl]
        cases tail with
        | nil => rfl
        | cons b tail =>
          have hold : view (.directory es) (a :: b :: tail) = none := hbelow b tail
          rw [if_neg (by simp), hold]
          simp [view, hn b tail]
    | cons b rest =>
      have hchild : view root (a :: (b :: rest).dropLast) = some .directory := by
        simpa using hparent
      obtain ⟨es, rfl⟩ := exists_directory_of_view_cons (by rw [hchild]; simp)
      rw [view_directory_cons] at hchild
      cases hget : Table.get? a es with
      | none => simp [hget] at hchild
      | some child =>
        have hput : put n (a :: b :: rest) (.directory es) =
            .directory (Table.put a (put n (b :: rest) child) es) := by simp [put, hget]
        have hih := ih child (Or.inr (by simpa [hget] using hchild)) (by
          intro name tail
          simpa [view_directory_cons, hget] using hbelow name tail)
        rw [hput]
        exact view_put_entry hget hih

/-- An entry with nothing below it that is removed is the only change. -/
lemma view_remove (loc : Location) (root : Node) (hne : loc ≠ [])
    (hbelow : ∀ name rest, view root (loc ++ name :: rest) = none) :
    view (remove loc root) = Function.update (view root) loc none := by
  induction loc generalizing root with
  | nil => exact absurd rfl hne
  | cons a rest ih =>
    cases root with
    | file c =>
      simp only [remove]
      rw [eq_comm, Function.update_eq_self_iff]
      rfl
    | link t =>
      simp only [remove]
      rw [eq_comm, Function.update_eq_self_iff]
      rfl
    | directory es =>
      cases rest with
      | nil =>
        have hremove : remove [a] (.directory es) = .directory (Entries.erase a es) := by
          simp [remove]
        rw [hremove]
        apply view_directory_eq_update
        · intro k hk
          exact Table.get?_erase_of_ne hk es
        · intro tail
          rw [view_directory_cons, Table.get?_erase_self]
          cases tail with
          | nil => rfl
          | cons b tail =>
            have hold : view (.directory es) (a :: b :: tail) = none := hbelow b tail
            rw [if_neg (by simp), hold]
            rfl
      | cons b rest =>
        cases hget : Table.get? a es with
        | none =>
          have hremove : remove (a :: b :: rest) (.directory es) = .directory es := by
            simp [remove, hget]
          rw [hremove, eq_comm, Function.update_eq_self_iff, view_directory_cons, hget]
          rfl
        | some child =>
          have hremove : remove (a :: b :: rest) (.directory es) =
              .directory (Table.put a (remove (b :: rest) child) es) := by simp [remove, hget]
          have hih := ih child (by simp) (by
            intro name tail
            simpa [view_directory_cons, hget] using hbelow name tail)
          rw [hremove]
          exact view_put_entry hget hih

end Node

/-! ## Views and frames of file systems -/

namespace State

/-- What stands at each location. -/
def view (s : State) (loc : Location) : Option Face := Node.view s.root loc

/-- The directories and links at each location. -/
def frame (s : State) (loc : Location) : Option Fixture := (s.view loc).bind Face.fixture?

/-- The node at a location has the face that is seen there. -/
lemma exists_node_of_view {s : State} {loc : Location} {f : Face} (h : s.view loc = some f) :
    ∃ n, Node.find? loc s.root = some n ∧ n.face = f :=
  Option.map_eq_some_iff.mp h

/-- What the frame shows stands there. -/
lemma view_of_frame {s : State} {loc : Location} {f : Fixture} (h : s.frame loc = some f) :
    s.view loc = some f.face := by
  obtain ⟨face, hface, hfixed⟩ := Option.bind_eq_some_iff.mp h
  rw [hface]
  cases face <;> cases hfixed <;> rfl

/-- A directory that stands somewhere shows in the frame. -/
lemma frame_of_view_directory {s : State} {loc : Location} (h : s.view loc = some .directory) :
    s.frame loc = some .directory := by
  rw [frame, h]
  rfl

/-- A location above a directory is that of a directory. -/
lemma frame_dropLast {s : State} {loc : Location} (h : s.frame loc = some .directory) :
    s.frame loc.dropLast = some .directory := by
  by_cases hne : loc = []
  · rwa [hne] at h ⊢
  · have hview : s.view loc ≠ none := by
      rw [view_of_frame h]
      simp
    exact frame_of_view_directory (Node.view_dropLast_of_some hne hview)

/-- Nothing is found where nothing is seen. -/
lemma find?_eq_none_of_view {s : State} {loc : Location} (h : s.view loc = none) :
    Node.find? loc s.root = none := by
  simpa [view, Node.view] using h

/-- What is seen is the face of what is found. -/
lemma view_eq_of_find? {s : State} {loc : Location} {n : Node}
    (h : Node.find? loc s.root = some n) : s.view loc = some n.face := by
  simp [view, Node.view, h]

/-- A file is found where one is seen. -/
lemma find?_of_view_file {s : State} {loc : Location} {content : Bytes}
    (h : s.view loc = some (.file content)) :
    Node.find? loc s.root = some (.file content) := by
  obtain ⟨n, hn, hface⟩ := exists_node_of_view h
  cases n <;> cases hface
  exact hn

/-- A link is found where one is seen. -/
lemma find?_of_view_link {s : State} {loc : Location} {target : Text}
    (h : s.view loc = some (.link target)) :
    Node.find? loc s.root = some (.link target) := by
  obtain ⟨n, hn, hface⟩ := exists_node_of_view h
  cases n <;> cases hface
  exact hn

/-- Only a directory has something below it. -/
lemma view_below_of_ne_directory {s : State} {loc : Location}
    (h : s.view loc ≠ some .directory) (name : Name) (rest : Location) :
    s.view (loc ++ name :: rest) = none := by
  by_contra hne
  apply h
  cases hn : Node.find? loc s.root with
  | none => simp [view, Node.view, Node.find?_append, hn] at hne
  | some n =>
    have hcons : Node.view n (name :: rest) ≠ none := by
      simpa [view, Node.view, Node.find?_append, hn] using hne
    obtain ⟨es, rfl⟩ := Node.exists_directory_of_view_cons hcons
    simp [view, Node.view, hn, Node.face]

/-- A leaf that takes the place of nothing or of a leaf in a directory is the only change. -/
lemma view_put {s : State} {loc : Location} {n : Node} (hn : n.IsLeaf)
    (hparent : loc = [] ∨ s.view loc.dropLast = some .directory)
    (hold : s.view loc ≠ some .directory) :
    (s.put loc n).view = Function.update s.view loc (some n.face) :=
  Node.view_put hn loc s.root hparent (view_below_of_ne_directory hold)

/-- What is not the root stands in a directory. -/
lemma eq_nil_or_directory {s : State} {loc : Location} (h : s.view loc ≠ none) :
    loc = [] ∨ s.view loc.dropLast = some .directory := by
  by_cases hne : loc = []
  · exact Or.inl hne
  · exact Or.inr (Node.view_dropLast_of_some hne h)

/-- A leaf that takes the place of another entry than a directory is the only change. -/
lemma view_put_of_some {s : State} {loc : Location} {n : Node} (hn : n.IsLeaf)
    (hsome : s.view loc ≠ none) (hold : s.view loc ≠ some .directory) :
    (s.put loc n).view = Function.update s.view loc (some n.face) :=
  view_put hn (eq_nil_or_directory hsome) hold

/-- An entry other than a directory that is removed is the only change. -/
lemma view_remove {s : State} {loc : Location} (hne : loc ≠ [])
    (hold : s.view loc ≠ some .directory) :
    (s.remove loc).view = Function.update s.view loc none :=
  Node.view_remove loc s.root hne (view_below_of_ne_directory hold)

/-- A file that is open is the only one whose content changes when it is stored. -/
lemma view_store {s : State} {loc : Location} {old : Bytes} (content : Bytes)
    (h : s.view loc = some (.file old)) :
    (s.store loc content).view = Function.update s.view loc (some (.file content)) := by
  have hfind := find?_of_view_file h
  have hstore : s.store loc content = s.put loc (.file content) := by
    simp [store, hfind]
  rw [hstore]
  exact view_put_of_some (Node.isLeaf_file content) (by simp [h]) (by simp [h])

/-- Storing leaves the working directory alone. -/
@[simp] lemma home_store (s : State) (loc : Location) (content : Bytes) :
    (s.store loc content).home = s.home := by
  unfold store
  split <;> rfl

/-- Adding to a file leaves the working directory alone. -/
@[simp] lemma home_append (s : State) (loc : Location) (more : Bytes) :
    (s.append loc more).home = s.home := by
  unfold append
  split <;> rfl

@[simp] lemma home_put (s : State) (loc : Location) (n : Node) : (s.put loc n).home = s.home := rfl

@[simp] lemma home_remove (s : State) (loc : Location) : (s.remove loc).home = s.home := rfl

/-- A file that is added to is the only one whose content changes. -/
lemma view_append_of_file {s : State} {loc : Location} {content : Bytes} (more : Bytes)
    (h : s.view loc = some (.file content)) :
    (s.append loc more).view = Function.update s.view loc (some (.file (content ++ more))) := by
  have hfind := find?_of_view_file h
  have happend : s.append loc more = s.put loc (.file (content ++ more)) := by
    simp [append, hfind]
  rw [happend]
  exact view_put_of_some (Node.isLeaf_file _) (by simp [h]) (by simp [h])

/-- Adding to a file that is not there does nothing; otherwise only its content changes. -/
lemma view_append (s : State) (loc : Location) (more : Bytes) :
    (s.append loc more).view = s.view ∨
      ∃ content, s.view loc = some (.file content) ∧
        (s.append loc more).view = Function.update s.view loc (some (.file (content ++ more))) := by
  by_cases h : ∃ content, s.view loc = some (.file content)
  · obtain ⟨content, hview⟩ := h
    exact Or.inr ⟨content, hview, view_append_of_file more hview⟩
  · left
    unfold append
    split
    · rename_i content hfind
      exact absurd ⟨content, view_eq_of_find? hfind⟩ h
    · rfl

/-- Adding to a file leaves all other locations alone. -/
lemma view_append_of_ne {s : State} {loc loc' : Location} (hne : loc' ≠ loc) (more : Bytes) :
    (s.append loc more).view loc' = s.view loc' := by
  rcases view_append s loc more with h | ⟨content, -, h⟩
  · rw [h]
  · rw [h, Function.update_of_ne hne]

/-- The frame after one entry has changed. -/
lemma frame_of_view_update {s s' : State} {loc : Location} {f : Option Face}
    (h : s'.view = Function.update s.view loc f) :
    s'.frame = Function.update s.frame loc (f.bind Face.fixture?) := by
  funext loc'
  unfold frame
  by_cases hloc : loc' = loc
  · simp [h, hloc]
  · simp [h, hloc]

/-- Directories and links stay where something comes to where nothing was. -/
lemma frame_of_view_update_none {s s' : State} {loc : Location} {f : Option Face}
    (h : s'.view = Function.update s.view loc f) (hnone : s.view loc = none) {loc' : Location}
    {x : Fixture} (hx : s.frame loc' = some x) : s'.frame loc' = some x := by
  rw [frame_of_view_update h, Function.update_of_ne, hx]
  rintro rfl
  rw [frame, hnone] at hx
  cases hx

/-- Files that come and go do not show in the frame. -/
lemma frame_eq_of_view_update {s s' : State} {loc : Location} {f : Option Face}
    (h : s'.view = Function.update s.view loc f) (hold : s.frame loc = f.bind Face.fixture?) :
    s'.frame = s.frame := by
  rw [frame_of_view_update h, ← hold, Function.update_eq_self]

/-- Adding to a file does not show in the frame. -/
@[simp] lemma frame_append (s : State) (loc : Location) (more : Bytes) :
    (s.append loc more).frame = s.frame := by
  rcases view_append s loc more with h | ⟨content, hc, h⟩
  · unfold frame
    rw [h]
  · exact frame_eq_of_view_update h (by simp [frame, hc, Face.fixture?])

end State

end FileSystem

end EditorDocs
