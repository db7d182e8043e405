import EditorDocs.Proofs.FileSystem.Alike

/-!
# File systems that differ in one file

The outline of a tree is the tree with all its files emptied; it still shows the entries of each
directory in their order.  Two file systems are twins if one file, the log's, may differ in its
content and nothing else does (`State.Twin`): they have the same outline, and the same stands at
every other location.

All paths lead to the same places in twins (`State.Twin.locate`), so file operations go in the same
way and leave twins behind.  What the log's file holds is seen only if it is read
(`State.Twin.read`).
-/

namespace EditorDocs.FileSystem

/-! ## Outlines -/

namespace Node

mutual

/-- The tree with all its files emptied. -/
def outline : Node → Node
  | .file _ => .file []
  | .link target => .link target
  | .directory es => .directory (outlineOfEntries es)

/-- The entries with all files emptied. -/
def outlineOfEntries : Entries → Entries
  | [] => []
  | (name, n) :: rest => (name, n.outline) :: outlineOfEntries rest

end

/-- An entry shows in the outline. -/
lemma get?_outline (name : Name) (es : Entries) :
    Table.get? name (outlineOfEntries es) = (Table.get? name es).map outline := by
  induction es with
  | nil => rfl
  | cons e rest ih =>
    obtain ⟨k, n⟩ := e
    rw [outlineOfEntries, Table.get?, Table.get?]
    by_cases hk : k = name
    · rw [if_pos hk, if_pos hk]
      rfl
    · rw [if_neg hk, if_neg hk, ih]

/-- A node shows in the outline. -/
lemma find?_outline (loc : Location) (root : Node) :
    find? loc root.outline = (find? loc root).map outline := by
  induction loc generalizing root with
  | nil => rfl
  | cons name rest ih =>
    cases root with
    | file content => rfl
    | link target => rfl
    | directory es =>
      rw [outline, find?, find?, get?_outline]
      cases Table.get? name es with
      | none => rfl
      | some child => exact ih child

/-- An entry that is put into a directory shows in the outline. -/
lemma outlineOfEntries_put (name : Name) (n : Node) (es : Entries) :
    outlineOfEntries (Table.put name n es) = Table.put name n.outline (outlineOfEntries es) := by
  induction es with
  | nil => rfl
  | cons e rest ih =>
    obtain ⟨k, m⟩ := e
    rw [Table.put, outlineOfEntries, Table.put]
    by_cases hk : k = name
    · rw [if_pos hk, if_pos hk]
      rfl
    · rw [if_neg hk, if_neg hk, outlineOfEntries, ih]

/-- An entry that goes does not show in the outline any more. -/
lemma outlineOfEntries_erase (name : Name) (es : Entries) :
    outlineOfEntries (Entries.erase name es) = Entries.erase name (outlineOfEntries es) := by
  induction es with
  | nil => rfl
  | cons e rest ih =>
    obtain ⟨k, m⟩ := e
    unfold Entries.erase at ih ⊢
    rw [outlineOfEntries, List.filter_cons, List.filter_cons]
    by_cases hk : k = name
    · simp only [hk, ne_eq, not_true_eq_false, decide_false, Bool.false_eq_true, if_false]
      exact ih
    · simp only [hk, ne_eq, not_false_eq_true, decide_true, if_true]
      rw [outlineOfEntries, ih]

/-- A node that is put into a tree shows in the outline. -/
lemma outline_put (n : Node) (loc : Location) (root : Node) :
    (put n loc root).outline = put n.outline loc root.outline := by
  induction loc generalizing root with
  | nil => rfl
  | cons name rest ih =>
    cases root with
    | file content => rfl
    | link target => rfl
    | directory es =>
      cases rest with
      | nil =>
        have hput := outlineOfEntries_put name n es
        simpa [put, outline] using hput
      | cons name' rest =>
        have hget := get?_outline name es
        cases hchild : Table.get? name es with
        | none =>
          rw [hchild, Option.map_none] at hget
          simp [put, outline, hchild, hget]
        | some child =>
          rw [hchild, Option.map_some] at hget
          simp [put, outline, hchild, hget, outlineOfEntries_put, ih]

/-- A node that is removed does not show in the outline any more. -/
lemma outline_remove (loc : Location) (root : Node) :
    (remove loc root).outline = remove loc root.outline := by
  induction loc generalizing root with
  | nil => rfl
  | cons name rest ih =>
    cases root with
    | file content => rfl
    | link target => rfl
    | directory es =>
      cases rest with
      | nil =>
        have herase := outlineOfEntries_erase name es
        simpa [remove, outline] using herase
      | cons name' rest =>
        have hget := get?_outline name es
        cases hchild : Table.get? name es with
        | none =>
          rw [hchild, Option.map_none] at hget
          simp [remove, outline, hchild, hget]
        | some child =>
          rw [hchild, Option.map_some] at hget
          simp [remove, outline, hchild, hget, outlineOfEntries_put, ih]

mutual

/-- The names of a tree are those of its outline. -/
theorem anyName_outline (p : Name → Bool) : (n : Node) → n.outline.anyName p = n.anyName p
  | .file _ => rfl
  | .link _ => rfl
  | .directory es => anyNameOfEntries_outline p es

/-- The names of entries are those of their outlines. -/
theorem anyNameOfEntries_outline (p : Name → Bool) :
    (es : Entries) → anyNameOfEntries p (outlineOfEntries es) = anyNameOfEntries p es
  | [] => rfl
  | (name, n) :: rest => by
    rw [outlineOfEntries, anyNameOfEntries, anyNameOfEntries, anyName_outline p n,
      anyNameOfEntries_outline p rest]

end

/-- Putting a node where it stands changes nothing. -/
lemma put_of_find? {loc : Location} {n root : Node} (h : find? loc root = some n) :
    put n loc root = root := by
  have hself : ∀ {name : Name} {child : Node} {es : Entries}, Table.get? name es = some child →
      Table.put name child es = es := by
    intro name child es hget
    induction es with
    | nil => cases hget
    | cons e rest ih =>
      obtain ⟨k, m⟩ := e
      rw [Table.get?] at hget
      rw [Table.put]
      by_cases hk : k = name
      · rw [if_pos hk] at hget ⊢
        cases hget
        rfl
      · rw [if_neg hk] at hget ⊢
        rw [ih hget]
  induction loc generalizing root with
  | nil =>
    cases h
    rfl
  | cons name rest ih =>
    cases root with
    | file content => cases h
    | link target => cases h
    | directory es =>
      rw [find?] at h
      obtain ⟨child, hget, hchild⟩ := Option.bind_eq_some_iff.mp h
      cases rest with
      | nil =>
        cases hchild
        simp [put, hself hget]
      | cons name' rest =>
        simp [put, hget, ih hchild, hself hget]

/-- Nodes with the same outline have the same fixture. -/
lemma fixture?_of_outline {n n' : Node} (h : n'.outline = n.outline) :
    n'.face.fixture? = n.face.fixture? := by
  cases n <;> cases n' <;> simp only [Node.outline, reduceCtorEq] at h
  · rfl
  · cases h
    rfl
  · rfl

end Node

/-! ## Twins -/

namespace State

/-- The file of the log, if there is one, may differ in its content; nothing else does. -/
structure Twin (log : Option Location) (s t : State) : Prop where
  /-- The working directory is the same. -/
  home : t.home = s.home
  /-- The outlines are the same. -/
  outline : t.root.outline = s.root.outline
  /-- The same stands everywhere else. -/
  view : ∀ loc, log ≠ some loc → t.view loc = s.view loc
  /-- The log's file is there. -/
  logged : ∀ loc, log = some loc → ∃ content, s.view loc = some (.file content)

namespace Twin

variable {log log' : Option Location} {s t u : State} {path : Text}

/-- A file system is its own twin. -/
lemma refl (h : ∀ loc, log = some loc → ∃ content, s.view loc = some (.file content)) :
    Twin log s s := ⟨rfl, rfl, fun _ _ => rfl, h⟩

/-- Whatever is found in a file system is found in its twin, with the same outline. -/
lemma find? (h : Twin log s t) (loc : Location) :
    (Node.find? loc t.root).map Node.outline = (Node.find? loc s.root).map Node.outline := by
  rw [← Node.find?_outline, ← Node.find?_outline, h.outline]

/-- Twins are alike. -/
lemma alike (h : Twin log s t) : Alike s t := by
  have hfind := h.find?
  refine ⟨h.home, ?_, ?_⟩
  · funext loc
    have hloc := hfind loc
    unfold frame State.view Node.view
    cases hs : Node.find? loc s.root with
    | none =>
      rw [hs, Option.map_none, Option.map_eq_none_iff] at hloc
      rw [hloc]
    | some n =>
      rw [hs, Option.map_some] at hloc
      obtain ⟨n', hn', houtline⟩ := Option.map_eq_some_iff.mp hloc
      rw [hn']
      exact Node.fixture?_of_outline houtline
  · intro loc
    have hloc := congrArg (· = none) (hfind loc)
    simpa [State.view, Node.view] using hloc

/-- Being twins is mutual. -/
lemma symm (h : Twin log s t) : Twin log t s := by
  refine ⟨h.home.symm, h.outline.symm, fun loc hloc => (h.view loc hloc).symm, fun loc hloc => ?_⟩
  obtain ⟨content, hcontent⟩ := h.logged loc hloc
  obtain ⟨n, hn, hface⟩ := exists_node_of_view hcontent
  have hfind := h.find? loc
  rw [hn, Option.map_some] at hfind
  obtain ⟨n', hn', houtline⟩ := Option.map_eq_some_iff.mp hfind
  rw [view_eq_of_find? hn']
  cases n with
  | link target => cases hface
  | directory es => cases hface
  | file c =>
    cases n' with
    | file c' => exact ⟨c', rfl⟩
    | link target => cases houtline
    | directory es => cases houtline

/-- The twin of a twin is one. -/
lemma trans (h : Twin log s t) (h' : Twin log t u) : Twin log s u :=
  ⟨h'.home.trans h.home, h'.outline.trans h.outline,
    fun loc hloc => (h'.view loc hloc).trans (h.view loc hloc), h.logged⟩

/-! ## Paths -/

/-- Where a path leads in twins: nowhere, to nodes with the same outline, which are the same file or
link unless they are the log's file, or to the same vacancy. -/
inductive Leads (log : Option Location) : Except Errno Place → Except Errno Place → Prop where
  /-- Following the path fails. -/
  | error (e : Errno) : Leads log (.error e) (.error e)
  /-- The path leads to nodes. -/
  | object {loc : Location} {n n' : Node} (outline : n'.outline = n.outline)
      (face : log ≠ some loc → n'.face = n.face) :
      Leads log (.ok (.object loc n)) (.ok (.object loc n'))
  /-- The path leads to a vacancy. -/
  | vacancy (parent : Location) (name : Name) (slashed : Bool) :
      Leads log (.ok (.vacancy parent name slashed)) (.ok (.vacancy parent name slashed))

/-- A path leads to the same place in twins. -/
theorem locate (h : Twin log s t) (m : Manner) (path : Text) :
    Leads log (s.locate m path) (t.locate m path) := by
  have hresembles := h.alike.resembles m path
  generalize hs : s.locate m path = x at hresembles ⊢
  generalize ht : t.locate m path = y at hresembles ⊢
  cases hresembles with
  | error e => exact .error e
  | vacancy parent name slashed => exact .vacancy parent name slashed
  | object loc n n' =>
    have hfind := h.find? loc
    rw [find?_of_object hs, find?_of_object ht, Option.map_some, Option.map_some,
      Option.some.injEq] at hfind
    refine .object hfind fun hloc => ?_
    have hview := h.view loc hloc
    rwa [view_eq_of_find? (find?_of_object hs), view_eq_of_find? (find?_of_object ht),
      Option.some.injEq] at hview

/-! ## Looking -/

/-- A file other than the log's is read in the same way. -/
lemma read (h : Twin log s t)
    (hlog : ∀ loc n, s.locate .lookup path = .ok (.object loc n) → log ≠ some loc) :
    t.read path = s.read path := by
  have hlocate := h.locate .lookup path
  unfold State.read State.lookup
  generalize hs : s.locate .lookup path = x at hlocate hlog
  generalize t.locate .lookup path = y at hlocate
  cases hlocate with
  | error e => rfl
  | vacancy parent name slashed => rfl
  | @object loc n n' houtline hface =>
    have hsame := hface (hlog loc n rfl)
    cases n <;> cases n' <;> first | rfl | cases hsame
    rfl

/-- A directory is listed in the same way, up to what files hold. -/
lemma list (h : Twin log s t) (path : Text) :
    (t.list path).map Node.outlineOfEntries = (s.list path).map Node.outlineOfEntries := by
  have hlocate := h.locate .lookup path
  unfold State.list State.lookup
  generalize s.locate .lookup path = x at hlocate
  generalize t.locate .lookup path = y at hlocate
  cases hlocate with
  | error e => rfl
  | vacancy parent name slashed => rfl
  | @object loc n n' houtline hface =>
    cases n <;> cases n' <;> simp only [Node.outline, reduceCtorEq] at houtline
    · rfl
    · rfl
    · exact congrArg Except.ok (Node.directory.inj houtline)

/-! ## Changing -/

/-- Twins that are changed at one location in the same way are twins, whether it is the log's or
not. -/
lemma update (h : Twin log s t) {s' t' : State} {loc : Location} {f : Option Face}
    (hs : s'.home = s.home) (ht : t'.home = t.home) (houtline : t'.root.outline = s'.root.outline)
    (hsview : s'.view = Function.update s.view loc f)
    (htview : t'.view = Function.update t.view loc f)
    (hlog : ∀ l, log' = some l → log = some l ∧ (l = loc → ∃ content, f = some (.file content)))
    (hgone : ∀ l, log = some l → log' = some l ∨ l = loc) : Twin log' s' t' := by
  refine ⟨by rw [hs, ht, h.home], houtline, fun l hl => ?_, fun l hl => ?_⟩
  · rw [hsview, htview]
    by_cases hloc : l = loc
    · rw [hloc, Function.update_self, Function.update_self]
    · rw [Function.update_of_ne hloc, Function.update_of_ne hloc]
      refine h.view l fun hold => ?_
      rcases hgone l hold with hkept | hsame
      · exact hl hkept
      · exact hloc hsame
  · obtain ⟨hold, hfile⟩ := hlog l hl
    rw [hsview]
    by_cases hloc : l = loc
    · obtain ⟨content, hcontent⟩ := hfile hloc
      exact ⟨content, by rw [hloc, Function.update_self, hcontent]⟩
    · rw [Function.update_of_ne hloc]
      exact h.logged l hold

/-- Twins that are changed at one location other than the log's are twins. -/
lemma update_of_ne (h : Twin log s t) {s' t' : State} {loc : Location} {f : Option Face}
    (hs : s'.home = s.home) (ht : t'.home = t.home) (houtline : t'.root.outline = s'.root.outline)
    (hsview : s'.view = Function.update s.view loc f)
    (htview : t'.view = Function.update t.view loc f) (hloc : log ≠ some loc) : Twin log s' t' := by
  refine h.update hs ht houtline hsview htview (fun l hl => ⟨hl, ?_⟩) fun l hl => Or.inl hl
  rintro rfl
  exact absurd hl hloc

/-- What is not there is not the log's file. -/
lemma ne_of_view_none (h : Twin log s t) {loc : Location} (hloc : s.view loc = none) :
    log ≠ some loc := by
  intro hl
  obtain ⟨content, hcontent⟩ := h.logged loc hl
  rw [hloc] at hcontent
  cases hcontent

/-- An entry that is put into twins leaves the same outline. -/
lemma outline_put (h : Twin log s t) (loc : Location) {n n' : Node} (hn : n'.outline = n.outline) :
    (t.put loc n').root.outline = (s.put loc n).root.outline := by
  rw [State.put, State.put, Node.outline_put, Node.outline_put, h.outline, hn]

/-- An entry that is removed from twins leaves the same outline. -/
lemma outline_remove (h : Twin log s t) (loc : Location) :
    (t.remove loc).root.outline = (s.remove loc).root.outline := by
  rw [State.remove, State.remove, Node.outline_remove, Node.outline_remove, h.outline]

/-- The same happens to twins: an operation fails for the same cause, or has the same result and
leaves twins behind. -/
inductive Same {α : Type} (log' : α → Option Location) :
    Except Errno (α × State) → Except Errno (α × State) → Prop where
  /-- The operation fails. -/
  | error (e : Errno) : Same log' (.error e) (.error e)
  /-- The operation succeeds. -/
  | ok {a : α} {s t : State} (h : Twin (log' a) s t) : Same log' (.ok (a, s)) (.ok (a, t))

/-- A leaf that takes the vacancy to which a path leads leaves twins behind. -/
lemma put_vacancy (h : Twin log s t) {m : Manner} {parent : Location} {name : Name} {slashed : Bool}
    (hs : s.locate m path = .ok (.vacancy parent name slashed))
    (ht : t.locate m path = .ok (.vacancy parent name slashed)) {n : Node} (hn : n.IsLeaf) :
    Twin log (s.put (parent ++ [name]) n) (t.put (parent ++ [name]) n) := by
  exact h.update_of_ne rfl rfl (h.outline_put _ rfl) (view_put_vacancy hs hn)
    (view_put_vacancy ht hn) (h.ne_of_view_none (view_of_vacancy hs).2)

/-- A content that is given to a file leaves twins behind, even if the file is the log's. -/
lemma put_file (h : Twin log s t) {loc : Location} {old old' : Bytes}
    (hs : s.view loc = some (.file old)) (ht : t.view loc = some (.file old')) (content : Bytes) :
    Twin log (s.put loc (.file content)) (t.put loc (.file content)) := by
  have hsview : (s.put loc (.file content)).view =
      Function.update s.view loc (some (.file content)) :=
    view_put_of_some (Node.isLeaf_file content) (by simp [hs]) (by simp [hs])
  have htview : (t.put loc (.file content)).view =
      Function.update t.view loc (some (.file content)) :=
    view_put_of_some (Node.isLeaf_file content) (by simp [ht]) (by simp [ht])
  exact h.update rfl rfl (h.outline_put loc rfl) hsview htview
    (fun l hl => ⟨hl, fun _ => ⟨content, rfl⟩⟩) fun l hl => Or.inl hl

/-- The same directories can be made. -/
lemma makeDirectory (h : Twin log s t) (path : Text) :
    Same (fun _ => log) ((s.makeDirectory path).map fun s => ((), s))
      ((t.makeDirectory path).map fun t => ((), t)) := by
  have hlocate := h.locate .entry (dropEndSlashes path)
  unfold State.makeDirectory
  split
  · exact .error _
  generalize hs : s.locate .entry (dropEndSlashes path) = x at hlocate
  generalize ht : t.locate .entry (dropEndSlashes path) = y at hlocate
  cases hlocate with
  | error e => exact .error e
  | object houtline hface => exact .error .entryExists
  | vacancy parent name slashed => exact .ok (h.put_vacancy hs ht Node.isLeaf_emptyDirectory)

/-- The same files can be created. -/
lemma createFile (h : Twin log s t) (path : Text) :
    Same (fun _ => log) (s.createFile path) (t.createFile path) := by
  have hlocate := h.locate .entry path
  unfold State.createFile
  generalize hs : s.locate .entry path = x at hlocate
  generalize ht : t.locate .entry path = y at hlocate
  cases hlocate with
  | error e => exact .error e
  | object houtline hface => exact .error .entryExists
  | vacancy parent name slashed => exact .ok (h.put_vacancy hs ht (Node.isLeaf_file []))

/-- The same files can be opened to be overwritten. -/
lemma openForWriting (h : Twin log s t) (path : Text) :
    Same (fun _ => log) (s.openForWriting true path) (t.openForWriting true path) := by
  have hlocate := h.locate .write path
  unfold State.openForWriting
  generalize hs : s.locate .write path = x at hlocate
  generalize ht : t.locate .write path = y at hlocate
  cases hlocate with
  | error e => exact .error e
  | vacancy parent name slashed => exact .ok (h.put_vacancy hs ht (Node.isLeaf_file []))
  | @object loc n n' houtline hface =>
    cases n with
    | link target =>
      cases n' <;> first | exact .error .isDirectory | cases houtline
    | directory es =>
      cases n' <;> first | exact .error .isDirectory | cases houtline
    | file old =>
      cases n' with
      | link target => cases houtline
      | directory es => cases houtline
      | file old' =>
        exact .ok (h.put_file (view_eq_of_find? (find?_of_object hs))
          (view_eq_of_find? (find?_of_object ht)) [])

/-- An open file is given a content in the same way. -/
lemma store (h : Twin log s t) (loc : Location) (content : Bytes) :
    Twin log (s.store loc content) (t.store loc content) := by
  have hfind := h.find? loc
  unfold State.store
  cases hs : Node.find? loc s.root with
  | none =>
    rw [hs, Option.map_none, Option.map_eq_none_iff] at hfind
    rw [hfind]
    exact h
  | some n =>
    rw [hs, Option.map_some] at hfind
    obtain ⟨n', ht, houtline⟩ := Option.map_eq_some_iff.mp hfind
    rw [ht]
    cases n with
    | link target => cases n' <;> first | exact h | cases houtline
    | directory es => cases n' <;> first | exact h | cases houtline
    | file old =>
      cases n' with
      | link target => cases houtline
      | directory es => cases houtline
      | file old' => exact h.put_file (view_eq_of_find? hs) (view_eq_of_find? ht) content

/-- A file system whose log has grown is a twin. -/
lemma append {loc : Location} (h : ∃ content, s.view loc = some (.file content)) (more : Bytes) :
    Twin (some loc) s (s.append loc more) := by
  obtain ⟨content, hcontent⟩ := h
  have hfind := find?_of_view_file hcontent
  refine ⟨home_append s loc more, ?_, fun l hl => ?_, fun l hl => ?_⟩
  · unfold State.append
    rw [hfind]
    simp only [State.put, Node.outline_put]
    exact Node.put_of_find? (by rw [Node.find?_outline, hfind]; rfl)
  · exact view_append_of_ne (fun hsame => hl (by rw [hsame])) more
  · cases hl
    exact ⟨content, hcontent⟩

/-! ## Deleting and moving -/

/-- What is left of the log after the entry at a location has gone. -/
def without (log : Option Location) (loc : Location) : Option Location :=
  if log = some loc then none else log

/-- An entry that is no directory and is removed leaves twins behind, of which the log is lost if it
was its file. -/
lemma remove (h : Twin log s t) {loc : Location} (hne : loc ≠ [])
    (hs : s.view loc ≠ some .directory)
    (ht : t.view loc ≠ some .directory) : Twin (without log loc) (s.remove loc) (t.remove loc) := by
  refine h.update rfl rfl (h.outline_remove loc) (State.view_remove hne hs)
    (State.view_remove hne ht) (fun l hl => ?_) fun l hl => ?_
  · unfold without at hl
    split at hl
    · cases hl
    · rename_i hlog
      exact ⟨hl, fun hsame => absurd (hsame ▸ hl) hlog⟩
  · unfold without
    split
    · rename_i hlog
      rw [hl, Option.some.injEq] at hlog
      exact Or.inr hlog
    · exact Or.inl hl

/-- Nodes with the same outline are both directories or neither. -/
lemma face_ne_directory {n n' : Node} (houtline : n'.outline = n.outline)
    (hn : n.face ≠ .directory) : n'.face ≠ .directory := by
  intro hdirectory
  obtain ⟨es, rfl⟩ := Node.face_eq_directory hdirectory
  cases n with
  | directory es' => exact hn rfl
  | file content => cases houtline
  | link target => cases houtline

/-- An entry that is no directory is seen in one. -/
lemma view_of_entry {u : State} {path : Text} {loc : Location} {n : Node}
    (hu : u.locate .entry path = .ok (.object loc n)) (hn : n.face ≠ .directory) :
    u.view loc.dropLast = some .directory ∧ u.view loc ≠ some .directory := by
  have hface : u.view loc = some n.face := view_eq_of_find? (find?_of_object hu)
  constructor
  · have hsome : u.view loc ≠ none := by simp [hface]
    exact (eq_nil_or_directory hsome).resolve_left (ne_nil_of_locate hu hn)
  · rw [hface]
    exact fun he => hn (Option.some.inj he)

/-- The same files can be deleted, and if it is the log's then the log is lost. -/
lemma unlink (h : Twin log s t) (path : Text) :
    Same (without log) (s.unlink path) (t.unlink path) := by
  have hlocate := h.locate .entry path
  generalize hs : s.locate .entry path = x at hlocate
  generalize ht : t.locate .entry path = y at hlocate
  cases hlocate with
  | error e =>
    simp only [State.unlink, hs, ht]
    exact .error e
  | vacancy parent name slashed =>
    simp only [State.unlink, hs, ht]
    exact .error .noEntry
  | @object loc n n' houtline hface =>
    by_cases hn : n.face = .directory
    · obtain ⟨es, rfl⟩ := Node.face_eq_directory hn
      cases n' <;> try cases houtline
      simp only [State.unlink, hs, ht]
      exact .error .isDirectory
    · have hn' := face_ne_directory houtline hn
      rw [unlink_of_locate hs hn, unlink_of_locate ht hn']
      exact .ok (h.remove (ne_nil_of_locate hs hn) (view_of_entry hs hn).2
        (view_of_entry ht hn').2)

/-- A file that is moved takes the place of an entry that is no directory, and the log is lost if it
was its file. -/
lemma move (h : Twin log s t) {src dest : Location} {content : Bytes} (hroot : src ≠ [])
    (hs : s.view src = some (.file content)) (ht : t.view src = some (.file content))
    (hlog : log ≠ some src) (hne : dest ≠ src)
    (hparent : s.view dest.dropLast = some .directory)
    (hparent' : t.view dest.dropLast = some .directory)
    (hdest : s.view dest ≠ some .directory) (hdest' : t.view dest ≠ some .directory) :
    Twin (without log dest) ((s.remove src).put dest (.file content))
      ((t.remove src).put dest (.file content)) := by
  have hremoved : Twin log (s.remove src) (t.remove src) := by
    have hkept : without log src = log := if_neg hlog
    rw [← hkept]
    exact h.remove hroot (by simp [hs]) (by simp [ht])
  have hview : ∀ {u : State}, u.view src = some (.file content) →
      u.view dest.dropLast = some .directory → u.view dest ≠ some .directory →
        ((u.remove src).put dest (.file content)).view =
          Function.update (u.remove src).view dest (some (.file content)) := by
    intro u hfile hup hnot
    rw [view_remove_put hroot hfile hne (Or.inr hup) hnot,
      State.view_remove hroot (by simp [hfile])]
  refine hremoved.update rfl rfl (hremoved.outline_put dest rfl) (hview hs hparent hdest)
    (hview ht hparent' hdest') (fun l hl => ?_) fun l hl => ?_
  · unfold without at hl
    split at hl
    · cases hl
    · exact ⟨hl, fun _ => ⟨content, rfl⟩⟩
  · unfold without
    split
    · rename_i hsame
      rw [hl, Option.some.injEq] at hsame
      exact Or.inr hsame
    · exact Or.inl hl

/-- What has to give way to a file that is moved, if anything. -/
def withoutGone (log : Option Location) : Option Location → Option Location
  | some loc => without log loc
  | none => log

/-- A file other than the log's is found in both. -/
lemma locate_file (h : Twin log s t) {path : Text} {loc : Location} {content : Bytes}
    (hs : s.locate .entry path = .ok (.object loc (.file content))) (hlog : log ≠ some loc) :
    t.locate .entry path = .ok (.object loc (.file content)) := by
  have hlocate := h.locate .entry path
  rw [hs] at hlocate
  generalize t.locate .entry path = y at hlocate
  cases hlocate with
  | @object _ _ n' houtline hface =>
    have hsame := hface hlog
    cases n' <;> cases hsame
    rfl

/-- A file other than the log's is moved in the same way, and the log is lost if its file has to
give way. -/
lemma replace (h : Twin log s t) {source : Text} {src : Location} {content : Bytes}
    (hsource : s.locate .entry source = .ok (.object src (.file content))) (hlog : log ≠ some src)
    (target : Text) :
    Same (withoutGone log) (s.replace source target) (t.replace source target) := by
  have hsrc : s.view src = some (.file content) := view_eq_of_find? (find?_of_object hsource)
  have hroot : src ≠ [] := ne_nil_of_locate hsource (by simp [Node.face])
  have hsource' := h.locate_file hsource hlog
  have hsrc' : t.view src = some (.file content) := view_eq_of_find? (find?_of_object hsource')
  have hlocate := h.locate .entry target
  generalize hs : s.locate .entry target = x at hlocate
  generalize ht : t.locate .entry target = y at hlocate
  cases hlocate with
  | error e =>
    rw [replace_of_error hsource hs, replace_of_error hsource' ht]
    exact .error e
  | vacancy parent name slashed =>
    rw [replace_of_vacancy hsource hs, replace_of_vacancy hsource' ht]
    cases slashed with
    | true => exact .error .notDirectory
    | false =>
      obtain ⟨hup, hnone⟩ := view_of_vacancy hs
      obtain ⟨hup', hnone'⟩ := view_of_vacancy ht
      have hne : parent ++ [name] ≠ src := by
        intro he
        rw [he, hsrc] at hnone
        cases hnone
      have hmoved := h.move hroot hsrc hsrc' hlog hne (by rwa [List.dropLast_concat])
        (by rwa [List.dropLast_concat]) (by simp [hnone]) (by simp [hnone'])
      rw [without, if_neg (h.ne_of_view_none hnone)] at hmoved
      exact .ok hmoved
  | @object loc n n' houtline hface =>
    by_cases hn : n.face = .directory
    · obtain ⟨es, rfl⟩ := Node.face_eq_directory hn
      cases n' <;> try cases houtline
      rw [replace_of_directory hsource hs, replace_of_directory hsource' ht]
      exact .error .isDirectory
    · have hn' := face_ne_directory houtline hn
      rw [replace_of_object hsource hs hn, replace_of_object hsource' ht hn']
      split
      · exact .ok h
      · rename_i hne
        obtain ⟨hup, hnot⟩ := view_of_entry hs hn
        obtain ⟨hup', hnot'⟩ := view_of_entry ht hn'
        exact .ok (h.move hroot hsrc hsrc' hlog (Ne.symm hne) hup hup' hnot hnot')

end Twin

end State

end EditorDocs.FileSystem
