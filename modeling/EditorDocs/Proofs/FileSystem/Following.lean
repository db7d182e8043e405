import EditorDocs.Proofs.FileSystem.Landing

/-!
# Where paths lead

A path leads where directories and links do, and what the files add is settled at the end
(`State.settle`): the name may be that of a file, or be absent.  `State.locate_eq_settle` says that
following a path is landing and settling, and `State.locate_eq_ok_iff` says it in steps.

It follows that files that come and go do not change where paths lead (`State.locate_of_frame_eq`,
`State.locate_of_view_eq`).
-/

namespace EditorDocs.FileSystem

namespace Place

/-- Where a path leads, whether something stands there or not. -/
def location : Place → Location
  | .object loc _ => loc
  | .vacancy parent name _ => parent ++ [name]

end Place

namespace Landing

/-- The names that are left where a path has landed. -/
def rest : Landing → List Name
  | .stop _ => []
  | .edge _ _ rest => rest
  | .off _ rest => rest

/-- Where a path leads if nothing stands where it has landed. -/
def vacancy : Landing → Except Errno Place
  | .edge parent name rest =>
    if rest.all List.isEmpty then .ok (.vacancy parent name !rest.isEmpty) else .error .noEntry
  | _ => .error .noEntry

end Landing

namespace State

/-- Where a path leads that has landed. -/
def settle (s : State) : Landing → Except Errno Place
  | .stop loc => match Node.find? loc s.root with
    | some n => .ok (.object loc n)
    | none => .error .noEntry
  | .edge parent name rest => match Node.find? (parent ++ [name]) s.root with
    | some n => if rest.isEmpty then .ok (.object (parent ++ [name]) n) else .error .notDirectory
    | none =>
      if rest.all List.isEmpty then .ok (.vacancy parent name !rest.isEmpty) else .error .noEntry
  | .off loc rest => match Node.find? loc s.root with
    | some n => if rest.isEmpty then .ok (.object loc n) else .error .notDirectory
    | none => .error .noEntry

/-- A landing where something stands is at this entry, unless names are left. -/
lemma settle_of_some {s : State} {l : Landing} {n : Node}
    (h : Node.find? l.target s.root = some n) :
    s.settle l =
      if l.rest.isEmpty then .ok (.object l.target n) else .error .notDirectory := by
  cases l with
  | stop loc =>
    simp only [settle, show Node.find? loc s.root = some n from h]
    rfl
  | edge parent name rest =>
    simp only [settle, show Node.find? (parent ++ [name]) s.root = some n from h]
    rfl
  | off loc rest =>
    simp only [settle, show Node.find? loc s.root = some n from h]
    rfl

/-- A landing where nothing stands is at what does not depend on the state. -/
lemma settle_of_none {s : State} {l : Landing} (h : Node.find? l.target s.root = none) :
    s.settle l = l.vacancy := by
  cases l with
  | stop loc =>
    simp only [settle, show Node.find? loc s.root = none from h]
    rfl
  | edge parent name rest =>
    simp only [settle, show Node.find? (parent ++ [name]) s.root = none from h]
    rfl
  | off loc rest =>
    simp only [settle, show Node.find? loc s.root = none from h]
    rfl

/-- The frame shows directories and links and nothing else. -/
lemma frame_eq (s : State) (loc : Location) :
    s.frame loc = match Node.find? loc s.root with
      | some (.directory _) => some .directory
      | some (.link target) => some (.link target)
      | _ => none := by
  unfold frame view Node.view
  cases Node.find? loc s.root with
  | none => rfl
  | some n => cases n <;> rfl

/-- The entries of a directory are what stands right below it. -/
lemma find?_concat {s : State} {loc : Location} {es : Entries}
    (h : Node.find? loc s.root = some (.directory es)) (name : Name) :
    Node.find? (loc ++ [name]) s.root = Table.get? name es := by
  rw [Node.find?_append, h]
  cases hget : Table.get? name es <;> simp [Node.find?, hget]

/-- Following names is landing and settling, if it is so behind links. -/
lemma walkWith_eq_settle (s : State) (m : Manner)
    {onLink : Location → List Name → Except Errno Place}
    {onLink' : Location → List Name → Except Errno Landing}
    (hlink : ∀ loc names, onLink loc names = (onLink' loc names >>= s.settle))
    (loc : Location) (names : List Name) :
    s.walkWith m onLink loc names = (landWith s.frame m onLink' loc names >>= s.settle) := by
  induction names generalizing loc with
  | nil =>
    rw [walkWith, landWith, frame_eq]
    cases hfind : Node.find? loc s.root with
    | none => simp [bind, Except.bind, settle, hfind]
    | some n => cases n <;> simp [bind, Except.bind, settle, hfind]
  | cons name rest ih =>
    rw [walkWith, landWith, frame_eq]
    cases hfind : Node.find? loc s.root with
    | none => simp [bind, Except.bind, settle, hfind]
    | some n =>
      cases n with
      | file content => simp [bind, Except.bind, settle, hfind]
      | link target => rfl
      | directory es =>
        simp only [ih, hlink, frame_eq, find?_concat hfind]
        split
        · rfl
        split
        · rfl
        split
        · rfl
        split
        · rfl
        cases hget : Table.get? name es with
        | none => simp [bind, Except.bind, settle, find?_concat hfind, hget]
        | some child =>
          cases child with
          | file content =>
            -- the walk goes on into the file, where it ends or fails
            cases rest with
            | nil =>
              simp [bind, Except.bind, settle, find?_concat hfind, hget, landWith, frame_eq]
            | cons r rest =>
              simp [bind, Except.bind, settle, find?_concat hfind, hget, landWith, frame_eq]
          | directory _ => rfl
          | link target =>
            by_cases hlast : (rest.isEmpty && !m.followsLast) = true
            · simp only [hlast, if_true]
              simp [bind, Except.bind, settle, find?_concat hfind, hget]
            · simp only [hlast]
              rfl

/-- Following names through links is landing and settling. -/
lemma walk_eq_settle (s : State) (m : Manner) (links : Nat) (loc : Location)
    (names : List Name) :
    s.walk m links loc names = (landAfter s.frame m links loc names >>= s.settle) := by
  induction links generalizing loc names with
  | zero =>
    rw [walk, landAfter]
    have hlink : ∀ (loc : Location) (names : List Name),
        (Except.error .tooManyLinks : Except Errno Place) =
          ((Except.error .tooManyLinks : Except Errno Landing) >>= s.settle) := fun _ _ => rfl
    exact walkWith_eq_settle s m hlink loc names
  | succ links ih =>
    rw [walk, landAfter]
    exact walkWith_eq_settle s m ih loc names

/-- Following a path is landing and settling. -/
theorem locate_eq_settle (s : State) (m : Manner) (path : Text) :
    s.locate m path = (land s.frame s.home m path >>= s.settle) := by
  unfold locate land
  split
  · rfl
  split
  · rfl
  exact walk_eq_settle s m linkLimit _ _

/-- A path that leads somewhere has landed there. -/
lemma exists_landing {s : State} {m : Manner} {path : Text} {p : Place}
    (h : s.locate m path = .ok p) :
    ∃ l, land s.frame s.home m path = .ok l ∧ s.settle l = .ok p := by
  rw [locate_eq_settle] at h
  cases hl : land s.frame s.home m path with
  | error e => simp [hl, bind, Except.bind] at h
  | ok l => exact ⟨l, rfl, by simpa [hl, bind, Except.bind] using h⟩

/-- A path that has landed leads where that settles. -/
lemma locate_of_landing {s : State} {m : Manner} {path : Text} {l : Landing}
    (h : land s.frame s.home m path = .ok l) : s.locate m path = s.settle l := by
  rw [locate_eq_settle, h]
  rfl

/-- The landing is where the place is. -/
inductive Settles (s : State) : Landing → Place → Prop where
  /-- At a directory, or at a link that is not replaced. -/
  | stop {loc n} (hfind : Node.find? loc s.root = some n) : Settles s (.stop loc) (.object loc n)
  /-- At a file from which names would have led, had there been any. -/
  | off {loc n} (hfind : Node.find? loc s.root = some n) : Settles s (.off loc []) (.object loc n)
  /-- At a file in a directory. -/
  | file {parent name n} (hfind : Node.find? (parent ++ [name]) s.root = some n) :
      Settles s (.edge parent name []) (.object (parent ++ [name]) n)
  /-- At a name that is absent from a directory. -/
  | vacancy {parent name rest} (hfind : Node.find? (parent ++ [name]) s.root = none)
      (hrest : rest.all List.isEmpty = true) :
      Settles s (.edge parent name rest) (.vacancy parent name !rest.isEmpty)

/-- A landing that settles does so in one of four ways. -/
theorem settle_eq_ok_iff {s : State} {l : Landing} {p : Place} :
    s.settle l = .ok p ↔ s.Settles l p := by
  constructor
  · intro h
    cases hfind : Node.find? l.target s.root with
    | none =>
      rw [settle_of_none hfind] at h
      cases l with
      | stop loc => cases h
      | off loc rest => cases h
      | edge parent name rest =>
        rw [Landing.vacancy] at h
        split at h
        · rename_i hrest
          cases h
          exact .vacancy hfind hrest
        · cases h
    | some n =>
      rw [settle_of_some hfind] at h
      split at h
      · rename_i hrest
        cases h
        cases l with
        | stop loc => exact .stop hfind
        | off loc rest =>
          obtain rfl : rest = [] := List.isEmpty_iff.mp hrest
          exact .off hfind
        | edge parent name rest =>
          obtain rfl : rest = [] := List.isEmpty_iff.mp hrest
          exact .file hfind
      · cases h
  · intro h
    cases h with
    | stop hfind => rw [settle, hfind]
    | off hfind => simp only [settle, hfind, List.isEmpty_nil, if_true]
    | file hfind => simp only [settle, hfind, List.isEmpty_nil, if_true]
    | vacancy hfind hrest => simp only [settle, hfind, hrest, if_true]

/-- A path leads to a place where its names land in steps. -/
theorem locate_eq_ok_iff {s : State} {m : Manner} {path : Text} {p : Place} :
    s.locate m path = .ok p ↔ ∃ l, land s.frame s.home m path = .ok l ∧ s.Settles l p := by
  constructor
  · intro h
    obtain ⟨l, hland, hsettle⟩ := exists_landing h
    exact ⟨l, hland, settle_eq_ok_iff.1 hsettle⟩
  · rintro ⟨l, hland, hsettles⟩
    rw [locate_of_landing hland]
    exact settle_eq_ok_iff.2 hsettles

end State

/-! ## The manner of following -/

namespace State

/-- An entry at the end of a path that is no link is what looking up finds. -/
theorem locate_lookup_of_entry {s : State} {path : Text} {loc : Location} {n : Node}
    (h : s.locate .entry path = .ok (.object loc n)) (hlink : ∀ target, n ≠ .link target) :
    s.locate .lookup path = .ok (.object loc n) := by
  obtain ⟨l, hland, hsettles⟩ := locate_eq_ok_iff.1 h
  obtain ⟨hne, hshort, hlands⟩ := land_eq_ok_iff.1 hland
  have hnolink : ∀ loc' target, l = .stop loc' → s.frame loc' ≠ some (.link target) := by
    rintro loc' target rfl hframe
    have hfind := find?_of_view_link (view_of_frame hframe)
    cases hsettles with
    | stop hobject =>
      rw [hfind] at hobject
      cases hobject
      exact hlink target rfl
  have hlookup := land_eq_ok_iff.2 ⟨hne, hshort, hlands.lookup hnolink⟩
  exact locate_eq_ok_iff.2 ⟨l, hlookup, hsettles⟩

/-- What looking up finds is the entry at the end of the path, unless that is a link. -/
theorem locate_entry_of_lookup {s : State} {path : Text} {p : Place}
    (h : s.locate .lookup path = .ok p) :
    s.locate .entry path = .ok p ∨
      ∃ loc target, s.locate .entry path = .ok (.object loc (.link target)) := by
  obtain ⟨l, hland, hsettles⟩ := locate_eq_ok_iff.1 h
  obtain ⟨hne, hshort, hlands⟩ := land_eq_ok_iff.1 hland
  obtain ⟨l', hentry, hsame⟩ := hlands.exists_entry
  have hland' := land_eq_ok_iff.2 ⟨hne, hshort, hentry⟩
  rcases hsame with rfl | ⟨loc, target, rfl, hframe⟩
  · exact Or.inl (locate_eq_ok_iff.2 ⟨l', hland', hsettles⟩)
  · have hfind := find?_of_view_link (view_of_frame hframe)
    exact Or.inr ⟨loc, target, locate_eq_ok_iff.2 ⟨_, hland', .stop hfind⟩⟩

/-- A path that leads to a file leads there when the file is written. -/
theorem locate_write_of_file {s : State} {path : Text} {loc : Location} {content : Bytes}
    (h : s.locate .lookup path = .ok (.object loc (.file content))) :
    s.locate .write path = .ok (.object loc (.file content)) := by
  obtain ⟨l, hland, hsettles⟩ := locate_eq_ok_iff.1 h
  obtain ⟨hne, hshort, hlands⟩ := land_eq_ok_iff.1 hland
  have hfile : l.EndsAtFile := by
    cases hsettles with
    | stop hfind =>
      -- what stands in the frame is no file
      have hfixture : s.frame loc ≠ none := hlands.fits
      rw [frame_eq, hfind] at hfixture
      exact absurd rfl hfixture
    | off _ => rfl
    | file _ => rfl
  exact locate_eq_ok_iff.2 ⟨l, land_eq_ok_iff.2 ⟨hne, hshort, hlands.write hfile⟩, hsettles⟩

/-- A path on which a file can be written leads to the same place when it is looked up, and has no
slashes behind it. -/
theorem locate_lookup_of_write {s : State} {path : Text} {p : Place}
    (h : s.locate .write path = .ok p) :
    s.locate .lookup path = .ok p ∧ ∀ parent name, p ≠ .vacancy parent name true := by
  obtain ⟨l, hland, hsettles⟩ := locate_eq_ok_iff.1 h
  obtain ⟨hne, hshort, hlands⟩ := land_eq_ok_iff.1 hland
  have hlookup := land_eq_ok_iff.2 ⟨hne, hshort, hlands.lookup_of_write⟩
  refine ⟨locate_eq_ok_iff.2 ⟨l, hlookup, hsettles⟩, ?_⟩
  cases hsettles with
  | vacancy _ hrest =>
    obtain rfl := hlands.notSlashed rfl hrest
    simp
  | _ => simp

end State

/-! ## Where paths lead when files change -/

namespace State

/-- A path lands where the frame lets it. -/
lemma fits_of_land {s : State} {m : Manner} {path : Text} {l : Landing}
    (h : land s.frame s.home m path = .ok l) : l.Fits s.frame :=
  (land_eq_ok_iff.1 h).2.2.fits

/-- A vacancy is in a directory, and nothing stands there. -/
theorem view_of_vacancy {s : State} {m : Manner} {path : Text} {parent : Location} {name : Name}
    {slashed : Bool} (h : s.locate m path = .ok (.vacancy parent name slashed)) :
    s.view parent = some .directory ∧ s.view (parent ++ [name]) = none := by
  obtain ⟨l, hland, hsettles⟩ := locate_eq_ok_iff.1 h
  cases hsettles with
  | vacancy hfind hrest =>
    refine ⟨view_of_frame (fits_of_land hland).1, ?_⟩
    rw [view, Node.view, hfind]
    rfl

/-- What a path leads to stands where it leads. -/
theorem find?_of_object {s : State} {m : Manner} {path : Text} {loc : Location} {n : Node}
    (h : s.locate m path = .ok (.object loc n)) : Node.find? loc s.root = some n := by
  obtain ⟨l, hland, hsettles⟩ := locate_eq_ok_iff.1 h
  cases hsettles <;> assumption

/-- The place where a landing settles can be taken by an entry, or holds one. -/
lemma Settles.of_find? {s s' : State} {l : Landing} {p : Place} (h : s.Settles l p)
    (hslash : ∀ parent name, p ≠ .vacancy parent name true) {n : Node}
    (hfind : Node.find? p.location s'.root = some n) : s'.Settles l (.object p.location n) := by
  cases h with
  | stop _ => exact .stop hfind
  | off _ => exact .off hfind
  | file _ => exact .file hfind
  | @vacancy parent name rest _ _ =>
    cases rest with
    | nil => exact .file hfind
    | cons r rest => exact absurd rfl (hslash parent name)

/-- A path leads to the same location in all states with one frame, whatever stands there: this is
how a path outlives changes of files. -/
theorem locate_of_frame_eq {s s' : State} {m : Manner} {path : Text} {p : Place}
    (hframe : s'.frame = s.frame) (hhome : s'.home = s.home) (h : s.locate m path = .ok p)
    (hslash : ∀ parent name, p ≠ .vacancy parent name true) {n : Node}
    (hfind : Node.find? p.location s'.root = some n) :
    s'.locate m path = .ok (.object p.location n) := by
  obtain ⟨l, hland, hsettles⟩ := locate_eq_ok_iff.1 h
  rw [← hframe, ← hhome] at hland
  exact locate_eq_ok_iff.2 ⟨l, hland, hsettles.of_find? hslash hfind⟩

/-- In states with one frame a path leads to the same place, if the same stands there. -/
theorem locate_of_view_eq {s s' : State} {m : Manner} {path : Text} {p : Place}
    (hframe : s'.frame = s.frame) (hhome : s'.home = s.home) (h : s.locate m path = .ok p)
    (hview : s'.view p.location = s.view p.location) :
    match p with
    | .object loc n => ∃ n', n'.face = n.face ∧ s'.locate m path = .ok (.object loc n')
    | .vacancy parent name slashed => s'.locate m path = .ok (.vacancy parent name slashed) := by
  cases p with
  | object loc n =>
    have hold : s.view loc = some n.face := view_eq_of_find? (find?_of_object h)
    simp only [Place.location, hold] at hview
    obtain ⟨n', hfind, hface⟩ := exists_node_of_view hview
    exact ⟨n', hface, locate_of_frame_eq hframe hhome h (by simp) hfind⟩
  | vacancy parent name slashed =>
    have hnone := (view_of_vacancy h).2
    simp only [Place.location, hnone] at hview
    have hfind := find?_eq_none_of_view hview
    obtain ⟨l, hland, hsettles⟩ := locate_eq_ok_iff.1 h
    rw [← hframe, ← hhome] at hland
    cases hsettles with
    | vacancy _ hrest => exact locate_eq_ok_iff.2 ⟨_, hland, .vacancy hfind hrest⟩

/-! ## The last name -/

/-- A path that ends regularly leads to an entry or vacancy of this name, and has no slashes behind
it. -/
theorem getLast?_location {s : State} {path : Text} {p : Place} {names : List Name} {name : Name}
    (hpath : (canonical path).splitOn '/' = names ++ [name]) (hname : IsRegular name)
    (h : s.locate .entry path = .ok p) :
    p.location.getLast? = some name ∧ ∀ parent n, p ≠ .vacancy parent n true := by
  obtain ⟨l, hland, hsettles⟩ := locate_eq_ok_iff.1 h
  have hlast : ((canonical path).splitOn '/').getLast? = some name := by
    rw [hpath]
    exact List.getLast?_concat
  have hends := (land_eq_ok_iff.1 hland).2.2.endsIn hlast hname
  cases hsettles with
  | stop _ => exact ⟨hends, by simp⟩
  | off _ => cases hends
  | file _ =>
    rcases hends with ⟨-, hn⟩ | hend
    · exact ⟨by simp [Place.location, hn], by simp⟩
    · cases hend
  | vacancy _ hrest =>
    obtain ⟨hnil, hn⟩ := hends.eq_nil hname hrest
    exact ⟨by simp [Place.location, hn], by simp [hnil]⟩

end State

end EditorDocs.FileSystem
