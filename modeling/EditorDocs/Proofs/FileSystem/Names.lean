import EditorDocs.Proofs.FileSystem.Operations
import EditorDocs.Proofs.FileSystem.Spelling

/-!
# Names stay names

The names in a file system are names: none holds a slash, stands for another directory, or is there
twice, and each is spelled as the system spells it (`State.IsNamed`).  This stays so when a directory is
made (`State.IsNamed.makeDirectory`), since a vacancy to which a path leads has a name of this kind
(`State.isName_of_vacancy`): it is part of the path or of the target of a link on the way, and what is
part of a path that is spelled as the system spells it is spelled so itself
(`IsSpelled.of_mem_splitOn`).  The reason is that a spelling holds all the bytes that it is of
(`bytesOf_ofBytes`).
-/

namespace EditorDocs.FileSystem

/-! ## The bytes of a spelling -/

/-- A surrogate that stands for a byte is escaped, and this byte. -/
lemma bytesOf_escaped {x : UInt8} (hx : 0x80 ≤ x.toNat) :
    isEscapedByte (CodePoint.ofNat (0xDC00 + x.toNat)) = true ∧
      bytesOf [CodePoint.ofNat (0xDC00 + x.toNat)] = [x] := by
  have hlt := x.toNat_lt
  have hval : (CodePoint.ofNat (0xDC00 + x.toNat)).val = 0xDC00 + x.toNat := by
    rw [CodePoint.ofNat, dif_pos (by omega)]
  have hescaped : isEscapedByte (CodePoint.ofNat (0xDC00 + x.toNat)) = true := by
    simp only [isEscapedByte, hval, Bool.and_eq_true, decide_eq_true_eq]
    omega
  refine ⟨hescaped, ?_⟩
  rw [bytesOf, List.flatMap_cons, List.flatMap_nil, List.append_nil, if_pos hescaped, hval,
    Nat.add_sub_cancel_left, UInt8.ofNat_toNat]

/-- Bytes that are no characters are spelled one by one. -/
lemma bytesOf_spelling_fault {faulty : Bytes} (h : ∀ x ∈ faulty, 0x80 ≤ x.toNat) :
    bytesOf (faulty.map fun x => CodePoint.ofNat (0xDC00 + x.toNat)) = faulty := by
  induction faulty with
  | nil => rfl
  | cons x rest ih =>
    have hrest := ih fun y hy => h y (List.mem_cons_of_mem x hy)
    have hx := (bytesOf_escaped (h x List.mem_cons_self)).2
    rw [bytesOf, List.flatMap_singleton] at hx
    rw [bytesOf] at hrest
    rw [List.map_cons, bytesOf, List.flatMap_cons, hx, hrest]
    rfl

/-- A scalar value is no byte. -/
lemma isEscapedByte_of_scalar {c : CodePoint} (h : c.isSurrogate = false) : isEscapedByte c = false := by
  simp only [CodePoint.isSurrogate, isEscapedByte, Bool.and_eq_false_iff,
    decide_eq_false_iff_not] at h ⊢
  omega

/-- A spelling holds all the bytes that it is of. -/
theorem bytesOf_ofBytes (bytes : Bytes) : bytesOf (ofBytes bytes) = bytes := by
  have hreads := Utf8.reads_piecesAfter none bytes
  have hpieces : ∀ p ∈ Utf8.pieces bytes, bytesOf (Utf8.Piece.spelling p) = p.bytes := by
    intro p hp
    cases p with
    | char c width =>
      have hc := isEscapedByte_of_scalar (hreads.isSurrogate (by simp) hp)
      simp [bytesOf, Utf8.Piece.spelling, Utf8.Piece.bytes, hc]
    | fault reason faulty =>
      exact bytesOf_spelling_fault fun x hx => hreads.le_of_fault (by simp) hp hx
  calc bytesOf (ofBytes bytes)
      = (Utf8.pieces bytes).flatMap fun p => bytesOf (Utf8.Piece.spelling p) := List.flatMap_assoc
    _ = (Utf8.pieces bytes).flatMap Utf8.Piece.bytes := by
      rw [List.flatMap_def, List.flatMap_def, List.map_congr_left hpieces]
    _ = bytes := Utf8.bytes_pieces bytes

/-- A spelling consists of bytes. -/
lemma isByteText_ofBytes (bytes : Bytes) : IsByteText (ofBytes bytes) := by
  have hreads := Utf8.reads_piecesAfter none bytes
  intro c hc hsurrogate
  obtain ⟨p, hp, hmem⟩ := List.mem_flatMap.mp hc
  cases p with
  | char c' width =>
    obtain rfl := List.mem_singleton.mp hmem
    rw [hreads.isSurrogate (by simp) hp] at hsurrogate
    cases hsurrogate
  | fault reason faulty =>
    obtain ⟨x, hx, rfl⟩ := List.mem_map.mp hmem
    exact (bytesOf_escaped (hreads.le_of_fault (by simp) hp hx)).1

/-! ## Spelled paths -/

/-- The path is spelled as the system spells it. -/
structure IsSpelled (path : Text) : Prop where
  /-- The path consists of bytes. -/
  bytes : IsByteText path
  /-- The system does not change its spelling. -/
  spelled : canonical path = path

/-- The system spells a path in a way that it does not change. -/
lemma isSpelled_canonical {path : Text} (h : IsByteText path) : IsSpelled (canonical path) := by
  have hbytes : IsByteText (canonical path) := by
    rw [canonical_eq h]
    exact isByteText_ofBytes _
  refine ⟨hbytes, ?_⟩
  rw [canonical_eq hbytes, canonical_eq h, bytesOf_ofBytes]

/-- A character is at least one byte. -/
lemma eq_nil_of_bytesOf {t : Text} (h : bytesOf t = []) : t = [] := by
  cases t with
  | nil => rfl
  | cons c t =>
    rw [bytesOf, List.flatMap_cons] at h
    have hfirst := (List.append_eq_nil_iff.mp h).1
    split at hfirst
    · cases hfirst
    · unfold Utf8.encodeNat at hfirst
      split at hfirst
      · cases hfirst
      split at hfirst
      · cases hfirst
      split at hfirst <;> cases hfirst

/-- The parts of a spelled path are spelled. -/
lemma IsSpelled.parts {a b : Text} (h : IsSpelled (a ++ ('/' : CodePoint) :: b)) :
    IsSpelled a ∧ IsSpelled b := by
  have ha : IsByteText a := fun c hc => h.bytes c (List.mem_append_left _ hc)
  have hb : IsByteText b := fun c hc =>
    h.bytes c (List.mem_append_right _ (List.mem_cons_of_mem _ hc))
  have hsame := h.spelled
  rw [canonical_append_slash ha hb] at hsame
  -- neither side can be longer, since the first parts are of the same bytes
  have hbytes : bytesOf (canonical a) = bytesOf a := by
    rw [canonical_eq ha, bytesOf_ofBytes]
  have hnil : ∀ {x y c : Text}, x = y ++ c → bytesOf x = bytesOf y → c = [] := by
    intro x y c hx hsame
    have happend : bytesOf (y ++ c) = bytesOf y ++ bytesOf c := by simp [bytesOf]
    rw [hx, happend] at hsame
    exact eq_nil_of_bytesOf (List.append_right_eq_self.mp hsame)
  have hfirst : canonical a = a := by
    rcases List.append_eq_append_iff.mp hsame with ⟨c, hc, -⟩ | ⟨c, hc, -⟩
    · have hempty := hnil hc hbytes.symm
      rw [hempty, List.append_nil] at hc
      exact hc.symm
    · have hempty := hnil hc hbytes
      rw [hempty, List.append_nil] at hc
      exact hc
  rw [hfirst] at hsame
  exact ⟨⟨ha, hfirst⟩, hb, (List.cons.inj (List.append_cancel_left hsame)).2⟩

/-- Spelled paths with a slash between them are spelled. -/
lemma IsSpelled.append_slash {a b : Text} (ha : IsSpelled a) (hb : IsSpelled b) :
    IsSpelled (a ++ ('/' : CodePoint) :: b) where
  bytes c hc := by
    rcases List.mem_append.mp hc with h | h
    · exact ha.bytes c h
    rcases List.mem_cons.mp h with rfl | h
    · exact fun hsurrogate => by cases hsurrogate
    · exact hb.bytes c h
  spelled := by rw [canonical_append_slash ha.bytes hb.bytes, ha.spelled, hb.spelled]

lemma isSpelled_nil : IsSpelled [] := ⟨by simp [IsByteText], rfl⟩

/-- Spelled names joined by slashes are spelled. -/
lemma isSpelled_join {names : List Name} (h : ∀ name ∈ names, IsSpelled name) :
    IsSpelled (Text.join "/" names) := by
  induction names with
  | nil => exact isSpelled_nil
  | cons name rest ih =>
    have hname := h name List.mem_cons_self
    cases rest with
    | nil => simpa [Text.join] using hname
    | cons next rest =>
      have hslash : ("/" : Text) = [('/' : CodePoint)] := by decide
      rw [Text.join_cons_cons, List.append_assoc, hslash, List.singleton_append, ← hslash]
      exact hname.append_slash (ih fun n hn => h n (List.mem_cons_of_mem _ hn))

/-- The names of a spelled path are spelled. -/
lemma IsSpelled.of_mem_splitOn {path : Text} (h : IsSpelled path) {name : Name}
    (hname : name ∈ path.splitOn '/') : IsSpelled name := by
  induction hlength : path.length using Nat.strongRecOn generalizing path with
  | ind n ih =>
    by_cases hslash : ('/' : CodePoint) ∈ path
    · obtain ⟨a, b, rfl, hnone⟩ := List.eq_append_cons_of_mem hslash
      obtain ⟨ha, hb⟩ := h.parts
      rw [Text.splitOn_append_cons, Text.splitOn_of_notMem hnone, List.singleton_append] at hname
      rcases List.mem_cons.mp hname with rfl | hrest
      · exact ha
      · exact ih b.length (by simp at hlength; omega) hb hrest rfl
    · rw [Text.splitOn_of_notMem hslash] at hname
      rw [List.mem_singleton.mp hname]
      exact h

/-! ## Names -/

/-- An entry can have the name. -/
structure IsName (name : Name) : Prop extends IsSpelled name where
  /-- The name neither stays where it is nor goes up. -/
  regular : IsRegular name
  /-- The name is one name. -/
  noSlash : ('/' : CodePoint) ∉ name
  /-- The name is not too long. -/
  short : byteLength name ≤ nameLimit

/-- It can be found out whether a name is that of an entry. -/
instance (name : Name) : Decidable (IsName name) :=
  have : Decidable (IsRegular name) :=
    inferInstanceAs (Decidable (name ≠ [] ∧ name ≠ dot ∧ name ≠ dotDot))
  have : Decidable (IsByteText name) := inferInstanceAs (Decidable (∀ c ∈ name, _))
  decidable_of_iff (IsByteText name ∧ canonical name = name ∧ IsRegular name ∧
      ('/' : CodePoint) ∉ name ∧ byteLength name ≤ nameLimit)
    ⟨fun ⟨h₁, h₂, h₃, h₄, h₅⟩ => ⟨⟨h₁, h₂⟩, h₃, h₄, h₅⟩,
      fun h => ⟨h.bytes, h.spelled, h.regular, h.noSlash, h.short⟩⟩

/-- In every directory the entries have names, and different ones; and what links stand for is spelled
as the system spells it. -/
structure State.IsNamed (s : State) : Prop where
  /-- The entries of a directory have different names. -/
  entries : ∀ loc es, Node.find? loc s.root = some (.directory es) →
    (Table.keys es).Nodup ∧ ∀ name ∈ Table.keys es, IsName name
  /-- The target of a link is spelled. -/
  links : ∀ loc target, Node.find? loc s.root = some (.link target) → IsSpelled target

section Tree

variable {home : Location}

/-- A file has no names in it. -/
lemma isNamed_file (content : Bytes) : State.IsNamed ⟨.file content, home⟩ := by
  constructor
  · intro loc es h
    cases loc <;> cases h
  · intro loc target h
    cases loc <;> cases h

/-- A link has the names of its target. -/
lemma isNamed_link {target : Text} (htarget : IsSpelled target) :
    State.IsNamed ⟨.link target, home⟩ := by
  constructor
  · intro loc es h
    cases loc <;> cases h
  · intro loc target' h
    cases loc with
    | nil =>
      cases h
      exact htarget
    | cons name rest => cases h

/-- The names in a directory are those of its entries and those in them. -/
lemma isNamed_directory_iff {es : Entries} :
    State.IsNamed ⟨.directory es, home⟩ ↔ (Table.keys es).Nodup ∧
      (∀ name ∈ Table.keys es, IsName name) ∧ ∀ e ∈ es, State.IsNamed ⟨e.2, home⟩ := by
  constructor
  · intro h
    obtain ⟨hnodup, hnames⟩ := h.entries [] es rfl
    have hbelow : ∀ e ∈ es, ∀ loc, Node.find? (e.1 :: loc) (.directory es) = Node.find? loc e.2 := by
      intro e he loc
      rw [Node.find?, Table.get?_of_mem hnodup he]
      rfl
    refine ⟨hnodup, hnames, fun e he => ⟨fun loc es' hfind => ?_, fun loc target hfind => ?_⟩⟩
    · exact h.entries (e.1 :: loc) es' ((hbelow e he loc).trans hfind)
    · exact h.links (e.1 :: loc) target ((hbelow e he loc).trans hfind)
  · rintro ⟨hnodup, hnames, hentries⟩
    constructor
    · intro loc es' h
      cases loc with
      | nil =>
        cases h
        exact ⟨hnodup, hnames⟩
      | cons name rest =>
        obtain ⟨n, hget, hrest⟩ := Option.bind_eq_some_iff.mp h
        exact (hentries _ (Table.mem_of_get? hget)).entries rest es' hrest
    · intro loc target h
      cases loc with
      | nil => cases h
      | cons name rest =>
        obtain ⟨n, hget, hrest⟩ := Option.bind_eq_some_iff.mp h
        exact (hentries _ (Table.mem_of_get? hget)).links rest target hrest

/-- Names stay names where an entry is put under a name. -/
lemma isNamed_put_entry {es : Entries} (h : State.IsNamed ⟨.directory es, home⟩) {name : Name}
    (hname : IsName name) {n : Node} (hn : State.IsNamed ⟨n, home⟩) :
    State.IsNamed ⟨.directory (Table.put name n es), home⟩ := by
  obtain ⟨hnodup, hnames, hentries⟩ := isNamed_directory_iff.mp h
  refine isNamed_directory_iff.mpr ⟨?_, ?_, ?_⟩
  · exact Table.nodup_keys_put name n hnodup
  · intro m hm
    obtain ⟨e, he, rfl⟩ := List.mem_map.mp hm
    rcases Table.mem_of_mem_put he with hold | rfl
    · exact hnames e.1 (List.mem_map_of_mem hold)
    · exact hname
  · intro e he
    rcases Table.mem_of_mem_put he with hold | rfl
    · exact hentries e hold
    · exact hn

/-- Names stay names where something is put at a location with a name at its end. -/
lemma isNamed_put {loc : Location} {root n : Node} (h : State.IsNamed ⟨root, home⟩)
    (hn : State.IsNamed ⟨n, home⟩) (hlast : ∀ name, loc.getLast? = some name → IsName name) :
    State.IsNamed ⟨Node.put n loc root, home⟩ := by
  induction loc generalizing root with
  | nil => exact hn
  | cons name rest ih =>
    cases root with
    | file content => exact h
    | link target => exact h
    | directory es =>
      cases rest with
      | nil => exact isNamed_put_entry h (hlast name rfl) hn
      | cons m rest =>
        cases hget : Table.get? name es with
        | none =>
          have hput : Node.put n (name :: m :: rest) (.directory es) = .directory es := by
            simp only [Node.put, hget]
          rw [hput]
          exact h
        | some child =>
          obtain ⟨-, hnames, hentries⟩ := isNamed_directory_iff.mp h
          have hmem := Table.mem_of_get? hget
          have hname := hnames name (List.mem_map_of_mem (f := Prod.fst) hmem)
          have hput : Node.put n (name :: m :: rest) (.directory es) =
              .directory (Table.put name (Node.put n (m :: rest) child) es) := by
            simp only [Node.put, hget]
          rw [hput]
          exact isNamed_put_entry h hname (ih (hentries _ hmem) (by simpa using hlast))

/-- Where there is something, all names on the way are names. -/
lemma isName_of_find? {loc : Location} {root n : Node} (h : State.IsNamed ⟨root, home⟩)
    (hfind : Node.find? loc root = some n) {name : Name} (hname : name ∈ loc) : IsName name := by
  induction loc generalizing root with
  | nil => cases hname
  | cons first rest ih =>
    cases root with
    | file content => cases hfind
    | link target => cases hfind
    | directory es =>
      obtain ⟨-, hnames, hentries⟩ := isNamed_directory_iff.mp h
      obtain ⟨child, hget, hbelow⟩ := Option.bind_eq_some_iff.mp hfind
      have hmem := Table.mem_of_get? hget
      rcases List.mem_cons.mp hname with rfl | hrest
      · exact hnames name (List.mem_map_of_mem (f := Prod.fst) hmem)
      · exact ih (hentries _ hmem) hbelow hrest

/-- Names stay names where something is removed. -/
lemma isNamed_remove {loc : Location} {root : Node} (h : State.IsNamed ⟨root, home⟩) :
    State.IsNamed ⟨Node.remove loc root, home⟩ := by
  induction loc generalizing root with
  | nil => exact h
  | cons name rest ih =>
    cases root with
    | file content => exact h
    | link target => exact h
    | directory es =>
      obtain ⟨hnodup, hnames, hentries⟩ := isNamed_directory_iff.mp h
      cases rest with
      | nil =>
        have hsub : (Entries.erase name es).Sublist es := List.filter_sublist
        refine isNamed_directory_iff.mpr ⟨hnodup.sublist (hsub.map _), fun m hm => ?_, fun e he => ?_⟩
        · exact hnames m ((hsub.map _).subset hm)
        · exact hentries e (hsub.subset he)
      | cons m rest =>
        cases hget : Table.get? name es with
        | none =>
          have hremove : Node.remove (name :: m :: rest) (.directory es) = .directory es := by
            simp only [Node.remove, hget]
          rw [hremove]
          exact h
        | some child =>
          have hmem := Table.mem_of_get? hget
          have hremove : Node.remove (name :: m :: rest) (.directory es) =
              .directory (Table.put name (Node.remove (m :: rest) child) es) := by
            simp only [Node.remove, hget]
          rw [hremove]
          exact isNamed_put_entry h (hnames name (List.mem_map_of_mem (f := Prod.fst) hmem))
            (ih (hentries _ hmem))

/-- What stands in a tree has names if the tree has. -/
lemma isNamed_of_find? {loc : Location} {root n : Node} (h : State.IsNamed ⟨root, home⟩)
    (hfind : Node.find? loc root = some n) : State.IsNamed ⟨n, home⟩ := by
  have hbelow : ∀ below, Node.find? (loc ++ below) root = Node.find? below n := by
    intro below
    rw [Node.find?_append, hfind]
    rfl
  refine ⟨fun below es hes => ?_, fun below target htarget => ?_⟩
  · exact h.entries (loc ++ below) es ((hbelow below).trans hes)
  · exact h.links (loc ++ below) target ((hbelow below).trans htarget)

end Tree

/-! ## Vacancies -/

/-- Names that are spelled and have no slash lead to a vacancy with a name, if what links stand for is
spelled. -/
lemma Lands.isName {f : Location → Option Fixture} {m : Manner} {links : Nat} {loc : Location}
    {names : List Name} {parent : Location} {name : Name} {rest : List Name}
    (h : Lands f m links loc names (.edge parent name rest))
    (hlinks : ∀ loc target, f loc = some (.link target) → IsSpelled target)
    (hnames : ∀ n ∈ names, IsSpelled n ∧ ('/' : CodePoint) ∉ n) : IsName name := by
  generalize hl : Landing.edge parent name rest = l at h
  induction h with
  | stop hloc => cases hl
  | off hloc => cases hl
  | link hloc hpass hentry hlast => cases hl
  | idle hloc hidle hrest ih => exact ih (fun n hn => hnames n (List.mem_cons_of_mem _ hn)) hl
  | up hloc hrest ih => exact ih (fun n hn => hnames n (List.mem_cons_of_mem _ hn)) hl
  | down hloc hpass hentry hrest ih =>
    exact ih (fun n hn => hnames n (List.mem_cons_of_mem _ hn)) hl
  | edge hloc hpass hentry =>
    cases hl
    obtain ⟨hspelled, hslash⟩ := hnames _ List.mem_cons_self
    have hidle := hpass.notIdle
    have hlong := hpass.notLong
    simp only [Bool.or_eq_true, decide_eq_true_eq, List.isEmpty_iff, not_or] at hidle
    exact ⟨hspelled, ⟨hidle.1, hidle.2, hpass.notUp⟩, hslash, by omega⟩
  | @through links loc n rest' target l hloc hpass hentry hfollowed hrest ih =>
    refine ih (fun n hn => ?_) hl
    rcases List.mem_append.mp hn with htarget | hold
    · exact ⟨(hlinks _ _ hentry).of_mem_splitOn htarget, Text.notMem_of_mem_splitOn htarget⟩
    · exact hnames n (List.mem_cons_of_mem _ hold)

namespace State

/-- The vacancy to which a path leads has a name. -/
theorem isName_of_vacancy {s : State} (hs : s.IsNamed) {m : Manner} {path : Text}
    (hpath : IsByteText path) {parent : Location} {name : Name} {slashed : Bool}
    (h : s.locate m path = .ok (.vacancy parent name slashed)) : IsName name := by
  obtain ⟨l, hland, hsettles⟩ := locate_eq_ok_iff.mp h
  cases hsettles with
  | vacancy hfind hrest =>
    refine (land_eq_ok_iff.mp hland).2.2.isName (fun loc target hlink => ?_) fun n hn => ?_
    · exact hs.links loc target (find?_of_view_link (view_of_frame hlink))
    · exact ⟨(isSpelled_canonical hpath).of_mem_splitOn hn, Text.notMem_of_mem_splitOn hn⟩

end State

/-- What stands before the end slashes of a path is part of it. -/
lemma mem_of_mem_dropEndSlashes {path : Text} {c : CodePoint} (h : c ∈ dropEndSlashes path) :
    c ∈ path := by
  unfold dropEndSlashes at h
  simp only at h
  split at h
  · exact h
  · unfold Text.dropEndWhile at h
    rw [List.mem_reverse] at h
    exact List.mem_reverse.mp ((List.dropWhile_suffix _).subset h)

/-! ## What keeps names -/

namespace State

/-- Names stay names where something is added to a file. -/
theorem IsNamed.append {s : State} (hs : s.IsNamed) (loc : Location) (more : Bytes) :
    (s.append loc more).IsNamed := by
  unfold State.append
  split
  · rename_i content hfind
    exact isNamed_put hs (isNamed_file _) fun name hname =>
      isName_of_find? hs hfind (List.mem_of_getLast? hname)
  · exact hs

/-- Names stay names where a vacancy is taken. -/
lemma IsNamed.put_vacancy {s : State} (hs : s.IsNamed) {m : Manner} {path : Text}
    (hpath : IsByteText path) {parent : Location} {name : Name} {slashed : Bool}
    (h : s.locate m path = .ok (.vacancy parent name slashed)) {t : State} {n : Node}
    (ht : t.IsNamed) (hn : IsNamed ⟨n, t.home⟩) : (t.put (parent ++ [name]) n).IsNamed := by
  refine isNamed_put ht hn fun last hlast => ?_
  rw [List.getLast?_concat] at hlast
  cases hlast
  exact isName_of_vacancy hs hpath h

/-- Names stay names where a directory is made. -/
theorem IsNamed.makeDirectory {s s' : State} (hs : s.IsNamed) {path : Text} (hpath : IsByteText path)
    (h : s.makeDirectory path = .ok s') : s'.IsNamed := by
  obtain ⟨-, parent, name, slashed, hp, rfl⟩ := makeDirectory_eq_ok_iff.mp h
  have hempty : IsNamed ⟨.directory [], s.home⟩ :=
    isNamed_directory_iff.mpr ⟨List.nodup_nil, by simp [Table.keys], by simp⟩
  exact hs.put_vacancy (fun c hc => hpath c (mem_of_mem_dropEndSlashes hc)) hp hs hempty

/-- Names stay names where a file is created. -/
theorem IsNamed.createFile {s s' : State} (hs : s.IsNamed) {path : Text} (hpath : IsByteText path)
    {loc : Location} (h : s.createFile path = .ok (loc, s')) : s'.IsNamed := by
  obtain ⟨parent, name, slashed, hp, rfl, rfl⟩ := createFile_eq_ok_iff.mp h
  exact hs.put_vacancy hpath hp hs (isNamed_file [])

/-- Names stay names where a file is given a content. -/
theorem IsNamed.store {s : State} (hs : s.IsNamed) (loc : Location) (content : Bytes) :
    (s.store loc content).IsNamed := by
  unfold State.store
  split
  · rename_i hfind
    exact isNamed_put hs (isNamed_file _) fun name hname =>
      isName_of_find? hs hfind (List.mem_of_getLast? hname)
  · exact hs

/-- Names stay names where something is deleted. -/
theorem IsNamed.unlink {s s' : State} (hs : s.IsNamed) {path : Text} {loc : Location}
    (h : s.unlink path = .ok (loc, s')) : s'.IsNamed := by
  obtain ⟨n, -, -, rfl⟩ := unlink_eq_ok_iff.mp h
  exact isNamed_remove hs

/-- Names stay names where something is moved. -/
theorem IsNamed.replace {s s' : State} (hs : s.IsNamed) {source target : Text}
    (htarget : IsByteText target) {gone : Option Location}
    (h : s.replace source target = .ok (gone, s')) : s'.IsNamed := by
  cases replace_eq_ok_iff.mp h with
  | same _ _ _ => exact hs
  | another hsource hanother _ _ =>
    exact isNamed_put (isNamed_remove hs) (isNamed_of_find? hs (find?_of_object hsource))
      fun name hname => isName_of_find? hs (find?_of_object hanother) (List.mem_of_getLast? hname)
  | fresh hsource hfresh =>
    exact hs.put_vacancy htarget hfresh (isNamed_remove hs)
      (isNamed_of_find? hs (find?_of_object hsource))

end State

end EditorDocs.FileSystem
