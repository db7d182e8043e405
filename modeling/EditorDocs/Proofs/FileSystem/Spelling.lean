import EditorDocs.FileSystem.Operations
import EditorDocs.FileSystem.Path
import EditorDocs.Proofs.FileSystem.Following
import EditorDocs.Proofs.Text.Utf8

/-!
# How paths are spelled

A name that ends in ASCII keeps that end in all its spellings: in a path that is written out, in one
that is collapsed, and in the form in which the system knows it.  So a path that is made to end in
something particular leads to an entry whose name ends in it (`State.exists_getLast?_location`).

A path that was read is written out as a text that is read as the same path
(`Path.IsProper.ofText_text`).
-/

namespace EditorDocs

/-! ## The end of a path -/

/-- A name can end so: it is ASCII without a slash, and its last character is no dot. -/
structure Text.IsEnding (e : Text) : Prop where
  /-- The characters are ASCII. -/
  ascii : ∀ c ∈ e, c.val < 0x80
  /-- None of them is a slash. -/
  noSlash : ('/' : CodePoint) ∉ e
  /-- The last one is no dot. -/
  last : ∃ c, e.getLast? = some c ∧ c ≠ ('.' : CodePoint)

/-- A name with such an end is that of an entry. -/
lemma Text.IsEnding.isRegular {e : Text} (he : e.IsEnding) (x : Text) :
    FileSystem.IsRegular (x ++ e) := by
  obtain ⟨c, hc, hdot⟩ := he.last
  have hlast : (x ++ e).getLast? = some c := by
    rw [List.getLast?_append, hc]
    rfl
  refine ⟨?_, ?_, ?_⟩
  · intro h
    rw [h] at hlast
    cases hlast
  · intro h
    rw [h] at hlast
    exact hdot (Option.some.inj hlast).symm
  · intro h
    rw [h] at hlast
    exact hdot (Option.some.inj hlast).symm

namespace Path

/-- A path is written with its last name at the end. -/
lemma exists_text_eq {p : Path} {names : List Text} {name : Text}
    (h : p.names = names ++ [name]) : ∃ a, p.text = a ++ name := by
  obtain ⟨a, ha⟩ := Text.join_concat "/" names name
  refine ⟨p.root.text ++ a, ?_⟩
  have hne : p.names.isEmpty = false := by simp [h]
  rw [text, hne, h, ha]
  simp

/-- The end of a text is that of the last name of the path that the text spells. -/
lemma exists_names_ofText {e : Text} (he : e.IsEnding) (t : Text) :
    ∃ names x, (ofText (t ++ e)).names = names ++ [x ++ e] := by
  obtain ⟨parts, part, -, hparts⟩ := Text.splitOn_append_of_notMem he.noSlash t
  have hregular := he.isRegular part
  have hidle : isIdle (part ++ e) = false := by
    simp only [isIdle, Bool.or_eq_false_iff, decide_eq_false_iff_not]
    refine ⟨?_, hregular.2.1⟩
    simpa [List.isEmpty_iff] using hregular.1
  refine ⟨parts.filter fun name => !isIdle name, part, ?_⟩
  simp [ofText, hparts, List.filter_append, hidle]

/-- The last name stays when a path is taken from another one. -/
lemma exists_names_append (p : Path) {q : Path} {names : List Text} {name : Text}
    (h : q.names = names ++ [name]) : ∃ names', (p.append q).names = names' ++ [name] := by
  unfold append
  split
  · exact ⟨p.names ++ names, by simp [h]⟩
  · exact ⟨names, h⟩

/-- A path in which no name goes up stays as it is when it is collapsed. -/
lemma collapse_eq {p : Path} (h : (".." : Text) ∉ p.names) : p.collapse = p := by
  have honto : ∀ (before : List Text) (n : Text), n ≠ ".." → collapseOnto p.root before n = n :: before := by
    intro before n hn
    cases before <;> simp [collapseOnto, hn]
  have hfold : ∀ (names before : List Text), (".." : Text) ∉ names →
      names.foldl (collapseOnto p.root) before = names.reverse ++ before := by
    intro names
    induction names with
    | nil => exact fun _ _ => rfl
    | cons n names ih =>
      intro before hnot
      rw [List.mem_cons, not_or] at hnot
      rw [List.foldl_cons, honto before n (Ne.symm hnot.1), ih _ hnot.2, List.reverse_cons,
        List.append_assoc, List.singleton_append]
  rw [collapse, hfold p.names [] h, List.append_nil, List.reverse_reverse]

/-- The names of a collapsed path are some of its names. -/
lemma mem_names_of_collapse {p : Path} {name : Text} (h : name ∈ p.collapse.names) :
    name ∈ p.names := by
  have honto : ∀ (before : List Text) (n : Text), name ∈ collapseOnto p.root before n →
      name ∈ before ∨ name = n := by
    intro before n hn
    cases before with
    | nil =>
      rw [collapseOnto] at hn
      split at hn
      · cases hn
      · exact Or.inr (List.mem_singleton.mp hn)
    | cons last before =>
      rw [collapseOnto] at hn
      split at hn
      · exact Or.inl (List.mem_cons_of_mem last hn)
      · rcases List.mem_cons.mp hn with heq | hn
        · exact Or.inr heq
        · exact Or.inl hn
  have hfold : ∀ (names before : List Text), name ∈ names.foldl (collapseOnto p.root) before →
      name ∈ before ∨ name ∈ names := by
    intro names
    induction names with
    | nil => exact fun before hb => Or.inl hb
    | cons n names ih =>
      intro before hb
      rcases ih _ hb with hb | hn
      · rcases honto before n hb with hb | heq
        · exact Or.inl hb
        · exact Or.inr (heq ▸ List.mem_cons_self)
      · exact Or.inr (List.mem_cons_of_mem n hn)
  rcases hfold p.names [] (List.mem_reverse.mp h) with hnil | hmem
  · cases hnil
  · exact hmem

/-- The names of a path that is taken from another one are those of both. -/
lemma mem_names_of_append {p q : Path} {name : Text} (h : name ∈ (p.append q).names) :
    name ∈ p.names ∨ name ∈ q.names := by
  unfold append at h
  split at h
  · exact List.mem_append.mp h
  · exact Or.inr h

/-- The names of a path hold the characters of its text. -/
lemma mem_of_mem_names {t name : Text} (h : name ∈ (ofText t).names) {c : CodePoint}
    (hc : c ∈ name) : c ∈ t :=
  Text.mem_of_mem_splitOn (List.mem_filter.mp h).1 hc

/-! ## Paths in normal form -/

/-- The names of the path are such as are read from a text. -/
def IsProper (p : Path) : Prop :=
  ∀ name ∈ p.names, isIdle name = false ∧ ('/' : CodePoint) ∉ name

/-- A path that is read from a text is proper. -/
lemma isProper_ofText (t : Text) : (ofText t).IsProper := by
  intro name hname
  obtain ⟨hmem, hidle⟩ := List.mem_filter.mp hname
  exact ⟨by simpa using hidle, Text.notMem_of_mem_splitOn hmem⟩

/-- A proper path that is taken from another one is proper with it. -/
lemma IsProper.append {p q : Path} (hp : p.IsProper) (hq : q.IsProper) : (p.append q).IsProper := by
  intro name hname
  rcases mem_names_of_append hname with h | h
  · exact hp name h
  · exact hq name h

/-- The names of a proper path are not empty. -/
lemma IsProper.ne_nil {p : Path} (hp : p.IsProper) {name : Text} (h : name ∈ p.names) :
    name ≠ [] := by
  rintro rfl
  cases (hp [] h).1

/-- A path without names is its root. -/
lemma text_eq_root {p : Path} (h : p.names = []) :
    p.text = if p.root = .relative then ("." : Text) else p.root.text := by
  rw [text, h]
  cases p.root <;> rfl

/-- A path with names is its root and its names. -/
lemma text_eq_join {p : Path} (h : p.names ≠ []) : p.text = p.root.text ++ Text.join "/" p.names := by
  have hne : p.names.isEmpty = false := by simpa using h
  rw [text, hne]
  rfl

/-- A proper path is written out with at least one character. -/
lemma IsProper.text_ne_nil {p : Path} (hp : p.IsProper) : p.text ≠ [] := by
  by_cases hnames : p.names = []
  · rw [text_eq_root hnames]
    cases p.root <;> decide
  · obtain ⟨name, hmem⟩ := List.exists_mem_of_ne_nil _ hnames
    rw [text_eq_join hnames]
    intro hnil
    obtain ⟨c, hc⟩ := List.exists_mem_of_ne_nil _ (hp.ne_nil hmem)
    have hjoin := Text.mem_join_of_mem (s := "/") hmem hc
    rw [(List.append_eq_nil_iff.mp hnil).2] at hjoin
    cases hjoin

/-- What is taken from a path with names stands behind a slash. -/
lemma text_append {p q : Path} (hp : p.names ≠ []) (hq : q.names ≠ []) (hroot : q.root = .relative) :
    (p.append q).text = p.text ++ ('/' : CodePoint) :: Text.join "/" q.names := by
  have hslash : ("/" : Text) = [('/' : CodePoint)] := by decide
  have happend : p.append q = ⟨p.root, p.names ++ q.names⟩ := if_pos hroot
  rw [happend, text_eq_join (by simp [hp]), text_eq_join hp, Text.join_append _ hp hq]
  simp [hslash]

/-- A proper path with names does not end with a slash. -/
lemma IsProper.exists_text_concat {p : Path} (hp : p.IsProper) (hnames : p.names ≠ []) :
    ∃ a c, p.text = a ++ [c] ∧ c ≠ ('/' : CodePoint) := by
  have hmem := List.getLast_mem hnames
  obtain ⟨a, ha⟩ := exists_text_eq (List.dropLast_concat_getLast hnames).symm
  obtain ⟨x, c, hxc⟩ := (List.eq_nil_or_concat _).resolve_left (hp.ne_nil hmem)
  refine ⟨a ++ x, c, ?_, ?_⟩
  · rw [ha, hxc]
    simp
  · rintro rfl
    exact (hp _ hmem).2 (hxc ▸ by simp)

/-- A proper path has no slashes at its end that could be dropped. -/
lemma dropEndSlashes_text {p : Path} (hp : p.IsProper) :
    FileSystem.dropEndSlashes p.text = p.text := by
  by_cases hnames : p.names = []
  · rw [text_eq_root hnames]
    cases p.root <;> decide
  · obtain ⟨a, c, htext, hc⟩ := hp.exists_text_concat hnames
    have hkeep : p.text.dropEndWhile (· = ('/' : CodePoint)) = p.text := by
      rw [htext, Text.dropEndWhile]
      simp [hc]
    have hne : p.text.isEmpty = false := by simp [htext]
    unfold FileSystem.dropEndSlashes
    simp only [hkeep, hne]
    rfl

/-- The names of a proper path begin with something other than a slash where they are joined. -/
lemma IsProper.exists_join_eq_cons {p : Path} (hp : p.IsProper) (hnames : p.names ≠ []) :
    ∃ c t, c ≠ ('/' : CodePoint) ∧ Text.join "/" p.names = c :: t := by
  obtain ⟨name, rest, hcons⟩ := List.exists_cons_of_ne_nil hnames
  have hmem : name ∈ p.names := hcons ▸ List.mem_cons_self
  obtain ⟨c, t, rfl⟩ := List.exists_cons_of_ne_nil (hp.ne_nil hmem)
  have hc : c ≠ ('/' : CodePoint) := by
    rintro rfl
    exact (hp _ hmem).2 List.mem_cons_self
  rw [hcons]
  cases rest with
  | nil => exact ⟨c, t, hc, by simp [Text.join]⟩
  | cons name' rest' => exact ⟨c, _, hc, by rw [Text.join_cons_cons]; rfl⟩

/-- A proper path is rooted as it says. -/
lemma isRooted_text {p : Path} (hp : p.IsProper) :
    FileSystem.isRooted p.text = decide (p.root ≠ .relative) := by
  by_cases hnames : p.names = []
  · rw [text_eq_root hnames]
    cases p.root <;> decide
  · rw [text_eq_join hnames]
    cases hroot : p.root with
    | absolute => rfl
    | doubled => rfl
    | relative =>
      obtain ⟨c, t, hc, hjoin⟩ := hp.exists_join_eq_cons hnames
      have hslash : ("/" : Text) = [('/' : CodePoint)] := by decide
      have hfirst : List.isPrefixOf [('/' : CodePoint)] (c :: t) = false := by
        rw [List.isPrefixOf_cons_cons, beq_eq_false_iff_ne.mpr (Ne.symm hc), Bool.false_and]
      rw [hjoin, FileSystem.isRooted, Text.startsWith, hslash]
      exact hfirst

/-! ## Paths that are read back -/

/-- The slashes of a root are all that is read of it before other characters. -/
lemma rootOf_append (root : Root) {c : CodePoint} (hc : c ≠ ('/' : CodePoint)) (t : Text) :
    rootOf (root.text ++ c :: t) = root := by
  have hnone : (c :: t).takeWhile (· = ('/' : CodePoint)) = [] :=
    List.takeWhile_cons_of_neg (by simpa using hc)
  have hall : root.text.all (· = ('/' : CodePoint)) = true := by cases root <;> decide
  rw [rootOf, List.takeWhile_append_of_pos (List.all_eq_true.mp hall), hnone, List.append_nil]
  cases root <;> rfl

/-- The slashes of a root make no names. -/
lemma names_ofText_append (root : Root) (t : Text) :
    (ofText (root.text ++ t)).names = (ofText t).names := by
  have hcons : ∀ u : Text, (ofText (('/' : CodePoint) :: u)).names = (ofText u).names := by
    intro u
    have hsplit : Text.splitOn '/' (('/' : CodePoint) :: u) = Text.splitOn '/' [] ++ Text.splitOn '/' u :=
      Text.splitOn_append_cons [] u
    simp only [ofText]
    rw [hsplit, List.filter_append]
    rfl
  cases root with
  | relative => rfl
  | absolute => exact hcons t
  | doubled => exact (hcons _).trans (hcons t)

/-- A proper path is what its text spells. -/
lemma IsProper.ofText_text {p : Path} (hp : p.IsProper) : ofText p.text = p := by
  by_cases hnames : p.names = []
  · obtain ⟨root, names⟩ := p
    cases hnames
    cases root <;> decide
  · have hslash : ("/" : Text) = [('/' : CodePoint)] := by decide
    have hroot : rootOf p.text = p.root := by
      obtain ⟨c, t, hc, hjoin⟩ := hp.exists_join_eq_cons hnames
      rw [text_eq_join hnames, hjoin, rootOf_append _ hc]
    have hread : (ofText p.text).names = p.names := by
      rw [text_eq_join hnames, names_ofText_append]
      simp only [ofText]
      rw [hslash, Text.splitOn_join hnames fun n hn => (hp n hn).2]
      exact List.filter_eq_self.mpr fun n hn => by simp [(hp n hn).1]
    calc ofText p.text = ⟨rootOf p.text, (ofText p.text).names⟩ := rfl
      _ = p := by rw [hroot, hread]

end Path

/-! ## The spelling of the system -/

namespace Utf8

/-- How a piece is spelled: bytes that are no character stand as surrogates. -/
def Piece.spelling : Piece → Text
  | .char c _ => [c]
  | .fault _ faulty => faulty.map fun b => CodePoint.ofNat (0xDC00 + b.toNat)

/-- A byte of ASCII is a character of its own, whatever stands before it. The reason of a fault
before it may change, but not its spelling. -/
lemma spelling_append_cons {b : Option Begun} (hb : ∀ p ∈ b, p.IsSound) {x : UInt8}
    (hx : x.toNat < 0x80) (before rest : Bytes) :
    (piecesAfter [] b (before ++ x :: rest)).flatMap Piece.spelling =
      (piecesAfter [] b before).flatMap Piece.spelling ++
        CodePoint.ofNat x.toNat :: (piecesAfter [] none rest).flatMap Piece.spelling := by
  have hpieces : piecesAfter [] none (x :: rest) =
      .char (CodePoint.ofNat x.toNat) 1 :: piecesAfter [] none rest := by
    rw [piecesAfter, ofByte_ascii hx]
    exact piecesAfter_eq _ none rest
  induction before generalizing b with
  | nil =>
    cases b with
    | none =>
      rw [List.nil_append, hpieces]
      rfl
    | some p =>
      have hrange : ¬ (p.low ≤ x.toNat ∧ x.toNat ≤ p.high) := by
        have := (hb p rfl).low
        omega
      rw [List.nil_append, piecesAfter_of_not_range hrange, piecesAfter_eq, hpieces]
      simp [piecesAfter, Piece.spelling]
  | cons y before ih =>
    have hnone := ih (b := none) (by simp)
    have hsome : ∀ q : Begun, q.IsSound → _ := fun q hq => ih (b := some q) (by simpa using hq)
    rw [List.cons_append]
    -- a byte that starts anew, to which one of the cases below leads back
    have hstart : (piecesAfter [] none (y :: (before ++ x :: rest))).flatMap Piece.spelling =
        (piecesAfter [] none (y :: before)).flatMap Piece.spelling ++
          CodePoint.ofNat x.toNat :: (piecesAfter [] none rest).flatMap Piece.spelling := by
      rw [piecesAfter, piecesAfter]
      cases hy : Start.ofByte y with
      | whole c =>
        simp only
        rw [piecesAfter_eq, piecesAfter_eq [.char c 1] none before]
        simp [hnone]
      | begun q => exact hsome q (isSound_ofByte hy)
      | none =>
        simp only
        rw [piecesAfter_eq, piecesAfter_eq [.fault .invalidStart [y]] none before]
        simp [hnone]
    cases b with
    | none => exact hstart
    | some p =>
      have hp : p.IsSound := hb p rfl
      by_cases hrange : p.low ≤ y.toNat ∧ y.toNat ≤ p.high
      · rw [piecesAfter, piecesAfter, if_pos hrange, if_pos hrange]
        simp only
        split
        · rw [piecesAfter_eq, piecesAfter_eq [_] none before]
          simp [hnone]
        · exact hsome _ (hp.continue hrange (by omega))
      · rw [piecesAfter_of_not_range hrange, piecesAfter_of_not_range hrange, piecesAfter_eq,
          piecesAfter_eq [_] none (y :: before)]
        simp [hstart]

end Utf8

namespace FileSystem

/-- A character of ASCII between two byte sequences is spelled between their spellings. -/
lemma ofBytes_append_cons {x : UInt8} (hx : x.toNat < 0x80) (before rest : Bytes) :
    ofBytes (before ++ x :: rest) = ofBytes before ++ CodePoint.ofNat x.toNat :: ofBytes rest :=
  Utf8.spelling_append_cons (by simp) hx before rest

/-- A character of ASCII is one byte. -/
lemma bytesOf_ascii {c : CodePoint} (hc : c.val < 0x80) :
    bytesOf [c] = [UInt8.ofNat c.val] := by
  have hescaped : isEscapedByte c = false := by
    simp only [isEscapedByte, Bool.and_eq_false_iff, decide_eq_false_iff_not]
    omega
  simp [bytesOf, hescaped, Utf8.encodeNat, hc]

/-- An end of ASCII keeps its spelling. -/
lemma ofBytes_append_ascii (a : Bytes) {e : Text} (he : ∀ c ∈ e, c.val < 0x80) :
    ofBytes (a ++ bytesOf e) = ofBytes a ++ e := by
  induction e generalizing a with
  | nil => simp [bytesOf]
  | cons c e ih =>
    have hc : c.val < 0x80 := he c List.mem_cons_self
    have hn : (UInt8.ofNat c.val).toNat = c.val := Utf8.toNat_ofNat (by omega)
    have hrest := ih [] fun d hd => he d (List.mem_cons_of_mem c hd)
    have hcons : bytesOf (c :: e) = UInt8.ofNat c.val :: bytesOf e := by
      have happend : bytesOf ([c] ++ e) = bytesOf [c] ++ bytesOf e := by simp [bytesOf]
      rw [← List.singleton_append, happend, bytesOf_ascii hc, List.singleton_append]
    have hnil : ofBytes [] = [] := by simp [ofBytes, Utf8.pieces, Utf8.piecesAfter]
    rw [List.nil_append, hnil, List.nil_append] at hrest
    rw [hcons, ofBytes_append_cons (by omega), hn, hrest, CodePoint.ofNat_val]

/-- An end of ASCII keeps its spelling in a path as the system knows it. -/
lemma canonical_append (a : Text) {e : Text} (he : ∀ c ∈ e, c.val < 0x80) :
    canonical (a ++ e) = canonical a ++ e := by
  have hescaped : e.any isEscapedByte = false := by
    rw [List.any_eq_false]
    intro c hc
    have hlt := he c hc
    simp only [isEscapedByte, Bool.and_eq_true, decide_eq_true_eq]
    omega
  unfold canonical
  rw [List.any_append, hescaped, Bool.or_false]
  split
  · have happend : bytesOf (a ++ e) = bytesOf a ++ bytesOf e := by simp [bytesOf]
    rw [happend, ofBytes_append_ascii _ he]
  · rfl

/-- Every surrogate of the text stands for a byte. -/
def IsByteText (t : Text) : Prop := ∀ c ∈ t, c.isSurrogate = true → isEscapedByte c = true

/-- A text without surrogates is spelled by its bytes. -/
lemma ofBytes_bytesOf {t : Text} (h : IsByteText t) (hnone : t.any isEscapedByte = false) :
    ofBytes (bytesOf t) = t := by
  have hescaped : ∀ c ∈ t, isEscapedByte c = false := by
    simpa [List.any_eq_false] using hnone
  have hscalar : t.IsScalar := by
    intro c hc
    cases hs : c.isSurrogate with
    | false => rfl
    | true =>
      have := h c hc hs
      rw [hescaped c hc] at this
      cases this
  have hbytes : bytesOf t = Utf8.encodeAll t := by
    unfold bytesOf Utf8.encodeAll
    rw [List.flatMap_def, List.flatMap_def]
    congr 1
    apply List.map_congr_left
    intro c hc
    rw [hescaped c hc, if_neg Bool.false_ne_true]
  have hpieces : ofBytes (Utf8.encodeAll t) = (t.map fun c =>
      Utf8.Piece.char c (Utf8.encodeNat c.val).length).flatMap Utf8.Piece.spelling := by
    rw [← Utf8.pieces_encodeAll hscalar]
    rfl
  rw [hbytes, hpieces, List.flatMap_map]
  simp [Utf8.Piece.spelling]

/-- The system knows a path by its bytes. -/
lemma canonical_eq {t : Text} (h : IsByteText t) : canonical t = ofBytes (bytesOf t) := by
  unfold canonical
  split
  · rfl
  · rename_i hnone
    exact (ofBytes_bytesOf h (by simpa using hnone)).symm

/-- The parts of a path are spelled one by one. -/
lemma canonical_append_slash {a b : Text} (ha : IsByteText a) (hb : IsByteText b) :
    canonical (a ++ ('/' : CodePoint) :: b) = canonical a ++ ('/' : CodePoint) :: canonical b := by
  have hslash : isEscapedByte ('/' : CodePoint) = false := by decide
  by_cases hany : (a ++ ('/' : CodePoint) :: b).any isEscapedByte = true
  · have hbytes : bytesOf (a ++ ('/' : CodePoint) :: b) = bytesOf a ++ 0x2F :: bytesOf b := by
      have hone : bytesOf [('/' : CodePoint)] = [0x2F] := by decide
      rw [← List.singleton_append]
      simp only [bytesOf, List.flatMap_append] at hone ⊢
      rw [hone, List.singleton_append]
    rw [canonical, if_pos hany, canonical_eq ha, canonical_eq hb, hbytes, ofBytes_append_cons (by decide)]
    rfl
  · have hnone : a.any isEscapedByte = false ∧ b.any isEscapedByte = false := by
      rw [List.any_append, List.any_cons, hslash, Bool.false_or] at hany
      simpa using hany
    rw [canonical, if_neg hany, canonical, canonical, hnone.1, hnone.2]
    rfl

/-- The bytes of joined texts are counted together. -/
lemma byteLength_append (a b : Text) : byteLength (a ++ b) = byteLength a + byteLength b := by
  have hfrom : ∀ (t : Text) (n : Nat),
      t.foldl (fun n c => n + if isEscapedByte c then 1 else (Utf8.encodeNat c.val).length) n =
        n + byteLength t := by
    intro t
    induction t with
    | nil => exact fun n => rfl
    | cons c t ih =>
      intro n
      have hcons : byteLength (c :: t) =
          (if isEscapedByte c then 1 else (Utf8.encodeNat c.val).length) + byteLength t := by
        rw [byteLength, List.foldl_cons, Nat.zero_add]
        exact ih _
      rw [List.foldl_cons, ih, hcons, Nat.add_assoc]
  rw [byteLength, List.foldl_append]
  exact hfrom b _

/-- The bytes of a text are counted. -/
lemma byteLength_eq_length (t : Text) : byteLength t = (bytesOf t).length := by
  induction t with
  | nil => rfl
  | cons c t ih =>
    have hcons : byteLength (c :: t) = byteLength [c] + byteLength t := byteLength_append [c] t
    have hone : byteLength [c] = (bytesOf [c]).length := by
      simp only [byteLength, bytesOf, List.foldl_cons, List.foldl_nil, List.flatMap_singleton,
        Nat.zero_add]
      split <;> rfl
    rw [hcons, hone, ih, ← List.length_append]
    simp [bytesOf]

/-- The last name of a path with an end of this kind ends so for the system. -/
lemma exists_splitOn_canonical {e : Text} (he : e.IsEnding) (a : Text) :
    ∃ names x, (canonical (a ++ e)).splitOn '/' = names ++ [x ++ e] ∧ IsRegular (x ++ e) := by
  obtain ⟨parts, part, -, hparts⟩ := Text.splitOn_append_of_notMem he.noSlash (canonical a)
  rw [← canonical_append a he.ascii] at hparts
  exact ⟨parts, part, hparts, he.isRegular part⟩

/-- A path with an end of this kind leads to an entry whose name ends so. -/
theorem State.exists_getLast?_location {s : State} {a e : Text} {p : Place} (he : e.IsEnding)
    (h : s.locate .entry (a ++ e) = .ok p) : ∃ x, p.location.getLast? = some (x ++ e) := by
  obtain ⟨names, x, hnames, hregular⟩ := exists_splitOn_canonical he a
  exact ⟨x, (getLast?_location hnames hregular h).1⟩

/-- A path with an end of this kind has no slashes behind it. -/
lemma State.not_slashed_of_ending {s : State} {a e : Text} {p : Place} (he : e.IsEnding)
    (h : s.locate .entry (a ++ e) = .ok p) : ∀ parent name, p ≠ .vacancy parent name true := by
  obtain ⟨names, x, hnames, hregular⟩ := exists_splitOn_canonical he a
  exact (getLast?_location hnames hregular h).2

end FileSystem

end EditorDocs
