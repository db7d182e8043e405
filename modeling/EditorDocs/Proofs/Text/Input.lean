import EditorDocs.CommandLine.Run
import EditorDocs.Proofs.Text.Utf8
import Mathlib.Tactic.ByContra

/-!
# Lines of an input

An input of bytes falls into lines at its line breaks, which are bytes of ASCII: a line feed, a
carriage return, or both in this order.  None of them is part of a longer character, nor of bytes
that spell none, so breaking the bytes into lines and decoding each is the same as decoding all and
breaking the text (`CommandLine.lines_inputText`).  Bytes that are not UTF-8 therefore spoil their
own line only: a line that is UTF-8 is read as what its bytes spell (`Utf8.decodeLossy_of_decode`).

The proof follows the reading of the bytes (`Utf8.Reads`), and what it carries along is how the part
of the line that has been read is decoded.
-/

namespace EditorDocs

/-! ## Lines of a text -/

namespace Text

/-- No line feed stands where a line is not ended. -/
lemma linesAfter_cons_of_ne {c : CodePoint} (h : c.val ≠ 0x0A) (line t : Text) :
    linesAfter line (c :: t) = linesAfter (c :: line) t := by
  rw [linesAfter, if_neg h]

/-- A character that is no line break stays as it is. -/
lemma unifyAfter_cons_of_ne {c : CodePoint} (hfeed : c.val ≠ 0x0A) (hreturn : c.val ≠ 0x0D)
    (afterReturn : Bool) (t : Text) :
    unifyAfter afterReturn (c :: t) = c :: unifyAfter false t := by
  have hnot : ¬ (decide (c.val = 0x0A) && afterReturn) = true := by
    simp [hfeed]
  rw [unifyAfter, if_neg hreturn, if_neg hnot]

end Text

namespace Utf8

/-! ## Lines of bytes -/

/-- The lines of the bytes after the start of a line in `line`, which stands last first;
`afterReturn` says that a carriage return stands right before. -/
def linesAfter (afterReturn : Bool) (line : Bytes) : Bytes → List Bytes
  | [] => if line.isEmpty then [] else [line.reverse]
  | x :: rest =>
    if x.toNat = 0x0D then line.reverse :: linesAfter true [] rest
    else if x.toNat = 0x0A then
      if afterReturn then linesAfter false line rest else line.reverse :: linesAfter false [] rest
    else linesAfter false (x :: line) rest

/-- The lines of the bytes, without their breaks. A line feed, a carriage return, and both in this
order end a line; behind the last break there is a line only if something stands there. -/
def lines (bytes : Bytes) : List Bytes := linesAfter false [] bytes

/-- The bytes are not UTF-8. -/
def IsUndecodable (bytes : Bytes) : Prop := ∃ m, decode bytes = .error m

/-- A byte that is no line break belongs to its line. -/
lemma linesAfter_cons_of_ne {x : UInt8} (hfeed : x.toNat ≠ 0x0A) (hreturn : x.toNat ≠ 0x0D)
    (afterReturn : Bool) (line rest : Bytes) :
    linesAfter afterReturn line (x :: rest) = linesAfter false (x :: line) rest := by
  rw [linesAfter, if_neg hreturn, if_neg hfeed]

/-! ## Decoding with replacement -/

/-- What is shown of a piece: the character, or the replacement character. -/
def Piece.shown : Piece → CodePoint
  | .char c _ => c
  | .fault _ _ => CodePoint.replacement

/-- What is shown of a fault is no character of ASCII. -/
lemma le_shown_fault (reason : Reason) (bytes : Bytes) :
    0x80 ≤ (Piece.fault reason bytes).shown.val := by
  rw [Piece.shown]
  decide

/-- What is decoded with replacement is what is shown of the pieces. -/
lemma decodeLossy_eq (bytes : Bytes) : decodeLossy bytes = (pieces bytes).map Piece.shown := by
  unfold decodeLossy
  refine List.map_congr_left fun p _ => ?_
  cases p <;> rfl

/-- Only from no bytes nothing is decoded. -/
lemma decodeLossy_eq_nil_iff {bytes : Bytes} : decodeLossy bytes = [] ↔ bytes = [] := by
  constructor
  · intro h
    rw [decodeLossy_eq, List.map_eq_nil_iff] at h
    rw [← bytes_pieces bytes, h]
    rfl
  · rintro rfl
    rfl

/-- The pieces of bytes that are UTF-8 are characters, of which the text consists. -/
lemma pieces_of_charactersAfter {before t : Text} {position : Nat} {ps : List Piece}
    (h : charactersAfter before position ps = .ok t) :
    t = before.reverse ++ ps.map Piece.shown ∧ ∀ p ∈ ps, p.bytes = encodeNat p.shown.val := by
  induction ps generalizing before position with
  | nil =>
    rw [charactersAfter, Except.ok.injEq] at h
    exact ⟨by rw [← h, List.map_nil, List.append_nil], by simp⟩
  | cons p ps ih =>
    cases p with
    | fault reason bytes => cases h
    | char c width =>
      obtain ⟨htext, hbytes⟩ := ih h
      refine ⟨?_, List.forall_mem_cons.mpr ⟨rfl, hbytes⟩⟩
      rw [htext, List.reverse_cons, List.append_assoc]
      rfl

/-- Bytes that are UTF-8 are decoded as the text that they spell, and nothing is replaced. -/
theorem decodeLossy_of_decode {bytes : Bytes} {t : Text} (h : decode bytes = .ok t) :
    decodeLossy bytes = t ∧ encodeAll t = bytes := by
  obtain ⟨htext, hbytes⟩ := pieces_of_charactersAfter h
  rw [List.reverse_nil, List.nil_append, ← decodeLossy_eq] at htext
  refine ⟨htext.symm, ?_⟩
  have hspelled : (pieces bytes).map Piece.bytes =
      (pieces bytes).map fun p => encodeNat p.shown.val :=
    List.map_congr_left hbytes
  rw [htext, decodeLossy_eq, encodeAll, List.flatMap_map, List.flatMap_def, ← hspelled,
    ← List.flatMap_def, bytes_pieces]

/-- A byte of ASCII is the first piece. -/
lemma piecesAfter_whole {x : UInt8} {c : CodePoint} (h : Start.ofByte x = .whole c) (rest : Bytes) :
    piecesAfter [] none (x :: rest) = .char c 1 :: piecesAfter [] none rest := by
  rw [piecesAfter, h]
  exact piecesAfter_eq _ _ _

/-- A byte that begins nothing is the first piece. -/
lemma piecesAfter_wrong {x : UInt8} (h : Start.ofByte x = .none) (rest : Bytes) :
    piecesAfter [] none (x :: rest) = .fault .invalidStart [x] :: piecesAfter [] none rest := by
  rw [piecesAfter, h]
  exact piecesAfter_eq _ _ _

/-- A character that ends is the first piece. -/
lemma piecesAfter_last {p : Begun} {x : UInt8} (hrange : p.low ≤ x.toNat ∧ x.toNat ≤ p.high)
    (hdue : p.due ≤ 1) (rest : Bytes) :
    piecesAfter [] (some p) (x :: rest) =
      .char (CodePoint.ofNat (p.value * 0x40 + (x.toNat - 0x80))) (p.read.length + 1) ::
        piecesAfter [] none rest := by
  rw [piecesAfter_end hrange hdue]
  exact piecesAfter_eq _ _ _

/-! ## Bytes of longer characters -/

/-- What is read first after the start of a longer character is no character of ASCII. -/
lemma Reads.le_of_begun {b : Option Begun} {bytes : Bytes} {ps : List Piece} (h : Reads b bytes ps)
    (hb : ∀ p ∈ b, p.IsSpelled ∧ p.read ≠ []) (hsome : b ≠ none) :
    ∃ q rest, ps = q :: rest ∧ 0x80 ≤ q.shown.val := by
  induction h with
  | done => exact absurd rfl hsome
  | cut => exact ⟨_, _, rfl, le_shown_fault _ _⟩
  | whole hx hrest ih => exact absurd rfl hsome
  | begun hx hrest ih => exact absurd rfl hsome
  | wrong hx hrest ih => exact absurd rfl hsome
  | next hrange hdue hrest ih =>
    have hspelled := (hb _ rfl).1
    exact ih (by simpa using hspelled.continue hrange hdue) (by simp)
  | @last p x _ _ hrange hdue hrest ih =>
    obtain ⟨hspelled, hread⟩ := hb p rfl
    refine ⟨_, _, rfl, ?_⟩
    have hencode := hspelled.encode_end hrange hdue
    rw [Piece.shown]
    generalize CodePoint.ofNat (p.value * 0x40 + (x.toNat - 0x80)) = c at hencode
    -- a character of ASCII is spelled by one byte, and here two have been read at least
    by_contra hascii
    rw [encodeNat, if_pos (by omega)] at hencode
    have hlength := congrArg List.length hencode
    simp only [List.length_singleton, List.length_append, List.length_reverse] at hlength
    exact hread (List.length_eq_zero_iff.mp (by omega))
  | anew hrange hrest ih => exact ⟨_, _, rfl, le_shown_fault _ _⟩

/-! ## Lines of what is decoded -/

/-- How the part of a line that has been read is decoded: after it, what follows is decoded on its
own, as long as it begins as `bytes` does or the line ends there. -/
def Decodes (line : Bytes) (before : Text) (b : Option Begun) (bytes : Bytes) : Prop :=
  ∀ rest, rest = [] ∨ rest.head? = bytes.head? →
    decodeLossy (line.reverse ++ rest) =
      before.reverse ++ (piecesAfter [] b rest).map Piece.shown

namespace Decodes

variable {line : Bytes} {before : Text} {b b' : Option Begun} {x : UInt8} {rest : Bytes}

/-- A byte that is no piece by itself has been read. -/
lemma read (h : Decodes line before b (x :: rest))
    (hx : ∀ rest, piecesAfter [] b (x :: rest) = piecesAfter [] b' rest) (bytes : Bytes) :
    Decodes (x :: line) before b' bytes := by
  intro more _
  rw [List.reverse_cons, List.append_assoc, List.singleton_append, h (x :: more) (Or.inr rfl), hx]

/-- A byte that completes a piece has been read. -/
lemma complete (h : Decodes line before b (x :: rest)) {p : Piece}
    (hx : ∀ rest, piecesAfter [] b (x :: rest) = p :: piecesAfter [] none rest) (bytes : Bytes) :
    Decodes (x :: line) (p.shown :: before) none bytes := by
  intro more _
  rw [List.reverse_cons, List.append_assoc, List.singleton_append, h (x :: more) (Or.inr rfl), hx,
    List.reverse_cons, List.append_assoc]
  rfl

/-- A character that has been begun and does not go on is decoded as the replacement character,
whether the line ends there or not. -/
lemma replace {p : Begun} (h : Decodes line before (some p) (x :: rest))
    (hrange : ¬ (p.low ≤ x.toNat ∧ x.toNat ≤ p.high)) :
    Decodes line (CodePoint.replacement :: before) none (x :: rest) := by
  intro more hmore
  rw [h more hmore, List.reverse_cons, List.append_assoc]
  congr 1
  rcases hmore with rfl | hhead
  · rfl
  · cases more with
    | nil => cases hhead
    | cons y more =>
      cases hhead
      rw [piecesAfter_of_not_range hrange, piecesAfter_eq]
      rfl

/-- A line that ends within a character ends with the replacement character. -/
lemma cut {p : Begun} (h : Decodes line before (some p) []) :
    decodeLossy line.reverse = (CodePoint.replacement :: before).reverse ∧ line ≠ [] := by
  have hend := h [] (Or.inl rfl)
  rw [List.append_nil] at hend
  rw [hend, List.reverse_cons]
  refine ⟨rfl, ?_⟩
  rintro rfl
  have hlength := congrArg List.length hend
  simp [piecesAfter, decodeLossy, pieces] at hlength

/-- The end of a line is decoded as what has been read. -/
lemma finish (h : Decodes line before none rest) : decodeLossy line.reverse = before.reverse := by
  have hend := h [] (Or.inl rfl)
  rwa [List.append_nil, piecesAfter, List.reverse_nil, List.map_nil, List.append_nil] at hend

/-- Nothing has been read of a line if it is decoded as nothing. -/
lemma isEmpty (h : Decodes line before none rest) : line.isEmpty = before.isEmpty := by
  have hline : line.reverse = [] ↔ before.reverse = [] := by
    rw [← h.finish, decodeLossy_eq_nil_iff]
  rw [List.reverse_eq_nil_iff, List.reverse_eq_nil_iff] at hline
  rw [Bool.eq_iff_iff, List.isEmpty_iff, List.isEmpty_iff, hline]

/-- A line begins with nothing. -/
lemma start (bytes : Bytes) : Decodes [] [] none bytes := by
  intro more _
  exact decodeLossy_eq more

end Decodes

/-- A character and a byte that are no line breaks belong to their lines. -/
lemma linesAfter_step {c : CodePoint} {x : UInt8} (hc : c.val ≠ 0x0A ∧ c.val ≠ 0x0D)
    (hx : x.toNat ≠ 0x0A ∧ x.toNat ≠ 0x0D) {before t : Text} {line rest : Bytes}
    {afterReturn : Bool}
    (h : Text.linesAfter (c :: before) (Text.unifyAfter false t) =
      (Utf8.linesAfter false (x :: line) rest).map decodeLossy) :
    Text.linesAfter before (Text.unifyAfter afterReturn (c :: t)) =
      (Utf8.linesAfter afterReturn line (x :: rest)).map decodeLossy := by
  rw [Text.unifyAfter_cons_of_ne hc.1 hc.2, Text.linesAfter_cons_of_ne hc.1,
    linesAfter_cons_of_ne hx.1 hx.2, h]

/-- A byte of ASCII is read like the character that it spells: it ends the line, belongs to the
break before, or belongs to the line. -/
lemma linesAfter_whole {x : UInt8} {c : CodePoint} (hx : Start.ofByte x = .whole c) {before t : Text}
    {line rest : Bytes} {afterReturn : Bool} (hline : Decodes line before none (x :: rest))
    (hreturn : afterReturn = true → line = [])
    (hrest : ∀ {line : Bytes} {before : Text} {afterReturn : Bool},
      Decodes line before none rest → (afterReturn = true → line = []) →
        Text.linesAfter before (Text.unifyAfter afterReturn t) =
          (Utf8.linesAfter afterReturn line rest).map decodeLossy) :
    Text.linesAfter before (Text.unifyAfter afterReturn (c :: t)) =
      (Utf8.linesAfter afterReturn line (x :: rest)).map decodeLossy := by
  obtain ⟨hlt, rfl⟩ := ofByte_eq_whole hx
  have hval : (CodePoint.ofNat x.toNat).val = x.toNat := by
    rw [CodePoint.ofNat, dif_pos (by omega)]
  by_cases hcr : x.toNat = 0x0D
  · rw [Text.unifyAfter, if_pos (by omega), Text.linesAfter, if_pos (by decide), Utf8.linesAfter,
      if_pos hcr, List.map_cons, hline.finish, hrest (.start rest) (by simp)]
  by_cases hlf : x.toNat = 0x0A
  · cases afterReturn with
    | true =>
      obtain rfl := hreturn rfl
      have hbefore : before = [] := by simpa using hline.isEmpty.symm
      subst hbefore
      rw [Text.unifyAfter, if_neg (by omega), if_pos (by rw [hval, hlf]; rfl), Utf8.linesAfter,
        if_neg hcr, if_pos hlf, if_pos rfl, hrest (.start rest) (by simp)]
    | false =>
      rw [Text.unifyAfter, if_neg (by omega), if_neg (by simp), Text.linesAfter,
        if_pos (by omega), Utf8.linesAfter, if_neg hcr, if_pos hlf, if_neg (by simp),
        List.map_cons, hline.finish, hrest (.start rest) (by simp)]
  · exact linesAfter_step ⟨by omega, by omega⟩ ⟨hlf, hcr⟩
      (hrest (hline.complete (piecesAfter_whole hx) rest) (by simp))

/-- The lines of what is shown of the pieces are the lines of the bytes, each decoded. -/
lemma Reads.linesAfter {b : Option Begun} {bytes : Bytes} {ps : List Piece} (h : Reads b bytes ps)
    (hb : ∀ p ∈ b, p.IsSpelled ∧ p.read ≠ []) {line : Bytes} {before : Text} {afterReturn : Bool}
    (hline : Decodes line before b bytes) (hreturn : afterReturn = true → b = none ∧ line = []) :
    Text.linesAfter before (Text.unifyAfter afterReturn (ps.map Piece.shown)) =
      (Utf8.linesAfter afterReturn line bytes).map decodeLossy := by
  induction h generalizing line before afterReturn with
  | done =>
    rw [List.map_nil, Text.unifyAfter, Text.linesAfter, Utf8.linesAfter, hline.isEmpty]
    split
    · rfl
    · rw [List.map_singleton, hline.finish]
  | @cut p =>
    obtain ⟨hend, hne⟩ := hline.cut
    rw [List.map_singleton, Piece.shown, Text.unifyAfter_cons_of_ne (by decide) (by decide),
      Text.unifyAfter, Text.linesAfter_cons_of_ne (by decide), Text.linesAfter, Utf8.linesAfter,
      if_neg (by simp), if_neg (by simpa using hne), List.map_singleton, hend]
  | @whole x c rest ps hx hrest ih =>
    exact linesAfter_whole hx hline (fun h => (hreturn h).2) fun hline' hreturn' =>
      ih (by simp) hline' fun h => ⟨rfl, hreturn' h⟩
  | @begun x p rest ps hx hrest ih =>
    have hp : ∀ q ∈ some p, q.IsSpelled ∧ q.read ≠ [] := by
      rintro q ⟨⟩
      exact ⟨isSpelled_ofByte hx, by simp [read_ofByte hx]⟩
    have hhigh : 0x80 ≤ x.toNat := by
      rcases ofByte_eq_begun hx with ⟨hge, -⟩ | ⟨hge, -⟩ | ⟨hge, -⟩ <;> omega
    obtain ⟨q, tail, rfl, hq⟩ := hrest.le_of_begun hp (by simp)
    have hno : false = true → some p = none ∧ x :: line = [] := by simp
    have hnext := ih hp (hline.read (fun rest => piecesAfter_begin hx) rest) hno
    rw [List.map_cons, Text.unifyAfter_cons_of_ne (by omega) (by omega)] at hnext ⊢
    rw [linesAfter_cons_of_ne (by omega) (by omega), hnext]
  | @wrong x rest ps hx hrest ih =>
    have hhigh := le_of_wrong hx
    have hshown := le_shown_fault .invalidStart [x]
    exact linesAfter_step ⟨by omega, by omega⟩ ⟨by omega, by omega⟩
      (ih (by simp) (hline.complete (piecesAfter_wrong hx) rest) (by simp))
  | @next p x rest ps hrange hdue hrest ih =>
    obtain ⟨hspelled, hread⟩ := hb p rfl
    have hlow := hspelled.low
    have hfalse : afterReturn = false := by
      cases afterReturn with
      | false => rfl
      | true => cases (hreturn rfl).1
    have hnext := hspelled.continue hrange hdue
    rw [hfalse, linesAfter_cons_of_ne (by omega) (by omega)]
    exact ih (by simpa using hnext) (hline.read (fun rest => piecesAfter_continue hrange hdue) rest)
      (by simp)
  | @last p x rest ps hrange hdue hrest ih =>
    have hlow := (hb p rfl).1.low
    obtain ⟨q, tail, hcons, hq⟩ := (Reads.last hrange hdue hrest).le_of_begun hb (by simp)
    obtain ⟨rfl, rfl⟩ := List.cons.inj hcons
    exact linesAfter_step ⟨by omega, by omega⟩ ⟨by omega, by omega⟩
      (ih (by simp) (hline.complete (piecesAfter_last hrange hdue) rest) (by simp))
  | @anew p x rest ps hrange hrest ih =>
    have hfalse : afterReturn = false := by
      cases afterReturn with
      | false => rfl
      | true => cases (hreturn rfl).1
    rw [hfalse, List.map_cons, Piece.shown, Text.unifyAfter_cons_of_ne (by decide) (by decide),
      Text.linesAfter_cons_of_ne (by decide)]
    exact ih (by simp) (hline.replace hrange) (by simp)

end Utf8

namespace CommandLine

/-- The lines of an input are those of its bytes, each decoded on its own. -/
theorem lines_inputText (input : Bytes) :
    (inputText input).lines = (Utf8.lines input).map Utf8.decodeLossy := by
  rw [inputText, Text.unifyBreaks, Utf8.decodeLossy_eq]
  exact (Utf8.reads_piecesAfter none input).linesAfter (by simp) (.start input) (by simp)

end CommandLine

end EditorDocs
