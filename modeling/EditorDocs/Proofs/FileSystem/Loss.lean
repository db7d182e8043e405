import EditorDocs.Proofs.FileSystem.Operations

/-!
# Paths in files that lose entries

When files or links are deleted, paths come to lead nowhere.  A path that leads nowhere
(`State.IsVacant`) never leads anywhere again by a loss: following names, one gets to where one got
before or is stopped where something has gone (`Lands.of_fewer`).  So a path stays vacant
(`State.IsVacant.of_loses`), and it becomes vacant if what it led to has gone
(`State.isVacant_of_gone`).
-/

namespace EditorDocs.FileSystem

/-! ## Landing where something has gone -/

/-- Something stood in the frame where names are stopped now. -/
def Landing.Misses (f : Location → Option Fixture) : Landing → Prop
  | .stop _ => False
  | .edge parent name _ => f (parent ++ [name]) ≠ none
  | .off loc _ => f loc ≠ none

section Fewer

variable {f f' : Location → Option Fixture} {m : Manner}

/-- With fewer directories and links, names land where they did or where one of these has gone. -/
lemma Lands.of_fewer {links : Nat} {loc : Location} {names : List Name} {l : Landing}
    (h : Lands f m links loc names l) (hfewer : ∀ loc x, f' loc = some x → f loc = some x) :
    ∃ l', Lands f' m links loc names l' ∧ (l' = l ∨ l'.Misses f) := by
  -- a location keeps its directory or link, or names are stopped there
  have hkeeps : ∀ {loc x}, f loc = some x → f' loc = some x ∨ f' loc = none := by
    intro loc x hx
    cases hx' : f' loc with
    | none => exact Or.inr rfl
    | some x' => exact Or.inl (by rw [← hx, hfewer loc x' hx'])
  have hoff : ∀ {links loc x names}, f loc = some x → f' loc = none →
      ∃ l', Lands f' m links loc names l' ∧ (l' = l ∨ l'.Misses f) := by
    intro links loc x names hx hnone
    exact ⟨.off loc names, .off hnone, Or.inr (by simp [Landing.Misses, hx])⟩
  have hedge : ∀ {links loc name rest x}, f' loc = some .directory → Passes m name rest →
      f (loc ++ [name]) = some x → f' (loc ++ [name]) = none →
      ∃ l', Lands f' m links loc (name :: rest) l' ∧ (l' = l ∨ l'.Misses f) := by
    intro links loc name rest x hloc hpass hx hnone
    exact ⟨.edge loc name rest, .edge hloc hpass hnone, Or.inr (by simp [Landing.Misses, hx])⟩
  induction h with
  | @stop links loc x hloc =>
    rcases hkeeps hloc with hloc' | hnone
    · exact ⟨.stop loc, .stop hloc', Or.inl rfl⟩
    · exact hoff hloc hnone
  | @off links loc names hloc =>
    have hnone : f' loc = none := by
      cases hx : f' loc with
      | none => rfl
      | some x => rw [hfewer loc x hx] at hloc; cases hloc
    exact ⟨.off loc names, .off hnone, Or.inl rfl⟩
  | idle hloc hidle _ ih =>
    rcases hkeeps hloc with hloc' | hnone
    · obtain ⟨l', hlands, hl'⟩ := ih hoff hedge
      exact ⟨l', .idle hloc' hidle hlands, hl'⟩
    · exact hoff hloc hnone
  | up hloc _ ih =>
    rcases hkeeps hloc with hloc' | hnone
    · obtain ⟨l', hlands, hl'⟩ := ih hoff hedge
      exact ⟨l', .up hloc' hlands, hl'⟩
    · exact hoff hloc hnone
  | @edge links loc name rest hloc hpass hentry =>
    rcases hkeeps hloc with hloc' | hnone
    · have hnone : f' (loc ++ [name]) = none := by
        cases hx : f' (loc ++ [name]) with
        | none => rfl
        | some x => rw [hfewer _ x hx] at hentry; cases hentry
      exact ⟨.edge loc name rest, .edge hloc' hpass hnone, Or.inl rfl⟩
    · exact hoff hloc hnone
  | down hloc hpass hentry _ ih =>
    rcases hkeeps hloc with hloc' | hnone
    · rcases hkeeps hentry with hentry' | hgone
      · obtain ⟨l', hlands, hl'⟩ := ih hoff hedge
        exact ⟨l', .down hloc' hpass hentry' hlands, hl'⟩
      · exact hedge hloc' hpass hentry hgone
    · exact hoff hloc hnone
  | @link links loc name rest target hloc hpass hentry hlast =>
    rcases hkeeps hloc with hloc' | hnone
    · rcases hkeeps hentry with hentry' | hgone
      · exact ⟨.stop (loc ++ [name]), .link hloc' hpass hentry' hlast, Or.inl rfl⟩
      · exact hedge hloc' hpass hentry hgone
    · exact hoff hloc hnone
  | through hloc hpass hentry hfollowed _ ih =>
    rcases hkeeps hloc with hloc' | hnone
    · rcases hkeeps hentry with hentry' | hgone
      · obtain ⟨l', hlands, hl'⟩ := ih hoff hedge
        exact ⟨l', .through hloc' hpass hentry' hfollowed hlands, hl'⟩
      · exact hedge hloc' hpass hentry hgone
    · exact hoff hloc hnone

/-- Names are followed to an end, or for a cause that is no absence. -/
lemma landWith_ne_noEntry {onLink : Location → List Name → Except Errno Landing}
    (hlink : ∀ loc names, onLink loc names ≠ .error .noEntry) (loc : Location)
    (names : List Name) : landWith f m onLink loc names ≠ .error .noEntry := by
  induction names generalizing loc with
  | nil =>
    rw [landWith]
    split <;> simp
  | cons name rest ih =>
    rw [landWith]
    split
    · simp
    · repeat' split
      all_goals first | exact ih _ | exact hlink _ _ | simp
    · simp

/-- However many links are followed, names are followed to an end or for a cause that is no absence. -/
lemma landAfter_ne_noEntry (links : Nat) (loc : Location) (names : List Name) :
    landAfter f m links loc names ≠ .error .noEntry := by
  induction links generalizing loc names with
  | zero => exact landWith_ne_noEntry (by simp) loc names
  | succ links ih => exact landWith_ne_noEntry ih loc names

end Fewer

namespace State

/-! ## Paths that lead nowhere -/

/-- Nothing stands where the path leads, and that is all that there is to say against it. -/
def IsVacant (s : State) (m : Manner) (path : Text) : Prop :=
  s.locate m path = .error .noEntry ∨
    ∃ parent name slashed, s.locate m path = .ok (.vacancy parent name slashed)

section Vacant

variable {s t : State} {m : Manner} {path : Text}

/-- A landing where something stands is at an entry, or before names that lead no further. -/
lemma settle_of_find? {l : Landing} {n : Node} (h : Node.find? l.target s.root = some n) :
    s.settle l = .ok (.object l.target n) ∨ s.settle l = .error .notDirectory := by
  rw [settle_of_some h]
  split
  · exact Or.inl rfl
  · exact Or.inr rfl

/-- A landing where nothing stands is at a vacancy, or at none because more names follow. -/
lemma settle_of_view_eq_none {l : Landing} (h : s.view l.target = none) :
    s.settle l = .error .noEntry ∨
      ∃ parent name slashed, s.settle l = .ok (.vacancy parent name slashed) := by
  rw [settle_of_none (find?_eq_none_of_view h)]
  cases l with
  | stop loc => exact Or.inl rfl
  | off loc rest => exact Or.inl rfl
  | edge parent name rest =>
    rw [Landing.vacancy]
    split
    · exact Or.inr ⟨_, _, _, rfl⟩
    · exact Or.inl rfl

/-- A path leads nowhere if it is empty or lands where nothing stands. -/
lemma isVacant_iff : s.IsVacant m path ↔
    path = [] ∨ ∃ l, land s.frame s.home m path = .ok l ∧ s.view l.target = none := by
  constructor
  · intro h
    by_cases hempty : path = []
    · exact Or.inl hempty
    right
    cases hland : land s.frame s.home m path with
    | error e =>
      have hlocate : s.locate m path = .error e := by rw [s.locate_eq_settle, hland]; rfl
      rcases h with h | ⟨_, _, _, h⟩ <;> rw [h] at hlocate <;> cases hlocate
      unfold land at hland
      rw [if_neg (by simpa [List.isEmpty_iff] using hempty)] at hland
      split at hland
      · cases hland
      · exact absurd hland (landAfter_ne_noEntry _ _ _)
    | ok l =>
      refine ⟨l, rfl, ?_⟩
      by_contra hview
      obtain ⟨face, hface⟩ := Option.ne_none_iff_exists'.mp hview
      obtain ⟨n, hfind, -⟩ := exists_node_of_view hface
      rw [IsVacant, locate_of_landing hland] at h
      rcases settle_of_find? hfind with hsettle | hsettle <;> rw [hsettle] at h <;>
        rcases h with h | ⟨_, _, _, h⟩ <;> cases h
  · rintro (rfl | ⟨l, hland, hview⟩)
    · exact Or.inl rfl
    · rw [IsVacant, locate_of_landing hland]
      exact settle_of_view_eq_none hview

/-- What leads nowhere is not found. -/
lemma lookup_eq_noEntry_iff : s.lookup path = .error .noEntry ↔ s.IsVacant .lookup path := by
  unfold lookup IsVacant
  cases s.locate .lookup path with
  | error e => simp [bind, Except.bind]
  | ok p => cases p <;> simp [bind, Except.bind, pure, Except.pure, throw, throwThe, MonadExceptOf.throw]

/-- What leads nowhere is not deleted, for this cause and no other. -/
lemma unlink_eq_noEntry_iff : s.unlink path = .error .noEntry ↔ s.IsVacant .entry path := by
  unfold unlink IsVacant
  cases s.locate .entry path with
  | error e => simp [bind, Except.bind]
  | ok p =>
    cases p with
    | object loc n =>
      cases n <;> simp [bind, Except.bind, pure, Except.pure, throw, throwThe, MonadExceptOf.throw]
    | vacancy _ _ _ => simp [bind, Except.bind, throw, throwThe, MonadExceptOf.throw]

/-- Where there is no entry, nothing is found. -/
lemma IsVacant.lookup (h : s.IsVacant .entry path) : s.IsVacant .lookup path := by
  rw [isVacant_iff] at h ⊢
  rcases h with hempty | ⟨l, hland, hview⟩
  · exact Or.inl hempty
  · obtain ⟨hne, hshort, hlands⟩ := land_eq_ok_iff.mp hland
    have hlink : ∀ loc target, l = .stop loc → s.frame loc ≠ some (.link target) := by
      rintro loc target rfl hframe
      rw [Landing.target, view_of_frame hframe] at hview
      cases hview
    exact Or.inr ⟨l, land_eq_ok_iff.mpr ⟨hne, hshort, hlands.lookup hlink⟩, hview⟩

end Vacant

/-! ## Losses -/

/-- Entries may have gone.  What is there was there, and is the directory or link that it was. -/
structure Loses (s t : State) : Prop where
  /-- The working directory is the same. -/
  home : t.home = s.home
  /-- What is there was there. -/
  entries : ∀ loc, t.view loc ≠ none → s.view loc ≠ none ∧ t.frame loc = s.frame loc

namespace Loses

variable {s t u : State} {m : Manner} {path : Text}

/-- Nothing may have gone. -/
lemma refl (s : State) : s.Loses s := ⟨rfl, fun _ h => ⟨h, rfl⟩⟩

/-- Losses can follow losses. -/
lemma trans (h : s.Loses t) (h' : t.Loses u) : s.Loses u := by
  refine ⟨h'.home.trans h.home, fun loc hloc => ?_⟩
  obtain ⟨ht, hframe⟩ := h'.entries loc hloc
  obtain ⟨hs, hframe'⟩ := h.entries loc ht
  exact ⟨hs, hframe.trans hframe'⟩

/-- In files that are alike, nothing has gone. -/
lemma of_alike (hhome : t.home = s.home) (hframe : t.frame = s.frame)
    (hview : ∀ loc, t.view loc ≠ none → s.view loc ≠ none) : s.Loses t :=
  ⟨hhome, fun loc hloc => ⟨hview loc hloc, congrFun hframe loc⟩⟩

/-- An entry that goes is a loss. -/
lemma of_update {gone : Location} (hhome : t.home = s.home)
    (hview : t.view = Function.update s.view gone none) : s.Loses t := by
  refine ⟨hhome, fun loc hloc => ?_⟩
  have hne : loc ≠ gone := by
    rintro rfl
    exact hloc (by rw [hview, Function.update_self])
  have hsame : t.view loc = s.view loc := by rw [hview, Function.update_of_ne hne]
  exact ⟨hsame ▸ hloc, by rw [frame, hsame, frame]⟩

/-- The directories and links that are there were there. -/
lemma fewer (h : s.Loses t) (loc : Location) (x : Fixture) (hx : t.frame loc = some x) :
    s.frame loc = some x := by
  rw [← (h.entries loc (by rw [view_of_frame hx]; simp)).2, hx]

/-- Where a directory or link has gone, nothing stands. -/
lemma view_eq_none (h : s.Loses t) {loc : Location} (hs : s.frame loc ≠ none)
    (ht : t.frame loc = none) : t.view loc = none := by
  by_contra hview
  exact hs ((h.entries loc hview).2 ▸ ht)

/-- A path that landed where nothing stands now leads nowhere. -/
lemma isVacant_of_land (h : s.Loses t) {l : Landing} (hland : land s.frame s.home m path = .ok l)
    (hview : t.view l.target = none) : t.IsVacant m path := by
  obtain ⟨hne, hshort, hlands⟩ := land_eq_ok_iff.mp hland
  obtain ⟨l', hlands', hl'⟩ := hlands.of_fewer h.fewer
  rw [← h.home] at hlands'
  refine isVacant_iff.mpr (Or.inr ⟨l', land_eq_ok_iff.mpr ⟨hne, hshort, hlands'⟩, ?_⟩)
  rcases hl' with rfl | hmisses
  · exact hview
  · have hfits := hlands'.fits
    cases l' with
    | stop loc => exact hmisses.elim
    | edge parent name rest => exact h.view_eq_none hmisses hfits.2
    | off loc rest => exact h.view_eq_none hmisses hfits

end Loses

section Loses

variable {s t : State} {m : Manner} {path : Text}

/-- A path that led nowhere leads nowhere after a loss. -/
theorem IsVacant.of_loses (h : s.IsVacant m path) (hloses : s.Loses t) : t.IsVacant m path := by
  rcases isVacant_iff.mp h with hempty | ⟨l, hland, hview⟩
  · exact isVacant_iff.mpr (Or.inl hempty)
  · refine hloses.isVacant_of_land hland ?_
    by_contra hthere
    exact (hloses.entries _ hthere).1 hview

/-- A path leads nowhere once what it led to has gone. -/
theorem isVacant_of_gone {loc : Location} {n : Node} (h : s.locate m path = .ok (.object loc n))
    (hloses : s.Loses t) (hgone : t.view loc = none) : t.IsVacant m path := by
  obtain ⟨l, hland, hsettles⟩ := locate_eq_ok_iff.mp h
  refine hloses.isVacant_of_land hland ?_
  cases hsettles <;> exact hgone

end Loses

end State

end EditorDocs.FileSystem
