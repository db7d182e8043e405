import EditorDocs.Text.Lowercase
import Mathlib.Data.Nat.ModEq
import Mathlib.Tactic.Lemma

/-!
# Texts in lower case

What a run of the standard turns its members into is a member of no run (`CaseRun.clears_of_mem`),
so the lower case of a character is settled: it is not changed any more.  A text in lower case
consists of settled characters, and such a text is its own lower case (`Text.lower_lower`).

A slash is the lower case of itself alone, so that a text in lower case has a slash if the text has
one (`Text.slash_mem_lower`).
-/

namespace EditorDocs

namespace CaseRun

/-! ## Runs and what they turn into -/

/-- What the first member of the run is turned into. -/
def image (r : CaseRun) : Nat := (r.first + r.shift).toNat

/-- No member of the run is turned into a member of the other one: what they are turned into lies in
front of it or behind it, or steps over its members. -/
def clears (r r' : CaseRun) : Bool :=
  Nat.blt (r.image + (r.last - r.first)) r'.first || Nat.blt r'.last r.image ||
    ((r.first == r.last || r.step % r'.step == 0) && r.image % r'.step != r'.first % r'.step)

/-- The run of one code point. -/
def single (n : Nat) : CaseRun := ⟨n, n, 1, 0⟩

/-- The runs, and two code points beside them: the capital I with a dot, which has a lower case of
two characters, and the slash. -/
def marked : List CaseRun := single 0x130 :: single 0x2F :: all

set_option maxRecDepth 20000 in
/-- The runs clear each other and themselves. -/
lemma clears_of_mem : ∀ r ∈ all, ∀ r' ∈ marked, r.clears r' = true := by
  have hall : (all.all fun r => marked.all r.clears) = true := by decide +kernel
  intro r hr r' hr'
  exact List.all_eq_true.mp (List.all_eq_true.mp hall r hr) r' hr'

/-- What a run turns its members into are code points. -/
lemma shift_of_mem : ∀ r ∈ all, 0 ≤ r.first + r.shift ∧ r.last + r.shift < 0x110000 := by
  decide +kernel

/-- A member of a run is so many steps behind the first one. -/
lemma contains_iff {r : CaseRun} {n : Nat} :
    r.contains n = true ↔ r.first ≤ n ∧ n ≤ r.last ∧ r.step ∣ n - r.first := by
  simp [contains, and_assoc, Nat.dvd_iff_mod_eq_zero]

/-- What a member of a run is turned into is no member of a run that it clears. -/
lemma not_contains_of_clears {r r' : CaseRun} {n : Nat} (h : r.clears r' = true)
    (hn : r.contains n = true) : r'.contains (r.image + (n - r.first)) = false := by
  rw [← Bool.not_eq_true]
  intro hcontains
  obtain ⟨hfirst, hlast, hstep⟩ := contains_iff.mp hn
  obtain ⟨hfirst', hlast', hstep'⟩ := contains_iff.mp hcontains
  simp only [clears, Bool.or_eq_true, Bool.and_eq_true, bne_iff_ne, beq_iff_eq, Nat.blt_eq] at h
  rcases h with (hbefore | hbehind) | ⟨hsteps, hover⟩
  · omega
  · omega
  · -- the distance to the first member is a multiple of the steps of `r'` in both runs
    have hn' : r'.step ∣ n - r.first := by
      rcases hsteps with hone | hsteps
      · rw [Nat.sub_eq_zero_of_le (hone ▸ hlast)]
        exact Nat.dvd_zero _
      · exact (Nat.dvd_of_mod_eq_zero hsteps).trans hstep
    apply hover
    calc r.image ≡ r.image + (n - r.first) [MOD r'.step] :=
          (Nat.modEq_iff_dvd' (Nat.le_add_right _ _)).mpr (by rwa [Nat.add_sub_cancel_left])
      _ ≡ r'.first [MOD r'.step] := ((Nat.modEq_iff_dvd' hfirst').mpr hstep').symm

end CaseRun

namespace CodePoint

/-! ## Settled characters -/

/-- The character is its own lower case: it is in no run, and is not the capital I with a dot. -/
def IsSettled (c : CodePoint) : Prop :=
  ∀ r ∈ CaseRun.single 0x130 :: CaseRun.all, r.contains c.val = false

instance (c : CodePoint) : Decidable c.IsSettled := inferInstanceAs (Decidable (∀ r ∈ _, _))

/-- A character in no run is unchanged. -/
lemma lower_of_forall {c : CodePoint} (h : ∀ r ∈ CaseRun.all, r.contains c.val = false) :
    c.lower = c := by
  unfold lower
  rw [List.find?_eq_none.mpr fun r hr => by simp [h r hr]]

/-- A character in a run is shifted as the run says. -/
lemma lower_of_contains {c : CodePoint} (h : ∃ r ∈ CaseRun.all, r.contains c.val = true) :
    ∃ r ∈ CaseRun.all, r.contains c.val = true ∧
      c.lower = ofNat ((c.val : Int) + r.shift).toNat := by
  obtain ⟨r, hfind⟩ := Option.isSome_iff_exists.mp (List.find?_isSome.mpr h)
  refine ⟨r, List.mem_of_find?_eq_some hfind, by simpa using List.find?_some hfind, ?_⟩
  unfold lower
  rw [hfind]

/-- The lower case of a character in a run is in no run, and neither the capital I with a dot nor
the slash. -/
lemma notMem_lower {c : CodePoint} (h : ∃ r ∈ CaseRun.all, r.contains c.val = true) :
    ∀ r ∈ CaseRun.marked, r.contains c.lower.val = false := by
  obtain ⟨r, hr, hcontains, hlower⟩ := lower_of_contains h
  obtain ⟨hfirst, hlast, -⟩ := CaseRun.contains_iff.mp hcontains
  obtain ⟨hlow, hhigh⟩ := CaseRun.shift_of_mem r hr
  have hval : c.lower.val = r.image + (c.val - r.first) := by
    rw [hlower, ofNat, dif_pos (by omega), CaseRun.image]
    simp only
    omega
  intro r' hr'
  rw [hval]
  exact CaseRun.not_contains_of_clears (CaseRun.clears_of_mem r hr r' hr') hcontains

/-- The lower case of a character is settled, unless it is the capital I with a dot. -/
lemma isSettled_lower {c : CodePoint} (hc : c.val ≠ 0x130) : c.lower.IsSettled := by
  by_cases h : ∃ r ∈ CaseRun.all, r.contains c.val = true
  · intro r hr
    refine notMem_lower h r ?_
    rcases List.mem_cons.mp hr with rfl | hr
    · exact List.mem_cons_self
    · exact List.mem_cons_of_mem _ (List.mem_cons_of_mem _ hr)
  · have hnone : ∀ r ∈ CaseRun.all, r.contains c.val = false := by simpa using h
    rw [lower_of_forall hnone]
    refine List.forall_mem_cons.mpr ⟨?_, hnone⟩
    rw [← Bool.not_eq_true, CaseRun.contains_iff]
    rintro ⟨hfirst, hlast, -⟩
    exact hc (Nat.le_antisymm hlast hfirst)

/-- The slash is the lower case of itself alone. -/
lemma lower_eq_slash_iff {c : CodePoint} : c.lower = ('/' : CodePoint) ↔ c = ('/' : CodePoint) := by
  constructor
  · intro h
    by_cases hruns : ∃ r ∈ CaseRun.all, r.contains c.val = true
    · have hslash := notMem_lower hruns (CaseRun.single 0x2F)
        (List.mem_cons_of_mem _ List.mem_cons_self)
      rw [h] at hslash
      exact absurd hslash (by decide)
    · rwa [lower_of_forall (by simpa using hruns)] at h
  · rintro rfl
    decide +kernel

end CodePoint

namespace Text

/-! ## Settled texts -/

/-- The lower case of one character, that of a sigma depending on what stands around it. -/
def lowerOne (before : Text) (c : CodePoint) (after : Text) : Text :=
  if c.val = 0x130 then [CodePoint.ofNat 0x69, CodePoint.ofNat 0x307]
  else if c.val = 0x3A3 then
    [CodePoint.ofNat (if meetsCased before && !meetsCased after then 0x3C2 else 0x3C3)]
  else [c.lower]

/-- A text is put into lower case character by character. -/
lemma lowerAfter_cons (before : Text) (c : CodePoint) (t : Text) :
    lowerAfter before (c :: t) = lowerOne before c t ++ lowerAfter (c :: before) t := rfl

/-- The lower case of a character consists of settled ones. -/
lemma isSettled_of_mem_lowerOne {before after : Text} {c d : CodePoint}
    (h : d ∈ lowerOne before c after) : d.IsSettled := by
  unfold lowerOne at h
  split at h
  · have hdot : ∀ d ∈ [CodePoint.ofNat 0x69, CodePoint.ofNat 0x307], d.IsSettled := by
      decide +kernel
    exact hdot d h
  · rename_i hc
    split at h
    · have hsigma : ∀ b : Bool,
          (CodePoint.ofNat (if b = true then 0x3C2 else 0x3C3)).IsSettled := by decide +kernel
      exact List.mem_singleton.mp h ▸ hsigma _
    · exact List.mem_singleton.mp h ▸ CodePoint.isSettled_lower hc

/-- A text in lower case consists of settled characters. -/
lemma isSettled_of_mem_lowerAfter {before t : Text} {d : CodePoint} (h : d ∈ lowerAfter before t) :
    d.IsSettled := by
  induction t generalizing before with
  | nil => cases h
  | cons c t ih =>
    rw [lowerAfter_cons] at h
    rcases List.mem_append.mp h with hhead | hrest
    · exact isSettled_of_mem_lowerOne hhead
    · exact ih hrest

/-- The lower case of a settled character is the character. -/
lemma lowerOne_of_isSettled {c : CodePoint} (h : c.IsSettled) (before after : Text) :
    lowerOne before c after = [c] := by
  obtain ⟨hdot, hruns⟩ := List.forall_mem_cons.mp h
  have hne : c.val ≠ 0x130 := fun he => by
    rw [he] at hdot
    exact absurd hdot (by decide)
  have hsigma : c.val ≠ 0x3A3 := fun he => by
    have hmem : (⟨0x3A3, 0x3AB, 1, 32⟩ : CaseRun) ∈ CaseRun.all :=
      List.mem_map_of_mem (by decide : ((0x3A3, 0x3AB, 1, 32) : Nat × Nat × Nat × Int) ∈ _)
    have hrun := hruns _ hmem
    rw [he] at hrun
    exact absurd hrun (by decide)
  rw [lowerOne, if_neg hne, if_neg hsigma, CodePoint.lower_of_forall hruns]

/-- A text of settled characters is its own lower case. -/
lemma lowerAfter_of_isSettled {t : Text} (h : ∀ c ∈ t, c.IsSettled) (before : Text) :
    lowerAfter before t = t := by
  induction t generalizing before with
  | nil => rfl
  | cons c t ih =>
    rw [lowerAfter_cons, lowerOne_of_isSettled (h c List.mem_cons_self),
      ih fun d hd => h d (List.mem_cons_of_mem c hd)]
    rfl

/-- A text in lower case is its own lower case. -/
@[simp]
theorem lower_lower (t : Text) : t.lower.lower = t.lower :=
  lowerAfter_of_isSettled (fun _ hc => isSettled_of_mem_lowerAfter hc) []

/-! ## What lower case keeps -/

/-- The lower case of a text is empty if the text is. -/
@[simp]
lemma isEmpty_lower (t : Text) : t.lower.isEmpty = t.isEmpty := by
  cases t with
  | nil => rfl
  | cons c rest =>
    rw [lower, lowerAfter_cons, lowerOne]
    split
    · rfl
    · split <;> rfl

/-- A text has a slash in lower case if it has one. -/
@[simp]
lemma slash_mem_lower {t : Text} : ('/' : CodePoint) ∈ t.lower ↔ ('/' : CodePoint) ∈ t := by
  have hone : ∀ (before : Text) (c : CodePoint) (after : Text),
      ('/' : CodePoint) ∈ lowerOne before c after ↔ ('/' : CodePoint) = c := by
    intro before c after
    unfold lowerOne
    split
    · rename_i hdot
      refine iff_of_false (by decide) ?_
      rintro rfl
      cases hdot
    · split
      · rename_i hsigma
        have hnot : ∀ b : Bool, ('/' : CodePoint) ∉
            [CodePoint.ofNat (if b = true then 0x3C2 else 0x3C3)] := by decide
        refine iff_of_false (hnot _) ?_
        rintro rfl
        cases hsigma
      · rw [List.mem_singleton, eq_comm, CodePoint.lower_eq_slash_iff, eq_comm]
  have hafter : ∀ (t before : Text),
      ('/' : CodePoint) ∈ lowerAfter before t ↔ ('/' : CodePoint) ∈ t := by
    intro t
    induction t with
    | nil => exact fun before => Iff.rfl
    | cons c t ih =>
      intro before
      rw [lowerAfter_cons, List.mem_append, List.mem_cons, hone, ih]
  exact hafter t []

end Text

end EditorDocs
