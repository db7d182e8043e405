import EditorDocs.Text.Basic
import Mathlib.Data.List.TakeWhile
import Mathlib.Tactic.Lemma

/-!
# Splitting and joining

A text falls into the parts between its separators, which hold none.  What is added at the end of a
text without a separator is added to its last part (`Text.splitOn_append_of_notMem`), and parts that
hold no separator come back from the text that they are joined to (`Text.splitOn_join`).

A text is cut at its first separator, which is the one behind a text without any
(`Text.cut_append_cons`).  Trimming drops what stands at an end (`Text.dropEndWhile_append`) and
nothing else (`Text.exists_dropEndWhile`).
-/

namespace EditorDocs.Text

variable {sep : CodePoint}

/-- A text has at least one part. -/
lemma splitOn_ne_nil (sep : CodePoint) (t : Text) : splitOn sep t ≠ [] := by
  cases t with
  | nil => simp [splitOn]
  | cons c t =>
    by_cases h : c = sep
    · simp [splitOn, h]
    · cases hs : splitOn sep t <;> simp [splitOn, h, hs]

/-- A character that is no separator belongs to the first part. -/
lemma splitOn_cons_of_ne {c : CodePoint} (h : c ≠ sep) (t : Text) :
    ∃ part parts, splitOn sep t = part :: parts ∧ splitOn sep (c :: t) = (c :: part) :: parts := by
  obtain ⟨part, parts, hs⟩ := List.exists_cons_of_ne_nil (splitOn_ne_nil sep t)
  exact ⟨part, parts, hs, by simp [splitOn, h, hs]⟩

/-- A text without a separator is a single part. -/
lemma splitOn_of_notMem {t : Text} (h : sep ∉ t) : splitOn sep t = [t] := by
  induction t with
  | nil => rfl
  | cons c t ih =>
    have hc : c ≠ sep := fun he => h (he ▸ List.mem_cons_self)
    rw [splitOn, if_neg hc, ih fun hm => h (List.mem_cons_of_mem c hm)]

/-- The parts before and after a separator are those of the texts before and after it. -/
lemma splitOn_append_cons (a b : Text) :
    splitOn sep (a ++ sep :: b) = splitOn sep a ++ splitOn sep b := by
  induction a with
  | nil => simp [splitOn]
  | cons c a ih =>
    by_cases hc : c = sep
    · rw [List.cons_append, splitOn, splitOn, if_pos hc, if_pos hc, ih, List.cons_append]
    · obtain ⟨part, parts, hs, hcs⟩ := splitOn_cons_of_ne hc a
      rw [List.cons_append, splitOn, if_neg hc, ih, hcs, hs]
      rfl

/-- A text without a separator at the end of another one belongs to the last part. -/
lemma splitOn_append_of_notMem {e : Text} (he : sep ∉ e) (a : Text) :
    ∃ parts part, splitOn sep a = parts ++ [part] ∧ splitOn sep (a ++ e) = parts ++ [part ++ e] := by
  induction a with
  | nil => exact ⟨[], [], rfl, by simp [splitOn_of_notMem he]⟩
  | cons c a ih =>
    obtain ⟨parts, part, ha, hae⟩ := ih
    by_cases hc : c = sep
    · refine ⟨[] :: parts, part, ?_, ?_⟩
      · rw [splitOn, if_pos hc, ha, List.cons_append]
      · rw [List.cons_append, splitOn, if_pos hc, hae, List.cons_append]
    · cases parts with
      | nil =>
        refine ⟨[], c :: part, ?_, ?_⟩
        · rw [splitOn, if_neg hc, ha]
          rfl
        · rw [List.cons_append, splitOn, if_neg hc, hae]
          rfl
      | cons first parts =>
        refine ⟨(c :: first) :: parts, part, ?_, ?_⟩
        · rw [splitOn, if_neg hc, ha]
          rfl
        · rw [List.cons_append, splitOn, if_neg hc, hae]
          rfl

/-- The parts hold no separator. -/
lemma notMem_of_mem_splitOn {t part : Text} (h : part ∈ splitOn sep t) : sep ∉ part := by
  induction t generalizing part with
  | nil =>
    rw [splitOn, List.mem_singleton] at h
    simp [h]
  | cons c t ih =>
    by_cases hc : c = sep
    · rw [splitOn, if_pos hc] at h
      rcases List.mem_cons.mp h with rfl | h
      · simp
      · exact ih h
    · obtain ⟨first, parts, hs, hcs⟩ := splitOn_cons_of_ne hc t
      rw [hcs] at h
      rcases List.mem_cons.mp h with rfl | h
      · intro hm
        rcases List.mem_cons.mp hm with he | hm
        · exact hc he.symm
        · exact ih (by rw [hs]; exact List.mem_cons_self) hm
      · exact ih (by rw [hs]; exact List.mem_cons_of_mem first h)

/-- The characters of the parts are those of the text. -/
lemma mem_of_mem_splitOn {t part : Text} (h : part ∈ splitOn sep t) {c : CodePoint}
    (hc : c ∈ part) : c ∈ t := by
  induction t generalizing part with
  | nil =>
    rw [splitOn, List.mem_singleton] at h
    rw [h] at hc
    cases hc
  | cons d t ih =>
    by_cases hd : d = sep
    · rw [splitOn, if_pos hd] at h
      rcases List.mem_cons.mp h with rfl | h
      · cases hc
      · exact List.mem_cons_of_mem d (ih h hc)
    · obtain ⟨first, parts, hs, hcs⟩ := splitOn_cons_of_ne hd t
      rw [hcs] at h
      rcases List.mem_cons.mp h with rfl | h
      · rcases List.mem_cons.mp hc with rfl | hc
        · exact List.mem_cons_self
        · exact List.mem_cons_of_mem d (ih (by rw [hs]; exact List.mem_cons_self) hc)
      · exact List.mem_cons_of_mem d (ih (by rw [hs]; exact List.mem_cons_of_mem first h) hc)

/-- The characters of a text that are no separators are those of the parts. -/
lemma exists_mem_splitOn {t : Text} {c : CodePoint} (h : c ∈ t) (hc : c ≠ sep) :
    ∃ part ∈ splitOn sep t, c ∈ part := by
  induction t with
  | nil => cases h
  | cons d t ih =>
    by_cases hd : d = sep
    · rw [splitOn, if_pos hd]
      obtain rfl | hmem := List.mem_cons.mp h
      · exact absurd hd hc
      · obtain ⟨part, hpart, hin⟩ := ih hmem
        exact ⟨part, List.mem_cons_of_mem _ hpart, hin⟩
    · obtain ⟨first, parts, hs, hcs⟩ := splitOn_cons_of_ne hd t
      rw [hcs]
      obtain rfl | hmem := List.mem_cons.mp h
      · exact ⟨_, List.mem_cons_self, List.mem_cons_self⟩
      · obtain ⟨part, hpart, hin⟩ := ih hmem
        rw [hs] at hpart
        obtain rfl | hrest := List.mem_cons.mp hpart
        · exact ⟨_, List.mem_cons_self, List.mem_cons_of_mem _ hin⟩
        · exact ⟨part, List.mem_cons_of_mem _ hrest, hin⟩

/-- Joining one more part puts a separator before it. -/
lemma join_cons_cons (s p q : Text) (parts : List Text) :
    join s (p :: q :: parts) = p ++ s ++ join s (q :: parts) := by
  simp [join, List.intersperse]

/-- Parts are joined from two lists as from one. -/
lemma join_append (s : Text) {parts parts' : List Text} (h : parts ≠ []) (h' : parts' ≠ []) :
    join s (parts ++ parts') = join s parts ++ s ++ join s parts' := by
  induction parts with
  | nil => exact absurd rfl h
  | cons p parts ih =>
    cases parts with
    | nil =>
      obtain ⟨q, rest, rfl⟩ := List.exists_cons_of_ne_nil h'
      rw [List.singleton_append, join_cons_cons]
      simp [join]
    | cons q parts =>
      have hrest := ih (by simp)
      rw [List.cons_append] at hrest
      rw [List.cons_append, List.cons_append, join_cons_cons, hrest, join_cons_cons]
      simp only [List.append_assoc]

/-- A text that ends with the last part is joined from parts. -/
lemma join_concat (s : Text) (parts : List Text) (part : Text) :
    ∃ a, join s (parts ++ [part]) = a ++ part := by
  induction parts with
  | nil => exact ⟨[], by simp [join]⟩
  | cons p parts ih =>
    obtain ⟨a, ha⟩ := ih
    cases parts with
    | nil => exact ⟨p ++ s, by simp [join, List.intersperse]⟩
    | cons q parts =>
      rw [List.cons_append] at ha
      refine ⟨p ++ s ++ a, ?_⟩
      rw [List.cons_append, List.cons_append, join_cons_cons, ha]
      simp

/-- Parts that hold no separator come back from the text that they are joined to. -/
theorem splitOn_join {parts : List Text} (hne : parts ≠ []) (h : ∀ p ∈ parts, sep ∉ p) :
    splitOn sep (join [sep] parts) = parts := by
  induction parts with
  | nil => exact absurd rfl hne
  | cons p parts ih =>
    have hp := splitOn_of_notMem (h p List.mem_cons_self)
    cases parts with
    | nil => simpa [join] using hp
    | cons q parts =>
      have hih := ih (by simp) fun r hr => h r (List.mem_cons_of_mem p hr)
      rw [join_cons_cons, List.append_assoc, List.singleton_append, splitOn_append_cons, hp, hih]
      rfl

/-- The characters of a joined text are those of the separator and of the parts. -/
lemma mem_join {s : Text} {parts : List Text} {c : CodePoint} (h : c ∈ join s parts) :
    c ∈ s ∨ ∃ p ∈ parts, c ∈ p := by
  induction parts with
  | nil => simp [join] at h
  | cons p parts ih =>
    cases parts with
    | nil => exact Or.inr ⟨p, List.mem_cons_self, by simpa [join] using h⟩
    | cons q parts =>
      rw [join_cons_cons, List.append_assoc] at h
      rcases List.mem_append.mp h with h | h
      · exact Or.inr ⟨p, List.mem_cons_self, h⟩
      rcases List.mem_append.mp h with h | h
      · exact Or.inl h
      · rcases ih h with h | ⟨r, hr, h⟩
        · exact Or.inl h
        · exact Or.inr ⟨r, List.mem_cons_of_mem p hr, h⟩

/-- A joined text has the characters of its parts. -/
lemma mem_join_of_mem {s : Text} {parts : List Text} {p : Text} (hp : p ∈ parts) {c : CodePoint}
    (hc : c ∈ p) : c ∈ join s parts := by
  induction parts with
  | nil => cases hp
  | cons q parts ih =>
    cases parts with
    | nil =>
      rw [List.mem_singleton.mp hp] at hc
      simpa [join] using hc
    | cons r parts =>
      rw [join_cons_cons]
      rcases List.mem_cons.mp hp with rfl | hp
      · exact List.mem_append_left _ (List.mem_append_left _ hc)
      · exact List.mem_append_right _ (ih hp)

/-! ## Cutting -/

/-- A text without the separator is not cut. -/
lemma cut?_of_notMem {t : Text} (h : sep ∉ t) : cut? sep t = none := by
  induction t with
  | nil => rfl
  | cons c t ih =>
    have hc : c ≠ sep := fun he => h (he ▸ List.mem_cons_self)
    rw [cut?, if_neg hc, ih fun hm => h (List.mem_cons_of_mem c hm)]
    rfl

/-- The first separator is the one behind a text without it. -/
lemma cut?_append_cons {a : Text} (h : sep ∉ a) (b : Text) :
    cut? sep (a ++ sep :: b) = some (a, b) := by
  induction a with
  | nil => rw [List.nil_append, cut?, if_pos rfl]
  | cons c a ih =>
    have hc : c ≠ sep := fun he => h (he ▸ List.mem_cons_self)
    rw [List.cons_append, cut?, if_neg hc, ih fun hm => h (List.mem_cons_of_mem c hm)]
    rfl

/-- Without the separator everything stands before it. -/
lemma cut_of_notMem {t : Text} (h : sep ∉ t) : cut sep t = (t, []) := by
  rw [cut, cut?_of_notMem h]
  rfl

/-- What stands before the first separator, and behind it. -/
lemma cut_append_cons {a : Text} (h : sep ∉ a) (b : Text) : cut sep (a ++ sep :: b) = (a, b) := by
  rw [cut, cut?_append_cons h]
  rfl

/-- What stands before the first separator goes on in a text behind one without it. -/
lemma cut_append_fst {a : Text} (h : sep ∉ a) (b : Text) :
    (cut sep (a ++ b)).1 = a ++ (cut sep b).1 := by
  by_cases hb : sep ∈ b
  · obtain ⟨before, after, rfl, hbefore⟩ := List.eq_append_cons_of_mem hb
    have hnot : sep ∉ a ++ before := by simp [h, hbefore]
    rw [← List.append_assoc, cut_append_cons hnot, cut_append_cons hbefore]
  · have hnot : sep ∉ a ++ b := by simp [h, hb]
    rw [cut_of_notMem hnot, cut_of_notMem hb]

/-! ## Trimming -/

/-- What is to be dropped at the end does not count. -/
lemma dropEndWhile_append {p : CodePoint → Bool} {behind : Text} (h : ∀ c ∈ behind, p c = true)
    (t : Text) : (t ++ behind).dropEndWhile p = t.dropEndWhile p := by
  unfold dropEndWhile
  rw [List.reverse_append,
    List.dropWhile_append_of_pos fun c hc => h c (List.mem_reverse.mp hc)]

/-- A text of which nothing is to be dropped ends with it. -/
lemma dropEndWhile_of_getLast? {p : CodePoint → Bool} {t : Text}
    (h : ∀ c, t.getLast? = some c → p c = false) : t.dropEndWhile p = t := by
  unfold dropEndWhile
  cases hreverse : t.reverse with
  | nil => rw [List.reverse_eq_nil_iff.mp hreverse]; rfl
  | cons c rest =>
    have hlast : p c = false := h c (by rw [← List.head?_reverse, hreverse]; rfl)
    rw [List.dropWhile_cons_of_neg (by simp [hlast]), ← hreverse, List.reverse_reverse]

/-- A text falls into what is kept and what is dropped at its end. -/
lemma exists_dropEndWhile (p : CodePoint → Bool) (t : Text) :
    ∃ behind, t = t.dropEndWhile p ++ behind ∧ (∀ c ∈ behind, p c = true) ∧
      ∀ c, (t.dropEndWhile p).getLast? = some c → p c = false := by
  refine ⟨(t.reverse.takeWhile p).reverse, ?_, ?_, ?_⟩
  · rw [dropEndWhile, ← List.reverse_append, List.takeWhile_append_dropWhile, List.reverse_reverse]
  · intro c hc
    exact List.mem_takeWhile_imp (List.mem_reverse.mp hc)
  · intro c hc
    rw [dropEndWhile, List.getLast?_reverse] at hc
    have hhead := List.head?_dropWhile_not p t.reverse
    rwa [hc] at hhead

end EditorDocs.Text
