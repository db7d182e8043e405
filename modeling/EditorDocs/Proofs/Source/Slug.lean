import EditorDocs.Proofs.Result
import EditorDocs.Proofs.Text.Split
import EditorDocs.Source.Basic

/-!
# The slug of an index URL

An index URL has a scheme, a host and a path of segments, and possibly a query or a fragment
(`Url.Spells`).  Nothing in such a URL is taken for something else: its path ends with its segments,
whatever stands in front (`Url.path_of_spells`).  A scheme that is not recognised counts as part of
the path, which therefore begins with more segments than the URL has.

The slug is the last segment, or the one before it if the last one is a file (`Url.LeadsTo`), so
that it does not matter what the segments begin with (`Sources.slug_eq_ok`).
-/

namespace EditorDocs

/-- So many slashes. -/
def Text.slashes (n : ℕ) : Text := List.replicate n ('/' : CodePoint)

/-- No slashes are nothing. -/
@[simp] lemma Text.slashes_zero : Text.slashes 0 = [] := rfl

/-- Slashes are nothing else. -/
lemma Text.eq_of_mem_slashes {n : ℕ} {c : CodePoint} (h : c ∈ slashes n) : c = ('/' : CodePoint) :=
  List.eq_of_mem_replicate h

namespace Url

/-! ## URLs and their segments -/

/-- A character of a scheme: a letter, or any character that is not ASCII. -/
def IsSchemeLetter (c : CodePoint) : Prop := c.isLetter = true ∨ 0x80 ≤ c.val

/-- A character of a host: a letter, a digit, a point, a hyphen, or a character that is not ASCII
and is no delimiter in disguise. -/
def IsHostChar (c : CodePoint) : Prop :=
  c.isLetter = true ∨ c.isDigit = true ∨ c.val = 0x2E ∨ c.val = 0x2D ∨
    (0x80 ≤ c.val ∧ c.val ∉ Host.disguisedDelimiters)

/-- A character of a segment: no slash, question mark, number sign or semicolon, and no tab or line
end. -/
def IsSegmentChar (c : CodePoint) : Prop :=
  c.val ∉ ([0x2F, 0x3F, 0x23, 0x3B, 0x09, 0x0A, 0x0D] : List ℕ)

instance (c : CodePoint) : Decidable (IsSchemeLetter c) :=
  inferInstanceAs (Decidable (_ ∨ _))

instance (c : CodePoint) : Decidable (IsHostChar c) :=
  inferInstanceAs (Decidable (_ ∨ _))

instance (c : CodePoint) : Decidable (IsSegmentChar c) :=
  inferInstanceAs (Decidable (_ ∉ _))

/-- The path has the segments, each behind slashes, and any number of slashes at its end. -/
inductive IsPath : Text → List Text → Prop where
  /-- There are only slashes. -/
  | slashes (n : ℕ) : IsPath (Text.slashes n) []
  /-- A segment comes before others. -/
  | segment (n : ℕ) {s p : Text} {segs : List Text} (ne_nil : s ≠ [])
      (plain : ∀ c ∈ s, IsSegmentChar c) (rest : IsPath p segs) :
      IsPath (Text.slashes (n + 1) ++ s ++ p) (s :: segs)

/-- The text is a query or a fragment, or there is nothing. -/
def IsTail (t : Text) : Prop :=
  ∀ c, t.head? = some c → c = ('?' : CodePoint) ∨ c = ('#' : CodePoint)

/-- The URL has a scheme, a host, the segments of its path, and possibly a query or a fragment. -/
inductive Spells : Text → List Text → Prop where
  /-- The parts of the URL one after the other. -/
  | parts {scheme host p tail : Text} {segs : List Text}
      (scheme_letters : ∀ c ∈ scheme, IsSchemeLetter c) (host_chars : ∀ c ∈ host, IsHostChar c)
      (is_path : IsPath p segs) (is_tail : IsTail tail) :
      Spells (scheme ++ ("://" : Text) ++ host ++ p ++ tail) segs

/-! ## Segments -/

/-- The segments before and after a slash are those of the texts before and after it. -/
lemma segments_append_cons (a b : Text) :
    segments (a ++ ('/' : CodePoint) :: b) = segments a ++ segments b := by
  rw [segments, Text.splitOn_append_cons, List.filter_append]
  rfl

/-- Slashes at the end of a text part nothing. -/
lemma segments_append_slashes (a : Text) (n : ℕ) :
    segments (a ++ Text.slashes n) = segments a := by
  unfold Text.slashes
  induction n with
  | zero => rw [List.replicate_zero, List.append_nil]
  | succ n ih =>
    rw [List.replicate_succ', ← List.append_assoc, segments_append_cons, ih]
    exact List.append_nil _

/-- A text without a slash is one segment. -/
lemma segments_of_notMem {s : Text} (hne : s ≠ []) (h : ('/' : CodePoint) ∉ s) :
    segments s = [s] := by
  rw [segments, Text.splitOn_of_notMem h, List.filter_cons_of_pos (by simp [hne]), List.filter_nil]

/-- A segment holds no slash. -/
lemma slash_notMem {s : Text} (h : ∀ c ∈ s, IsSegmentChar c) : ('/' : CodePoint) ∉ s :=
  fun hmem => h _ hmem (by decide)

/-- A path has its segments, also behind another text. -/
lemma segments_append_path {p : Text} {segs : List Text} (h : IsPath p segs) (a : Text) :
    segments (a ++ p) = segments a ++ segs := by
  induction h generalizing a with
  | slashes n => rw [segments_append_slashes, List.append_nil]
  | @segment n s p segs hne hplain hrest ih =>
    have hsegment : segments (a ++ Text.slashes (n + 1) ++ s) = segments a ++ [s] := by
      rw [Text.slashes, List.replicate_succ', ← List.append_assoc, List.append_assoc _ _ s,
        List.singleton_append, segments_append_cons]
      rw [← Text.slashes, segments_append_slashes, segments_of_notMem hne (slash_notMem hplain)]
    calc segments (a ++ (Text.slashes (n + 1) ++ s ++ p))
        = segments (a ++ Text.slashes (n + 1) ++ s ++ p) := by simp only [List.append_assoc]
      _ = segments a ++ [s] ++ segs := by rw [ih, hsegment]
      _ = segments a ++ s :: segs := List.append_cons .. |>.symm

/-! ## Reading a URL -/

/-- A scheme of letters is either recognised or left where it is. -/
lemma splitScheme_of_letters {scheme : Text} (h : ∀ c ∈ scheme, IsSchemeLetter c) (rest : Text) :
    splitScheme (scheme ++ (':' : CodePoint) :: rest) = (some scheme, rest) ∨
      splitScheme (scheme ++ (':' : CodePoint) :: rest) =
        (none, scheme ++ (':' : CodePoint) :: rest) := by
  have hcolon : (':' : CodePoint) ∉ scheme := fun hmem => absurd (h _ hmem) (by decide)
  unfold splitScheme
  rw [Text.cut?_append_cons hcolon]
  cases scheme with
  | nil => exact Or.inr rfl
  | cons c letters =>
    simp only
    split
    · exact Or.inl rfl
    · exact Or.inr rfl

/-- No delimiter in disguise is ASCII. -/
lemma notMem_disguised {n : ℕ} (h : n < 0x80) : n ∉ Host.disguisedDelimiters := by
  have hbeyond : ∀ m ∈ Host.disguisedDelimiters, 0x80 ≤ m := by decide
  exact fun hmem => absurd (hbeyond n hmem) (by omega)

/-- A host holds nothing that is refused. -/
lemma fault?_of_isHostChar {host : Text} (h : ∀ c ∈ host, IsHostChar c) :
    Host.fault? host = none := by
  have hopen : ('[' : CodePoint) ∉ host := fun hmem => absurd (h _ hmem) (by decide)
  have hclose : (']' : CodePoint) ∉ host := fun hmem => absurd (h _ hmem) (by decide)
  have hbracket : Host.bracketFault? host = none := by
    simp [Host.bracketFault?, hopen, hclose]
  have hdisguised : (host.any fun c => Host.disguisedDelimiters.contains c.val) = false := by
    rw [List.any_eq_false]
    intro c hc
    rw [List.contains_iff_mem]
    rcases h c hc with hletter | hdigit | hpoint | hhyphen | ⟨-, hplain⟩
    · exact notMem_disguised (by simp [CodePoint.isLetter] at hletter; omega)
    · exact notMem_disguised (by simp [CodePoint.isDigit] at hdigit; omega)
    · exact notMem_disguised (by omega)
    · exact notMem_disguised (by omega)
    · exact hplain
  rw [Host.fault?, hbracket, hdisguised]
  rfl

/-- Characters of a host do not end it. -/
lemma endsHost_of_isHostChar {c : CodePoint} (h : IsHostChar c) : endsHost c = false := by
  unfold IsHostChar CodePoint.isLetter CodePoint.isDigit at h
  unfold endsHost
  simp at h ⊢
  omega

/-- A path begins with a slash, if with anything. -/
lemma head?_of_isPath {p : Text} {segs : List Text} (h : IsPath p segs) {c : CodePoint}
    (hc : p.head? = some c) : c = ('/' : CodePoint) := by
  cases h with
  | slashes n =>
    cases n with
    | zero => cases hc
    | succ n => exact (Option.some.inj hc).symm
  | segment n hne hplain hrest => exact (Option.some.inj hc).symm

/-- Without a slash in front there is no host. -/
lemma splitHost_of_head? {t : Text} (h : t.head? ≠ some ('/' : CodePoint)) :
    splitHost t = ([], t) := by
  unfold splitHost
  split
  · rename_i a b rest
    have ha : a ≠ ('/' : CodePoint) := fun he => h (congrArg some he)
    rw [if_neg fun hboth => ha hboth.1]
  · rfl

/-- The host ends where the path begins, or what comes behind it. -/
lemma splitHost_of_host {host p tail : Text} {segs : List Text} (hhost : ∀ c ∈ host, IsHostChar c)
    (hpath : IsPath p segs) (htail : IsTail tail) :
    splitHost (("//" : Text) ++ (host ++ (p ++ tail))) = (host, p ++ tail) := by
  have hin : ∀ c ∈ host, (!endsHost c) = true := fun c hc => by
    rw [endsHost_of_isHostChar (hhost c hc)]
    rfl
  have hout : ∀ c, (p ++ tail).head? = some c → (!endsHost c) = false := by
    intro c hc
    cases p with
    | nil =>
      rcases htail c hc with rfl | rfl <;> decide
    | cons d p =>
      obtain rfl := head?_of_isPath hpath (show (d :: p).head? = some c from hc)
      decide
  have hrest : (p ++ tail).takeWhile (fun c => !endsHost c) = [] ∧
      (p ++ tail).dropWhile (fun c => !endsHost c) = p ++ tail := by
    cases hcase : p ++ tail with
    | nil => exact ⟨rfl, rfl⟩
    | cons c t =>
      have hc := hout c (by rw [hcase]; rfl)
      exact ⟨List.takeWhile_cons_of_neg (by simp [hc]), List.dropWhile_cons_of_neg (by simp [hc])⟩
  change ((host ++ (p ++ tail)).takeWhile _, (host ++ (p ++ tail)).dropWhile _) = _
  rw [List.takeWhile_append_of_pos hin, List.dropWhile_append_of_pos hin, hrest.1, hrest.2,
    List.append_nil]

/-- The query and the fragment are cut off. -/
lemma cut_tail {a tail : Text} (hnumber : ('#' : CodePoint) ∉ a) (hquestion : ('?' : CodePoint) ∉ a)
    (htail : IsTail tail) : (Text.cut '?' (Text.cut '#' (a ++ tail)).1).1 = a := by
  rw [Text.cut_append_fst hnumber, Text.cut_append_fst hquestion]
  cases tail with
  | nil => exact List.append_nil a
  | cons c t =>
    rcases htail c rfl with rfl | rfl
    · have hne : ('?' : CodePoint) ∉ ([] : Text) := List.not_mem_nil
      have hone : ('#' : CodePoint) ∉ [('?' : CodePoint)] := by decide
      have hcut : (Text.cut '#' (('?' : CodePoint) :: t)).1 =
          ('?' : CodePoint) :: (Text.cut '#' t).1 := Text.cut_append_fst hone t
      rw [hcut, ← List.nil_append (('?' : CodePoint) :: _), Text.cut_append_cons hne,
        List.append_nil]
    · have hne : ('#' : CodePoint) ∉ ([] : Text) := List.not_mem_nil
      rw [← List.nil_append (('#' : CodePoint) :: t), Text.cut_append_cons hne]
      exact List.append_nil a

/-- A text without a semicolon has no parameters. -/
lemma dropParameters_of_notMem {t : Text} (h : (';' : CodePoint) ∉ t) : dropParameters t = t := by
  unfold dropParameters
  have hbegins := List.takeWhile_prefix (l := t.reverse) fun c => c != ('/' : CodePoint)
  obtain ⟨before, hbefore⟩ := List.reverse_suffix.mpr hbegins
  rw [List.reverse_reverse] at hbefore
  generalize (t.reverse.takeWhile fun c => c != ('/' : CodePoint)).reverse = last at hbefore
  subst hbefore
  simp only [List.mem_append, not_or] at h
  simp only
  rw [Text.cut_of_notMem h.2, List.length_append, Nat.add_sub_cancel, List.take_left]

/-- A character of a path is a slash or belongs to a segment. -/
lemma mem_of_isPath {p : Text} {segs : List Text} (h : IsPath p segs) {c : CodePoint} (hc : c ∈ p) :
    c = ('/' : CodePoint) ∨ IsSegmentChar c := by
  induction h with
  | slashes n => exact Or.inl (Text.eq_of_mem_slashes hc)
  | segment n hne hplain hrest ih =>
    rcases List.mem_append.mp hc with hc | hc
    · rcases List.mem_append.mp hc with hc | hc
      · exact Or.inl (Text.eq_of_mem_slashes hc)
      · exact Or.inr (hplain c hc)
    · exact ih hc

/-- Before its query and its fragment a URL has only characters that are read as they stand. -/
lemma isPlain_of_spells {scheme host p : Text} {segs : List Text}
    (hscheme : ∀ c ∈ scheme, IsSchemeLetter c) (hhost : ∀ c ∈ host, IsHostChar c)
    (hpath : IsPath p segs) {c : CodePoint} (hc : c ∈ scheme ++ ("://" : Text) ++ host ++ p) :
    c = ('/' : CodePoint) ∨ IsSegmentChar c := by
  simp only [List.mem_append] at hc
  rcases hc with ((hc | hc) | hc) | hc
  · have hletter := hscheme c hc
    right
    simp [IsSchemeLetter, IsSegmentChar, CodePoint.isLetter] at hletter ⊢
    omega
  · revert c
    decide
  · have hchar := hhost c hc
    right
    simp [IsHostChar, IsSegmentChar, CodePoint.isLetter, CodePoint.isDigit] at hchar ⊢
    omega
  · exact mem_of_isPath hpath hc

/-- Blanks, control characters, tabs and line ends are dropped from the query and the fragment
alone. -/
lemma filter_of_spells {scheme host p tail : Text} {segs : List Text}
    (hscheme : ∀ c ∈ scheme, IsSchemeLetter c) (hhost : ∀ c ∈ host, IsHostChar c)
    (hpath : IsPath p segs) (htail : IsTail tail) :
    ∃ tail', IsTail tail' ∧
      ((scheme ++ ("://" : Text) ++ host ++ p ++ tail).dropWhile fun c => c.val ≤ 0x20).filter
          (fun c => c.val != 0x09 && c.val != 0x0A && c.val != 0x0D) =
        scheme ++ ("://" : Text) ++ host ++ p ++ tail' := by
  refine ⟨tail.filter fun c => c.val != 0x09 && c.val != 0x0A && c.val != 0x0D, ?_, ?_⟩
  · cases tail with
    | nil => exact htail
    | cons c t =>
      rcases htail c rfl with rfl | rfl
      · rw [List.filter_cons_of_pos (by decide)]
        exact fun c hc => Or.inl (Option.some.inj hc).symm
      · rw [List.filter_cons_of_pos (by decide)]
        exact fun c hc => Or.inr (Option.some.inj hc).symm
  · have hdrop : (scheme ++ ("://" : Text) ++ host ++ p ++ tail).dropWhile (fun c => c.val ≤ 0x20) =
        scheme ++ ("://" : Text) ++ host ++ p ++ tail := by
      cases scheme with
      | nil => rfl
      | cons c letters =>
        have hletter := hscheme c List.mem_cons_self
        refine List.dropWhile_cons_of_neg ?_
        simp [IsSchemeLetter, CodePoint.isLetter] at hletter ⊢
        omega
    rw [hdrop, List.filter_append, List.filter_eq_self.mpr]
    intro c hc
    rcases isPlain_of_spells hscheme hhost hpath hc with rfl | hplain
    · decide
    · simp [IsSegmentChar] at hplain ⊢
      omega

/-- Of a text without delimiters everything is left when the fragment, the query and the parameters
behind it are cut off. -/
lemma cut_parameters {a tail : Text} (hplain : ∀ c ∈ a, c = ('/' : CodePoint) ∨ IsSegmentChar c)
    (htail : IsTail tail) (carries : Prop) [Decidable carries] :
    (if carries then dropParameters (Text.cut '?' (Text.cut '#' (a ++ tail)).1).1
      else (Text.cut '?' (Text.cut '#' (a ++ tail)).1).1) = a := by
  have hnumber : ('#' : CodePoint) ∉ a := fun hmem => absurd (hplain _ hmem) (by decide)
  have hquestion : ('?' : CodePoint) ∉ a := fun hmem => absurd (hplain _ hmem) (by decide)
  have hsemicolon : (';' : CodePoint) ∉ a := fun hmem => absurd (hplain _ hmem) (by decide)
  rw [cut_tail hnumber hquestion htail, dropParameters_of_notMem hsemicolon, ite_self]

/-- The path of a URL ends with its segments. -/
theorem path_of_spells {url : Text} {segs : List Text} (h : Spells url segs) :
    ∃ before p, path url = .ok (before ++ p) ∧ IsPath p segs := by
  obtain @⟨scheme, host, p, tail, segs, hscheme, hhost, hpath, htail⟩ := h
  obtain ⟨tail', htail', hfilter⟩ := filter_of_spells hscheme hhost hpath htail
  have hcolon : scheme ++ ("://" : Text) ++ host ++ p ++ tail' =
      scheme ++ (':' : CodePoint) :: (("//" : Text) ++ (host ++ (p ++ tail'))) := by
    simp only [List.append_assoc]
    rfl
  unfold path
  simp only [hfilter]
  have hscheme_split := splitScheme_of_letters hscheme (("//" : Text) ++ (host ++ (p ++ tail')))
  rcases hscheme_split with hsplit | hsplit
  · refine ⟨[], p, ?_, hpath⟩
    rw [hcolon, hsplit]
    simp only [splitHost_of_host hhost hpath htail', fault?_of_isHostChar hhost]
    rw [cut_parameters (fun c => mem_of_isPath hpath) htail']
    rfl
  · -- The scheme is not recognised, so that no host is looked for and everything is the path.
    refine ⟨scheme ++ ("://" : Text) ++ host, p, ?_, hpath⟩
    have hhostless : splitHost (scheme ++ ("://" : Text) ++ host ++ p ++ tail') =
        ([], scheme ++ ("://" : Text) ++ host ++ p ++ tail') := by
      refine splitHost_of_head? ?_
      cases scheme with
      | nil =>
        intro hhead
        have hcolon : (':' : CodePoint) = ('/' : CodePoint) := Option.some.inj hhead
        exact absurd hcolon (by decide)
      | cons c letters =>
        intro hhead
        have hletter := hscheme c List.mem_cons_self
        rw [Option.some.inj hhead] at hletter
        exact absurd hletter (by decide)
    rw [hcolon, hsplit, ← hcolon]
    simp only [hhostless]
    rw [cut_parameters (fun c => isPlain_of_spells hscheme hhost hpath) htail']
    rfl

/-- The path of a URL has its segments last. -/
lemma segments_of_spells {url : Text} {segs : List Text} (h : Spells url segs) :
    ∃ path others, Url.path url = .ok path ∧ segments path = others ++ segs := by
  obtain ⟨before, p, hpath, hsegs⟩ := path_of_spells h
  exact ⟨before ++ p, segments before, hpath, segments_append_path hsegs before⟩

/-! ## Slugs -/

/-- The URL leads to the documents of a slug: this is its last segment, or the one before a file. -/
inductive LeadsTo (slug : Text) : Text → Prop where
  /-- The URL is that of a file. -/
  | file {before : List Text} {name url : Text} (spells : Spells url (before ++ [slug, name]))
      (is_file : name.endsWith ".json" = true) : LeadsTo slug url
  /-- The URL is that of a folder. -/
  | folder {before : List Text} {url : Text} (spells : Spells url (before ++ [slug]))
      (no_file : slug.endsWith ".json" = false) : LeadsTo slug url

end Url

namespace Sources

/-- The slug of a language is the one that the URL of its index leads to. -/
theorem slug_eq_ok {s : Sources} {language url slug : Text} (hurl : s.indexUrl language = .ok url)
    (h : Url.LeadsTo slug url) : s.slug language = .ok slug := by
  unfold Sources.slug
  rw [Result.bind_of_ok hurl]
  cases h with
  | @file before name _ hspells hfile =>
    obtain ⟨path, others, hpath, hsegments⟩ := Url.segments_of_spells hspells
    have hlast : Url.segments path = others ++ before ++ [slug] ++ [name] := by simp [hsegments]
    rw [Result.bind_of_ok hpath]
    simp only [hlast, List.getLast?_concat, hfile, if_true, List.dropLast_concat]
    rfl
  | @folder before _ hspells hfolder =>
    obtain ⟨path, others, hpath, hsegments⟩ := Url.segments_of_spells hspells
    have hlast : Url.segments path = others ++ before ++ [slug] := by simp [hsegments]
    rw [Result.bind_of_ok hpath]
    simp only [hlast, List.getLast?_concat, hfolder, Bool.false_eq_true, if_false]
    rfl

end Sources

end EditorDocs
