import EditorDocs.Proofs.Log.File
import EditorDocs.Proofs.Text.Split
import Mathlib.Algebra.BigOperators.Group.List.Basic

/-!
# The console beside a file

Without a file a record is made ready for the console before it is sent there; with one, it is made ready
for the file and for the console each on its own.  For what the components of the library record both ways
give the same text, but that a log with a file takes the values of two names for its own: what the console
shows beside a file is what it shows without one of the records less these values
(`Log.consoleText_filed`).

Each value that is shown brings an equals sign with it, so to leave one out makes a difference
(`Log.equalsSigns_fieldsText_kept`).  The console shows the same with and without a file exactly if no
record that it shows has a value of such a name (`Log.shown_beside_file`).

All this is so as far as nothing goes wrong with the records (`Log.Emission.IsRendered`).  Without a file a
record is made ready whatever its severity, and is refused if one of its values cannot be rendered or if
its stack or exception is no text; beside a file this happens only where the record is sent, and may be
shown as a complaint.
-/

namespace EditorDocs

open FileSystem (State Location)

/-! ## Equals signs -/

namespace Text

/-- The number of equals signs in the text. -/
def equalsSigns (t : Text) : Nat := t.count ('=' : CodePoint)

@[simp] lemma equalsSigns_append (a b : Text) :
    (a ++ b).equalsSigns = a.equalsSigns + b.equalsSigns :=
  List.count_append

/-- No equals sign is lost with blanks at the end. -/
lemma equalsSigns_dropEndWhile (t : Text) :
    (t.dropEndWhile (· = (' ' : CodePoint))).equalsSigns = t.equalsSigns := by
  obtain ⟨behind, ht, hblank, -⟩ := exists_dropEndWhile (· = (' ' : CodePoint)) t
  have hnone : behind.equalsSigns = 0 := by
    refine List.count_eq_zero.mpr fun hmem => ?_
    have hsame := hblank _ hmem
    simp only [decide_eq_true_eq] at hsame
    exact absurd hsame (by decide)
  conv_rhs => rw [ht]
  rw [equalsSigns_append, hnone, Nat.add_zero]

/-- Texts that are joined by blanks have their equals signs together. -/
lemma equalsSigns_join (parts : List Text) :
    (join " " parts).equalsSigns = (parts.map equalsSigns).sum := by
  induction parts with
  | nil => rfl
  | cons a rest ih =>
    cases rest with
    | nil => simp [join]
    | cons b rest =>
      have hblank : equalsSigns " " = 0 := by decide
      have hjoin : join " " (a :: b :: rest) = a ++ (" " ++ join " " (b :: rest)) := rfl
      rw [hjoin, equalsSigns_append, equalsSigns_append, hblank, ih, Nat.zero_add, List.map_cons (a := a),
        List.sum_cons]

end Text

/-! ## Records without own names -/

namespace Log

/-- The name is not one of those that a log with a file takes for its own. -/
def isKept (name : Text) : Bool := !ownNames.contains name

/-- The values that a log with a file does not take for its own. -/
def kept (fields : Context) : Context := fields.filter fun m => isKept m.1

/-- Values that are kept are bound to those of the others that are. -/
lemma kept_bind {more : Context} (h : ∀ m ∈ more, isKept m.1 = true) (bound : Context) :
    kept (bound.bind more) = (kept bound).bind more :=
  Table.filter_foldl_put h bound

namespace Emission

/-- The record without the values that a log with a file takes for its own. -/
def withoutOwn (e : Emission) : Emission :=
  { e with record := { e.record with context := kept e.record.context } }

/-- No value of the record is one that a log with a file takes for its own. -/
def IsFree (e : Emission) : Prop := ∀ m ∈ e.record.context, m.1 ∉ ownNames

/-- The stack and the exception that come with the record are texts, if there are any. -/
structure IsShapely (e : Emission) : Prop where
  /-- The stack is a text. -/
  stack : isBlock e.record.context "stack" = true
  /-- The exception is a text; one that is shown in full takes the place of one that is given. -/
  exception : e.record.trace = none → isBlock e.record.context "exception" = true

/-- A record without such values is left as it is. -/
lemma withoutOwn_of_isFree {e : Emission} (h : e.IsFree) : e.withoutOwn = e := by
  have hcontext : kept e.record.context = e.record.context := by
    refine List.filter_eq_self.mpr fun m hm => ?_
    simp [isKept, h m hm]
  rw [withoutOwn, hcontext]

/-- The failure that the record shows in full, under its name. -/
def shownFailure (e : Emission) : Context :=
  match e.record.trace with
  | some t => [("exception", .string t)]
  | none => []

/-- The values of the record that do not tell how to log it. -/
def given (e : Emission) : Context := e.record.context.filter fun m => !directiveNames.contains m.1

/-- What is said about a record are its values, the facts, and a failure that is shown in full. -/
lemma fields_eq (e : Emission) (time : Text) :
    e.fields time = (e.given.bind (facts e time)).bind e.shownFailure :=
  rfl

/-- No fact of a record is one of these values. -/
lemma isKept_facts (e : Emission) (time : Text) : ∀ m ∈ facts e time, isKept m.1 = true := by
  have hnames : ∀ name ∈ factNames, isKept name = true := by decide
  exact fun m hm => hnames m.1 (List.mem_map_of_mem (f := Prod.fst) hm)

/-- Nor is a failure that is shown in full. -/
lemma isKept_shownFailure (e : Emission) : ∀ m ∈ e.shownFailure, isKept m.1 = true := by
  unfold shownFailure
  cases e.record.trace with
  | none => exact List.forall_mem_nil _
  | some t =>
    have hname : isKept "exception" = true := by decide
    exact List.forall_mem_singleton.mpr hname

/-- What is said about a record without such values is what is said about the record, less them. -/
lemma fields_withoutOwn (e : Emission) (time : Text) :
    e.withoutOwn.fields time = kept (e.fields time) := by
  have hgiven : e.withoutOwn.given = kept e.given := by
    simp only [given, withoutOwn, kept, List.filter_filter, Bool.and_comm]
  rw [fields_eq, fields_eq, kept_bind e.isKept_shownFailure, kept_bind (isKept_facts e time), hgiven]
  rfl

/-- Under a name stands a failure that is shown in full, or else a fact, or else a value. -/
lemma get?_fields (e : Emission) (time name : Text) : (e.fields time).get? name =
    (e.shownFailure.get? name).or (((facts e time).get? name).or (e.given.get? name)) := by
  have hfacts : (facts e time).keys.Nodup := (by decide : factNames.Nodup)
  have hfailure : e.shownFailure.keys.Nodup := by
    unfold shownFailure
    cases e.record.trace <;> simp [Table.keys]
  rw [fields_eq, Context.bind, Context.bind, Table.get?_foldl_put hfailure, Table.get?_foldl_put hfacts]

/-- All that is said about a record is kept exactly if none of its values is such a one. -/
lemma forall_isKept_fields_iff (e : Emission) (time : Text) :
    (∀ m ∈ e.fields time, isKept m.1 = true) ↔ e.IsFree := by
  have hown : ∀ name, isKept name = true ↔ name ∉ ownNames := by simp [isKept]
  constructor
  · intro h m hm hname
    -- the name is still there, perhaps with another value
    have hgiven : m ∈ e.given := by
      refine List.mem_filter.mpr ⟨hm, ?_⟩
      have hapart : ∀ name ∈ ownNames, (!directiveNames.contains name) = true := by decide
      exact hapart m.1 hname
    have hhas : (e.given.get? m.1).isSome = true :=
      Table.has_iff_mem_keys.mpr (List.mem_map_of_mem (f := Prod.fst) hgiven)
    obtain ⟨v, hv⟩ : ∃ v, (e.fields time).get? m.1 = some v := by
      refine Option.isSome_iff_exists.mp ?_
      rw [get?_fields, Option.isSome_or, Option.isSome_or, hhas, Bool.or_true, Bool.or_true]
    exact (hown m.1).mp (h (m.1, v) (Table.mem_of_get? hv)) hname
  · intro h m hm
    rcases Table.mem_of_mem_foldl_put hm with hm | hfailure
    · rcases Table.mem_of_mem_foldl_put hm with hgiven | hfact
      · exact (hown m.1).mpr (h m (List.mem_of_mem_filter hgiven))
      · exact e.isKept_facts time m hfact
    · exact e.isKept_shownFailure m hfailure

/-- The block of a name is that of the value, unless it is that of a failure. -/
lemma isBlock_fields {name : Text} (hname : name ∈ blockNames) (e : Emission) (time : Text) :
    isBlock (e.fields time) name =
      (isBlock e.record.context name || (e.shownFailure.get? name).isSome) := by
  have hfact : (facts e time).get? name = none := by
    by_contra hsome
    have hmem : name ∈ factNames :=
      Table.has_iff_mem_keys.mp (Option.isSome_iff_ne_none.mpr hsome)
    have hapart : ∀ name ∈ blockNames, name ∉ factNames := by decide
    exact hapart name hname hmem
  have hgiven : e.given.get? name = e.record.context.get? name := by
    have hapart : ∀ name ∈ blockNames, (!directiveNames.contains name) = true := by decide
    exact Table.get?_filter (p := fun name => !directiveNames.contains name) (hapart name hname) _
  have hfailure : ∀ v, e.shownFailure.get? name = some v → ∃ t, v = .string t := by
    intro v hv
    have hmem := Table.mem_of_get? hv
    unfold shownFailure at hmem
    cases htrace : e.record.trace with
    | none =>
      rw [htrace] at hmem
      cases hmem
    | some t =>
      rw [htrace] at hmem
      exact ⟨t, (Prod.mk.inj (List.mem_singleton.mp hmem)).2⟩
  unfold isBlock
  rw [get?_fields, hfact, hgiven, Option.none_or]
  cases hv : e.shownFailure.get? name with
  | none => simp
  | some v =>
    obtain ⟨t, rfl⟩ := hfailure v hv
    simp

/-- The stack and the exception of a record are texts exactly if they are so among all that is said. -/
lemma forall_isBlock_fields_iff (e : Emission) (time : Text) :
    (∀ name ∈ blockNames, isBlock (e.fields time) name = true) ↔ e.IsShapely := by
  have hstack : e.shownFailure.get? ("stack" : Text) = none := by
    unfold shownFailure
    cases e.record.trace with
    | none => rfl
    | some t => rfl
  have hexception : (e.shownFailure.get? ("exception" : Text)).isSome = e.record.trace.isSome := by
    unfold shownFailure
    cases e.record.trace with
    | none => rfl
    | some t => rfl
  have hnames : ∀ q : Text → Prop, (∀ name ∈ blockNames, q name) ↔ q "stack" ∧ q "exception" := by
    simp [blockNames]
  rw [hnames, isBlock_fields (by decide), isBlock_fields (by decide), hstack, hexception]
  simp only [Option.isSome_none, Bool.or_false, Bool.or_eq_true, Option.isSome_iff_ne_none]
  constructor
  · rintro ⟨hs, hx⟩
    exact ⟨hs, fun hnone => hx.resolve_right (by simp [hnone])⟩
  · rintro ⟨hs, hx⟩
    exact ⟨hs, or_iff_not_imp_right.mpr fun hnone => hx (by simpa using hnone)⟩

/-- What a log with a file takes for its own has no part in this. -/
lemma IsShapely.withoutOwn {e : Emission} (h : e.IsShapely) : e.withoutOwn.IsShapely := by
  have hsame : ∀ name ∈ blockNames, isBlock (kept e.record.context) name =
      isBlock e.record.context name := by
    intro name hname
    have hkept : ∀ name ∈ blockNames, isKept name = true := by decide
    unfold isBlock kept
    rw [Table.get?_filter (hkept name hname)]
  exact ⟨(hsame "stack" (by decide)).trans h.stack,
    fun hnone => (hsame "exception" (by decide)).trans (h.exception hnone)⟩

end Emission

/-! ## What a value leaves on the console -/

/-- A name with its value has an equals sign between them. -/
lemma equalsSigns_shownPair_pos (m : Text × Json.Value) : 0 < (shownPair m).equalsSigns := by
  have hsign : Text.equalsSigns "=" = 1 := by decide
  rw [shownPair, Text.equalsSigns_append, Text.equalsSigns_append, hsign]
  omega

/-- A sum over some is no greater than the sum over all, and as great exactly if these are all, as far as
what is added is positive. -/
lemma sum_filter_le {α : Type} {f : α → Nat} (hf : ∀ x, 0 < f x) (p : α → Bool) (xs : List α) :
    ((xs.filter p).map f).sum ≤ (xs.map f).sum ∧
      (((xs.filter p).map f).sum = (xs.map f).sum ↔ ∀ x ∈ xs, p x = true) := by
  induction xs with
  | nil => simp
  | cons x xs ih =>
    obtain ⟨hle, hiff⟩ := ih
    by_cases hx : p x = true
    · rw [List.filter_cons_of_pos hx, List.forall_mem_cons, ← hiff]
      simp only [List.map_cons, List.sum_cons, hx, true_and]
      omega
    · have hpos := hf x
      rw [List.filter_cons_of_neg hx, List.forall_mem_cons, List.map_cons, List.sum_cons]
      exact ⟨by omega, iff_of_false (by omega) fun h => hx h.1⟩

/-- The columns that come before all others, as they are shown. -/
def leadingTexts (fields : Context) : List Text :=
  leadingColumns.filterMap fun (name, show?) => (fields.get? name).map show?

/-- A line has the equals signs of its first columns and of the other values. -/
lemma equalsSigns_fieldsLine (fields : Context) : (fieldsLine fields).equalsSigns =
    ((leadingTexts fields).map Text.equalsSigns).sum +
      ((fields.filter isOrdinary).map fun m => (shownPair m).equalsSigns).sum := by
  have hsorted := ((sortByName_perm (fields.filter isOrdinary)).map
    fun m => (shownPair m).equalsSigns).sum_eq
  unfold fieldsLine
  simp only
  rw [Text.equalsSigns_dropEndWhile, Text.equalsSigns_join, List.map_append, List.sum_append,
    List.map_map, ← hsorted]
  rfl

/-- What a log with a file takes for its own has no place among the first columns. -/
lemma get?_kept_of_leading {column : Text × (Json.Value → Text)} (h : column ∈ leadingColumns)
    (fields : Context) : (kept fields).get? column.1 = fields.get? column.1 := by
  have hnames : ∀ name ∈ leadingColumns.map Prod.fst, isKept name = true := by decide
  exact Table.get?_filter (p := isKept) (hnames column.1 (List.mem_map_of_mem h)) fields

/-- So these are the same without it. -/
lemma leadingTexts_kept (fields : Context) : leadingTexts (kept fields) = leadingTexts fields := by
  refine List.filterMap_congr fun column hcolumn => ?_
  simp only
  rw [get?_kept_of_leading hcolumn]

/-- The console renders no more values of a record without its own ones. -/
lemma consoleValues_kept_subset (fields : Context) :
    consoleValues (kept fields) ⊆ consoleValues fields := by
  have hcolumns : leadingColumns.filterMap (fun c => (kept fields).get? c.1) =
      leadingColumns.filterMap fun c => fields.get? c.1 :=
    List.filterMap_congr fun column hcolumn => get?_kept_of_leading hcolumn fields
  unfold consoleValues
  rw [hcolumns]
  refine List.append_subset.mpr ⟨List.subset_append_left _ _, ?_⟩
  refine List.Subset.trans (List.map_subset _ ?_) (List.subset_append_right _ _)
  intro m hm
  have hmem := (sortByName_perm _).subset hm
  obtain ⟨hkept, hplace⟩ := List.mem_filter.mp hmem
  exact (sortByName_perm _).symm.subset
    (List.mem_filter.mpr ⟨List.mem_of_mem_filter hkept, hplace⟩)

/-- Nor has it among the texts behind the line. -/
lemma block?_kept {name : Text} (hname : name ∈ blockNames) (fields : Context) :
    block? (kept fields) name = block? fields name := by
  have hkept : ∀ name ∈ blockNames, isKept name = true := by decide
  unfold block? kept
  rw [Table.get?_filter (hkept name hname)]

/-- Values that are left out are missed, and so is an equals sign with each. -/
theorem equalsSigns_fieldsText_kept (fields : Context) :
    (fieldsText (kept fields)).equalsSigns ≤ (fieldsText fields).equalsSigns ∧
      ((fieldsText (kept fields)).equalsSigns = (fieldsText fields).equalsSigns ↔
        ∀ m ∈ fields, isKept m.1 = true) := by
  have hline : (fieldsLine (kept fields)).equalsSigns =
      ((leadingTexts fields).map Text.equalsSigns).sum +
        (((fields.filter isOrdinary).filter fun m => isKept m.1).map
          fun m => (shownPair m).equalsSigns).sum := by
    rw [equalsSigns_fieldsLine, leadingTexts_kept, kept, List.filter_filter, List.filter_filter]
    simp only [Bool.and_comm]
  obtain ⟨hle, hiff⟩ := sum_filter_le equalsSigns_shownPair_pos (fun m => isKept m.1)
    (fields.filter isOrdinary)
  -- values that have a place of their own are kept
  have hordinary : (∀ m ∈ fields.filter isOrdinary, isKept m.1 = true) ↔
      ∀ m ∈ fields, isKept m.1 = true := by
    refine ⟨fun h m hm => ?_, fun h m hm => h m (List.mem_of_mem_filter hm)⟩
    by_cases hplace : isOrdinary m = true
    · exact h m (List.mem_filter.mpr ⟨hm, hplace⟩)
    · have hnames : ∀ name ∈ leadingColumns.map Prod.fst ++ blockNames, isKept name = true := by decide
      have hthere : (leadingColumns.map Prod.fst ++ blockNames).contains m.1 = true := by
        simpa only [isOrdinary, Bool.not_eq_true, Bool.not_eq_false'] using hplace
      exact hnames m.1 (List.contains_iff_mem.mp hthere)
  rw [← hordinary, ← hiff]
  unfold fieldsText
  simp only [Text.equalsSigns_append, block?_kept (by decide : ("stack" : Text) ∈ blockNames),
    block?_kept (by decide : ("exception" : Text) ∈ blockNames)]
  rw [hline, equalsSigns_fieldsLine fields]
  omega

/-! ## Records with which nothing goes wrong -/

namespace Emission

/-- Nothing goes wrong with a record of a component, neither without a file nor beside one. -/
structure IsRendered (r : Rendering) (level : Level) (least : Severity) (time : Text) (e : Emission) :
    Prop where
  /-- A component of the library made the record. -/
  native : e.foreign = false
  /-- The stack and the exception are texts. -/
  shapely : e.IsShapely
  /-- Without a file its values can be rendered before it is decided whether the record is shown. -/
  ready : ∀ v ∈ consoleValues (e.fields time), valueFault? r.ready v = none
  /-- If it reaches the level of the file, its line can be written. -/
  filed : reaches (threshold level) e.record.severity = true →
    lineFault? r.filed (kept (e.fields time)) = none
  /-- If it reaches the threshold of the console, its values can be rendered beside a file, too. -/
  shown : reaches least e.record.severity = true →
    ∀ v ∈ consoleValues (kept (e.fields time)), valueFault? r.shown v = none

/-- What the console shows of all that is said about a record, if that reaches its threshold. -/
def text (least : Severity) (time : Text) (e : Emission) : Text :=
  if reaches least e.record.severity then fieldsText (e.fields time) ++ "\n" else []

/-- Without its own values a record has no more equals signs on the console, and as many exactly if it is
not shown or has no such value. -/
lemma equalsSigns_text_withoutOwn (least : Severity) (time : Text) (e : Emission) :
    (e.withoutOwn.text least time).equalsSigns ≤ (e.text least time).equalsSigns ∧
      ((e.withoutOwn.text least time).equalsSigns = (e.text least time).equalsSigns →
        reaches least e.record.severity = true → e.IsFree) := by
  obtain ⟨hle, hiff⟩ := equalsSigns_fieldsText_kept (e.fields time)
  have hseverity : e.withoutOwn.record.severity = e.record.severity := rfl
  unfold text
  rw [hseverity, e.fields_withoutOwn]
  by_cases hshown : reaches least e.record.severity = true
  · rw [if_pos hshown, if_pos hshown, Text.equalsSigns_append, Text.equalsSigns_append]
    refine ⟨Nat.add_le_add_right hle _, fun hsame _ => ?_⟩
    exact (e.forall_isKept_fields_iff time).mp (hiff.mp (Nat.add_right_cancel hsame))
  · rw [if_neg hshown, if_neg hshown]
    exact ⟨le_rfl, fun _ h => absurd h hshown⟩

end Emission

/-! ## Beside a file -/

section Record

variable {j : Journal} {least : Severity} {e : Emission}

/-- Without a file a record of a component is taken exactly if all of it can be rendered. -/
lemma failure_unfiled_eq_none_iff (hfile : j.pipeline.file = none) (he : e.foreign = false) :
    (j.fate e).failure = none ↔ consoleFault? j.rendering.ready (e.fields j.time) = none := by
  have hfields : j.pipeline.fields j.time e = e.fields j.time := by
    simp [Pipeline.fields, hfile]
  rw [Journal.fate, Pipeline.fate_alone _ _ _ hfile, Pipeline.fateAlone, he, hfields]
  cases consoleFault? j.rendering.ready (e.fields j.time) <;> simp

/-- Then the console shows all that is said about it. -/
lemma shown_unfiled (hfile : j.pipeline.file = none) (hconsole : j.pipeline.console = some least)
    (he : e.foreign = false) (htaken : (j.fate e).failure = none) :
    (j.fate e).shown = e.text least j.time := by
  have hfields : j.pipeline.fields j.time e = e.fields j.time := by
    simp [Pipeline.fields, hfile]
  have hshown : j.pipeline.isShown e = reaches least e.record.severity := by
    rw [Pipeline.isShown, hconsole]
  rw [Journal.shown_fate_alone hfile, htaken, hshown, Journal.bareText, he, hfields, Emission.text]
  simp

/-- Beside a file a record with which nothing goes wrong is taken, and the console shows of it what it
shows without a file of the record less the values that the log takes for its own. -/
theorem fate_filed_of_faultless (hfile : j.pipeline.file ≠ none)
    (hconsole : j.pipeline.console = some least) (hline : j.filedFault? e = none)
    (hshown : j.shownFault? e = none) :
    (j.fate e).failure = none ∧ (j.fate e).shown = e.withoutOwn.text least j.time := by
  have hfields : j.pipeline.fields j.time e = e.withoutOwn.fields j.time := by
    rw [e.fields_withoutOwn, Pipeline.fields, if_pos (by simpa [Option.isSome_iff_ne_none] using hfile)]
    rfl
  have hreaches : j.pipeline.isShown e = reaches least e.record.severity := by
    rw [Pipeline.isShown, hconsole]
  obtain ⟨htaken, htext⟩ := Journal.fate_of_faultless hfile hline hshown
  refine ⟨htaken, ?_⟩
  rw [htext, hreaches, hfields]
  rfl

end Record

/-- If each thing has no more equals signs in one text than in another, all texts together have no more,
and as many only if each thing has as many. -/
lemma equalsSigns_flatMap_le {α : Type} {f g : α → Text} {xs : List α}
    (h : ∀ x ∈ xs, (f x).equalsSigns ≤ (g x).equalsSigns) :
    Text.equalsSigns (xs.flatMap f) ≤ Text.equalsSigns (xs.flatMap g) ∧
      (Text.equalsSigns (xs.flatMap f) = Text.equalsSigns (xs.flatMap g) →
        ∀ x ∈ xs, (f x).equalsSigns = (g x).equalsSigns) := by
  induction xs with
  | nil => simp
  | cons x xs ih =>
    obtain ⟨hx, hxs⟩ := List.forall_mem_cons.mp h
    obtain ⟨hle, hsame⟩ := ih hxs
    rw [List.flatMap_cons, List.flatMap_cons, Text.equalsSigns_append, Text.equalsSigns_append]
    refine ⟨by omega, fun hall => List.forall_mem_cons.mpr ⟨by omega, hsame (by omega)⟩⟩

/-- Two logs show the same severities and render and tell the time alike, but only one has a file. -/
structure Beside (level : Level) (least : Severity) (j j' : Journal) : Prop where
  /-- The one has a file of this level. -/
  filed : j.pipeline = ⟨some level, some least⟩
  /-- The other one has none. -/
  alone : j'.pipeline = ⟨none, some least⟩
  /-- They render alike. -/
  rendering : j'.rendering = j.rendering
  /-- They tell the time alike. -/
  time : j'.time = j.time

namespace Beside

variable {level : Level} {least : Severity} {j j' : Journal} {e : Emission}

/-- Nothing goes wrong with a record of a component exactly if it is taken without a file, and fails neither
in a file nor on the console beside it. -/
lemma isRendered_iff (h : Beside level least j j') (he : e.foreign = false) :
    e.IsRendered j.rendering level least j.time ↔
      (j'.fate e).failure = none ∧ j.filedFault? e = none ∧ j.shownFault? e = none := by
  have hfields : j.pipeline.fields j.time e = kept (e.fields j.time) := by
    rw [h.filed]
    rfl
  have hfiled : j.filedFault? e = none ↔ (reaches (threshold level) e.record.severity = true →
      lineFault? j.rendering.filed (kept (e.fields j.time)) = none) := by
    have hreaches : j.pipeline.isFiled e = reaches (threshold level) e.record.severity := by
      rw [h.filed]
      rfl
    rw [Journal.filedFault?, hreaches, hfields]
    split <;> simp_all
  have hshown : j.shownFault? e = none ↔ (reaches least e.record.severity = true →
      consoleFault? j.rendering.shown (kept (e.fields j.time)) = none) := by
    have hreaches : j.pipeline.isShown e = reaches least e.record.severity := by
      rw [h.filed]
      rfl
    rw [Journal.shownFault?, hreaches, hfields]
    split <;> simp_all
  rw [failure_unfiled_eq_none_iff (by rw [h.alone]) he, h.rendering, h.time, hfiled, hshown,
    consoleFault?_eq_none_iff, e.forall_isBlock_fields_iff]
  constructor
  · intro hall
    -- less its own values, the record is as well shaped as before
    have hblocks := (e.withoutOwn.forall_isBlock_fields_iff j.time).mpr hall.shapely.withoutOwn
    rw [e.fields_withoutOwn] at hblocks
    exact ⟨⟨hall.ready, hall.shapely⟩, hall.filed,
      fun hreaches => consoleFault?_eq_none_iff.mpr ⟨hall.shown hreaches, hblocks⟩⟩
  · rintro ⟨⟨hready, hshapely⟩, hline, hbeside⟩
    exact ⟨he, hshapely, hready, hline,
      fun hreaches => (consoleFault?_eq_none_iff.mp (hbeside hreaches)).1⟩

/-- Less its own values such a record is taken without a file, too. -/
lemma failure_withoutOwn (h : Beside level least j j')
    (he : e.IsRendered j.rendering level least j.time) : (j'.fate e.withoutOwn).failure = none := by
  refine (failure_unfiled_eq_none_iff (e := e.withoutOwn) (by rw [h.alone]) he.native).mpr ?_
  rw [h.rendering, h.time]
  refine consoleFault?_eq_none_iff.mpr ⟨fun v hv => he.ready v ?_,
    (e.withoutOwn.forall_isBlock_fields_iff j.time).mpr he.shapely.withoutOwn⟩
  rw [e.fields_withoutOwn] at hv
  exact consoleValues_kept_subset _ hv

/-- What both consoles show of a record with which nothing goes wrong. -/
theorem fate_eq (h : Beside level least j j') (he : e.IsRendered j.rendering level least j.time) :
    ((j.fate e).failure = none ∧ (j.fate e).shown = e.withoutOwn.text least j.time) ∧
      ((j'.fate e).failure = none ∧ (j'.fate e).shown = e.text least j.time) ∧
      (j'.fate e.withoutOwn).shown = e.withoutOwn.text least j.time := by
  have hfile : j'.pipeline.file = none := by rw [h.alone]
  have hconsole : j'.pipeline.console = some least := by rw [h.alone]
  obtain ⟨htaken, hline, hbeside⟩ := (h.isRendered_iff he.native).mp he
  rw [← h.time]
  refine ⟨?_, ⟨htaken, shown_unfiled hfile hconsole he.native htaken⟩,
    shown_unfiled (e := e.withoutOwn) hfile hconsole he.native (h.failure_withoutOwn he)⟩
  rw [h.time]
  exact fate_filed_of_faultless (by rw [h.filed]; simp) (by rw [h.filed]) hline hbeside

/-- Of records with which nothing goes wrong the console shows beside the file what it shows without it of
the records less their own values.  So it shows the same exactly if no record that is shown has any. -/
theorem shown_writeAll_iff (h : Beside level least j j') (hsame : j'.shown = j.shown)
    (files files' : State) {es : List Emission}
    (hes : ∀ e ∈ es, e.IsRendered j.rendering level least j.time) :
    (j.writeAll files es).1.shown = (j'.writeAll files' (es.map Emission.withoutOwn)).1.shown ∧
      ((j.writeAll files es).1.shown = (j'.writeAll files' es).1.shown ↔
        ∀ e ∈ es, reaches least e.record.severity = true → e.IsFree) := by
  have hbeside : (j.writeAll files es).1.shown =
      j.shown ++ es.flatMap fun e => e.withoutOwn.text least j.time := by
    rw [j.shown_writeAll, List.flatMap_congr fun e he => (h.fate_eq (hes e he)).1.2]
  have halone : (j'.writeAll files' es).1.shown =
      j.shown ++ es.flatMap (Emission.text least j.time) := by
    rw [j'.shown_writeAll, hsame, List.flatMap_congr fun e he => (h.fate_eq (hes e he)).2.1.2]
  have hless : (j'.writeAll files' (es.map Emission.withoutOwn)).1.shown =
      j.shown ++ es.flatMap fun e => e.withoutOwn.text least j.time := by
    rw [j'.shown_writeAll, hsame, List.flatMap_map,
      List.flatMap_congr fun e he => (h.fate_eq (hes e he)).2.2]
  refine ⟨hbeside.trans hless.symm, ?_⟩
  rw [hbeside, halone, List.append_cancel_left_eq]
  constructor
  · intro hall e he
    have hsigns := (equalsSigns_flatMap_le fun e _ =>
      (e.equalsSigns_text_withoutOwn least j.time).1).2 (congrArg Text.equalsSigns hall)
    exact (e.equalsSigns_text_withoutOwn least j.time).2 (hsigns e he)
  · intro hfree
    refine List.flatMap_congr fun e he => ?_
    by_cases hshown : reaches least e.record.severity = true
    · rw [Emission.withoutOwn_of_isFree (hfree e he hshown)]
    · have hhidden : reaches least e.withoutOwn.record.severity ≠ true := hshown
      rw [Emission.text, Emission.text, if_neg hshown, if_neg hhidden]

end Beside

/-- A log is opened with a file that can be opened, and without one.  What it takes for nothing to go wrong
with a record of a component is that it is not refused without the file, and fails neither in the file nor
on the console beside it.  Of records with which nothing goes wrong, whatever the level of the file, the
verbosity and the values, the console shows with the file what it shows without it of the records less the
values of the names that a log with a file takes for its own.  So it shows the same exactly if no record
that reaches its threshold has such a value. -/
theorem shown_beside_file {s s' : LogSettings} {path : Path} (hfile : s.file = some path)
    (hnone : s'.file = none) (hverbose : s'.verbose = s.verbose) {w w' : World} {loc : Location}
    (hopen : (openFile path).exec w = (.ok loc, w')) (logger time : Text) :
    let least := consoleThreshold s.verbose
    let IsRendered := Emission.IsRendered w.host.rendering s.level least time
    ∃ j j', (openJournal s false logger time).exec w = (.ok j, w') ∧
      (openJournal s' false logger time).exec w = (.ok j', w) ∧
      (∀ e, e.foreign = false → (IsRendered e ↔ (j'.fate e).failure = none ∧
        j.filedFault? e = none ∧ j.shownFault? e = none)) ∧
      ∀ es : List Emission, (∀ e ∈ es, IsRendered e) →
        (∀ e ∈ es, (j.fate e).failure = none ∧ (j'.fate e).failure = none) ∧
        (j.writeAll w'.files es).1.shown =
          (j'.writeAll w.files (es.map Emission.withoutOwn)).1.shown ∧
        ((j.writeAll w'.files es).1.shown = (j'.writeAll w.files es).1.shown ↔
          ∀ e ∈ es, reaches least e.record.severity = true → e.IsFree) := by
  intro least IsRendered
  have hbeside : Beside s.level least
      ⟨logger, ⟨some s.level, some least⟩, w.host.rendering, some loc, time, []⟩
      ⟨logger, ⟨none, some least⟩, w.host.rendering, none, time, []⟩ := ⟨rfl, rfl, rfl, rfl⟩
  have halone : Opened s' false logger time w
      ⟨logger, ⟨none, some least⟩, w.host.rendering, none, time, []⟩ w := by
    have hconsole : consoleOf s' false = some least := congrArg (some ∘ consoleThreshold) hverbose
    rw [← hconsole]
    exact .bare hnone
  refine ⟨_, _, exec_openJournal_ok_iff.mpr (.filed hfile hopen), exec_openJournal_ok_iff.mpr halone,
    fun e he => hbeside.isRendered_iff he, fun es hes => ⟨fun e he => ?_, ?_⟩⟩
  · obtain ⟨⟨htaken, -⟩, ⟨htaken', -⟩, -⟩ := hbeside.fate_eq (hes e he)
    exact ⟨htaken, htaken'⟩
  · exact hbeside.shown_writeAll_iff rfl w'.files w.files hes

/-- Of an event with a bound value and a stack, and of a step that has a value of a name that a log with a
file takes for its own, the console shows the event alone, with a file and without. -/
theorem shown_beside_file_sample :
    let w := World.still (.directory []) fun _ => .interruption
    let s : LogSettings := ⟨.error, some (Path.ofText "a.log"), 0⟩
    let messages : List Message := [.native "app" .warning "late" [("part", .string "a b")]
        [("stack", .string "here"), ("first", .bool true)],
      .native "app" .debug "step" [] [("_from_structlog", .null)]]
    ∃ loc w' es, (openFile (Path.ofText "a.log")).exec w = (.ok loc, w') ∧
      messages.mapM Message.emission = .ok es ∧
      (∀ e ∈ es, e.IsRendered .usual .error .warning "now") ∧
      ∃ j j', (openJournal s false "app" "now").exec w = (.ok j, w') ∧
        (openJournal { s with file := none } false "app" "now").exec w = (.ok j', w) ∧
        (j.writeAll w'.files es).1.shown = (j'.writeAll w.files es).1.shown ∧
        (j'.writeAll w.files es).1.shown =
          "now [warning  ] late                           [app] first=True part='a b'\nhere\n" := by
  intro w s messages
  obtain ⟨w', hopen⟩ : ∃ w', (openFile (Path.ofText "a.log")).exec w = (.ok ["a.log"], w') := ⟨_, rfl⟩
  let es : List Emission := [⟨"app", ⟨.warning, "late", [("part", .string "a b"),
      ("stack", .string "here"), ("first", .bool true)], none⟩, false⟩,
    ⟨"app", ⟨.debug, "step", [("_from_structlog", .null)], none⟩, false⟩]
  have hrendered : ∀ e ∈ es, e.IsRendered .usual .error .warning "now" := by
    rw [List.forall_mem_cons, List.forall_mem_singleton]
    exact ⟨⟨rfl, ⟨rfl, fun _ => rfl⟩, by decide, fun _ => rfl, fun _ => by decide⟩,
      ⟨rfl, ⟨rfl, fun _ => rfl⟩, by decide, fun _ => rfl, fun _ => by decide⟩⟩
  have hfree : ∀ e ∈ es, reaches (consoleThreshold s.verbose) e.record.severity = true → e.IsFree := by
    rw [List.forall_mem_cons, List.forall_mem_singleton]
    refine ⟨fun _ => ?_, fun h => absurd h (by decide)⟩
    have hnames : ∀ name ∈ [("part" : Text), "stack", "first"], name ∉ ownNames := by decide
    exact fun m hm => hnames m.1 (List.mem_map_of_mem (f := Prod.fst) hm)
  have hfile : s.file = some (Path.ofText "a.log") := rfl
  have hnone : ({ s with file := none } : LogSettings).file = none := rfl
  obtain ⟨j, j', hjournal, hjournal', -, hall⟩ := shown_beside_file hfile hnone rfl hopen "app" "now"
  refine ⟨_, w', es, hopen, rfl, hrendered, j, j', hjournal, hjournal',
    (hall es hrendered).2.2.mpr hfree, ?_⟩
  cases hjournal'
  decide

/-- A value of such a name is shown without a file and not beside one.  A step with a stack that is no
text, or with an integer of too many digits, which no console shows, is refused without a file and taken
beside one. -/
theorem shown_apart_from_file :
    let w := World.still (.directory []) fun _ => .interruption
    let long : Json.Value := .int (Json.digitBound Json.integerLimit)
    ∃ e e' e'', (Message.native "app" .warning "e" [] [("_from_structlog", .bool true)]).emission = .ok e ∧
      (Message.native "app" .debug "e" [] [("stack", .bool true)]).emission = .ok e' ∧
      (Message.native "app" .debug "e" [] [("n", long)]).emission = .ok e'' ∧
      ∃ j j' w', (openJournal ⟨.info, some (Path.ofText "a.log"), 0⟩ false "app" "now").exec w =
          (.ok j, w') ∧
        (openJournal ⟨.info, none, 0⟩ false "app" "now").exec w = (.ok j', w) ∧
        (j.writeAll w'.files [e]).1.shown = "now [warning  ] e                              [app]\n" ∧
        (j'.writeAll w.files [e]).1.shown =
          "now [warning  ] e                              [app] _from_structlog=True\n" ∧
        (j.fate e').failure = none ∧ (j'.fate e').failure = some .shapelessBlock ∧
        (j.fate e'').failure = none ∧
        (j'.fate e'').failure = some Json.WriteFault.longInteger.failure :=
  ⟨_, _, _, rfl, rfl, rfl, _, _, _, rfl, rfl, by decide, by decide, rfl, rfl, rfl,
    by decide +kernel⟩

end Log

end EditorDocs
