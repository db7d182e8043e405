import EditorDocs.Proofs.Command.Results
import EditorDocs.Proofs.CommandLine.Reading
import EditorDocs.Proofs.Index.RoundTrip

/-!
# Outcomes that are printed

An outcome is printed as it is, without escapes for what is no scalar value, and may be nested less
deeply than a response.  A value fits if it keeps to this (`CommandLine.Fits`).  What fits is printed
as a text from which the outcome is read back, and for what does not fit the command line ends with
nothing printed (`CommandLine.ending_completed`, `CommandLine.ending_failed`).
-/

namespace EditorDocs.CommandLine

open Json (Value)

/-! ## Texts without surrogates -/

/-- The parts of a list are free of surrogates if each of them is. -/
lemma areWritable_iff {vs : List Value} :
    areWritable vs = true ↔ ∀ v ∈ vs, isWritable v = true := by
  induction vs with
  | nil => simp [areWritable]
  | cons v vs ih => rw [areWritable, Bool.and_eq_true, ih, List.forall_mem_cons]

/-- The members of an object are free of surrogates if each of them is, with its name. -/
lemma areWritableMembers_iff {ms : List (Text × Value)} :
    areWritableMembers ms = true ↔ ∀ m ∈ ms, m.1.IsScalar ∧ isWritable m.2 = true := by
  induction ms with
  | nil => simp [areWritableMembers]
  | cons m ms ih =>
    obtain ⟨name, v⟩ := m
    rw [areWritableMembers, Bool.and_eq_true, Bool.and_eq_true, decide_eq_true_eq, ih,
      List.forall_mem_cons]

/-- A line break is free of surrogates. -/
lemma isScalar_lineBreak (level : Nat) : (Json.lineBreak level).IsScalar := by
  refine Text.isScalar_of_lt fun c hc => ?_
  rcases List.mem_cons.mp hc with rfl | hblank
  · decide
  · rw [List.eq_of_mem_replicate hblank]
    decide

/-- What stands between two parts is free of surrogates. -/
lemma isScalar_separator (isFirst : Bool) (level : Nat) :
    Text.IsScalar ((if isFirst then [] else [CodePoint.ofNat 0x2C]) ++ Json.lineBreak level) := by
  refine Text.IsScalar.append ?_ (isScalar_lineBreak level)
  cases isFirst <;> decide

/-- What stands in front of a closing mark is free of surrogates. -/
lemma isScalar_closing (isFirst : Bool) (level : Nat) {mark : Text} (h : mark.IsScalar) :
    Text.IsScalar ((if isFirst then [] else Json.lineBreak level) ++ mark) := by
  cases isFirst with
  | true => exact h
  | false => exact (isScalar_lineBreak level).append h

/-- The rest of a list is printed without surrogates if the items are. -/
lemma isScalar_prettyItems {vs : List Value} (level : Nat) (isFirst : Bool)
    (h : ∀ v ∈ vs, (v.pretty false (level + 1)).IsScalar) :
    (Json.prettyItems false level isFirst vs).IsScalar := by
  induction vs generalizing isFirst with
  | nil =>
    have hclose : Text.IsScalar [CodePoint.ofNat 0x5D] := by decide
    rw [Json.prettyItems]
    exact isScalar_closing isFirst level hclose
  | cons v vs ih =>
    obtain ⟨hv, hvs⟩ := List.forall_mem_cons.mp h
    rw [Json.prettyItems]
    exact ((isScalar_separator isFirst (level + 1)).append hv).append (ih false hvs)

/-- The rest of an object is printed without surrogates if the members are. -/
lemma isScalar_prettyMembers {ms : List (Text × Value)} (level : Nat) (isFirst : Bool)
    (h : ∀ m ∈ ms, m.1.IsScalar ∧ (m.2.pretty false (level + 1)).IsScalar) :
    (Json.prettyMembers false level isFirst ms).IsScalar := by
  induction ms generalizing isFirst with
  | nil =>
    have hclose : Text.IsScalar [CodePoint.ofNat 0x7D] := by decide
    rw [Json.prettyMembers]
    exact isScalar_closing isFirst level hclose
  | cons m ms ih =>
    obtain ⟨name, v⟩ := m
    obtain ⟨⟨hname, hv⟩, hms⟩ := List.forall_mem_cons.mp h
    have hcolon : (": " : Text).IsScalar := by decide
    have hstart := (isScalar_separator isFirst (level + 1)).append (Json.isScalar_quote hname)
    rw [Json.prettyMembers]
    exact ((hstart.append hcolon).append hv).append (ih false hms)

/-- A plain value without surrogates is printed without them. -/
lemma isScalar_pretty {v : Value} (h : v.IsPlain) (hwritable : isWritable v = true) (level : Nat) :
    (v.pretty false level).IsScalar := by
  -- on how the value is plain; its parts are printed one level further in
  induction h generalizing level with
  | null =>
    rw [Value.pretty]
    decide
  | bool b =>
    rw [Value.pretty]
    cases b <;> decide
  | string t =>
    rw [Value.pretty]
    exact Json.isScalar_quote (of_decide_eq_true hwritable)
  | list h ih =>
    have hitems := areWritable_iff.mp hwritable
    have hopen : Text.IsScalar [CodePoint.ofNat 0x5B] := by decide
    rw [Value.pretty]
    exact hopen.append (isScalar_prettyItems level true fun v hv => ih v hv (hitems v hv) (level + 1))
  | object hnames h ih =>
    have hmembers := areWritableMembers_iff.mp hwritable
    have hopen : Text.IsScalar [CodePoint.ofNat 0x7B] := by decide
    rw [Value.pretty]
    exact hopen.append (isScalar_prettyMembers level true fun m hm =>
      ⟨(hmembers m hm).1, ih m hm (hmembers m hm).2 (level + 1)⟩)

/-! ## Outcomes -/

/-- The value can be printed within an outcome: it is nested no deeper than it may be, and no text in
it holds surrogates. -/
def Fits (v : Value) : Prop := v.fault? outcomeLimit = none ∧ isWritable v = true

instance (v : Value) : Decidable (Fits v) := inferInstanceAs (Decidable (_ ∧ _))

namespace Ending

/-- The ending, with what the console has shown in front of what went wrong. -/
def after (shown : Text) (e : Ending) : Ending := { e with errors := shown ++ e.errors }

/-- The ending has the code, and one text was printed, from which the outcome is read. -/
structure Prints (e : Ending) (code : Nat) (o : Outcome) : Prop where
  /-- The ending has the code. -/
  code : e.code = code
  /-- Nothing unexpected has happened. -/
  expected : e.unexpected = none
  /-- The outcome is read from what was printed, with any stack that suffices for outcomes. -/
  printed : ∃ t, e.printed = [t] ∧ ∀ budget > outcomeLimit, Json.readLine budget t = .ok o.toJson

/-- The ending is that of an outcome that cannot be printed. -/
structure Breaks (e : Ending) : Prop where
  /-- The command line has failed. -/
  code : e.code = 1
  /-- It did so in a way that nobody expects. -/
  unexpected : e.unexpected = some .unprintable
  /-- Nothing was printed. -/
  printed : e.printed = []

/-- What holds no surrogates goes out. -/
lemma print_of_isScalar {e : Ending} (h : ∀ t ∈ e.printed, t.IsScalar) : e.print = e := by
  have hnone : e.printed.findSome? (Utf8.firstRun CodePoint.isSurrogate 0) = none :=
    List.findSome?_eq_none_iff.mpr fun t ht => Utf8.firstRun_eq_none_iff.mpr (h t ht)
  rw [print, hnone]

end Ending

section

variable {o : Outcome} {v : Value} {kind message : Text}

/-- The names of the members of an outcome. -/
def outcomeNames : List Text := ["success", "result", "error", "error_type"]

/-- The code of a command line that prints the outcome. -/
def codeOf : Outcome → Nat
  | .completed _ => 0
  | .failed _ _ => 1

/-- An outcome without surrogates that is not nested too deeply is printed. -/
lemma prints_outcome (hplain : o.toJson.IsPlain)
    (hfault : o.toJson.fault? (outcomeLimit + 1) = none) (hwritable : isWritable o.toJson = true)
    (shown : Text) : ((outcomeEnding o).after shown).final.Prints (codeOf o) o := by
  have hending : outcomeEnding o =
      { code := codeOf o, printed := [o.toJson.pretty false 0 ++ "\n"] } := by
    unfold outcomeEnding
    cases o <;> simp only [hfault, hwritable] <;> rfl
  have hscalar : Text.IsScalar (o.toJson.pretty false 0 ++ "\n") :=
    (isScalar_pretty hplain hwritable 0).append (by decide)
  have hread : ∀ budget > outcomeLimit,
      Json.readLine budget (o.toJson.pretty false 0 ++ "\n") = .ok o.toJson :=
    fun budget hbudget => Json.readLine_pretty hplain hbudget hfault
  rw [hending]
  unfold Ending.final Ending.after
  rw [Ending.print_of_isScalar fun t ht => by rw [List.mem_singleton.mp ht]; exact hscalar]
  exact ⟨rfl, rfl, _, rfl, hread⟩

/-- An outcome that holds surrogates or is nested too deeply breaks the command line. -/
lemma breaks_outcome (h : ¬ (o.toJson.fault? (outcomeLimit + 1) = none ∧ isWritable o.toJson = true))
    (shown : Text) : ((outcomeEnding o).after shown).final.Breaks := by
  have hbad : ((o.toJson.fault? (outcomeLimit + 1)).isSome || !isWritable o.toJson) = true := by
    cases hfault : o.toJson.fault? (outcomeLimit + 1) with
    | some fault => rfl
    | none => simpa [hfault] using h
  have hending : outcomeEnding o = .ofFailure .unprintable := by
    unfold outcomeEnding
    simp only [hbad, if_true]
  rw [hending]
  exact ⟨rfl, rfl, rfl⟩

/-- A value stands one level deeper in its outcome. -/
lemma fault?_completed (v : Value) :
    (Outcome.completed v).toJson.fault? (outcomeLimit + 1) = v.fault? outcomeLimit := by
  simp only [Outcome.toJson, Value.fault?, Json.faultMembers?]
  cases v.fault? outcomeLimit <;> rfl

/-- The texts of the outcome of a value are those of the value, apart from names. -/
lemma isWritable_completed (v : Value) : isWritable (Outcome.completed v).toJson = isWritable v := by
  have hnames : ∀ name ∈ outcomeNames, name.IsScalar := by decide
  simp only [outcomeNames, List.mem_cons, List.not_mem_nil, or_false, forall_eq_or_imp, forall_eq]
    at hnames
  simp [Outcome.toJson, isWritable, areWritableMembers, hnames]

/-- The texts of a failure are its kind and its wording, apart from names. -/
lemma isWritable_failed (kind message : Text) :
    isWritable (Outcome.failed kind message).toJson =
      (decide message.IsScalar && decide kind.IsScalar) := by
  have hnames : ∀ name ∈ outcomeNames, name.IsScalar := by decide
  simp only [outcomeNames, List.mem_cons, List.not_mem_nil, or_false, forall_eq_or_imp, forall_eq]
    at hnames
  simp [Outcome.toJson, isWritable, areWritableMembers, hnames]

/-- An outcome is plain if its value is. -/
lemma isPlain_completed (h : v.IsPlain) : (Outcome.completed v).toJson.IsPlain := by
  have hnames : outcomeNames.Nodup := by decide
  refine .object hnames fun m hm => ?_
  simp only [List.mem_cons, List.not_mem_nil, or_false] at hm
  rcases hm with rfl | rfl | rfl | rfl
  · exact .bool true
  · exact h
  · exact .null
  · exact .null

/-- A failure is plain. -/
lemma isPlain_failed (kind message : Text) : (Outcome.failed kind message).toJson.IsPlain := by
  have hnames : outcomeNames.Nodup := by decide
  refine .object hnames fun m hm => ?_
  simp only [List.mem_cons, List.not_mem_nil, or_false] at hm
  rcases hm with rfl | rfl | rfl | rfl
  · exact .bool false
  · exact .null
  · exact .string message
  · exact .string kind

/-- A plain value that fits is printed within its outcome, and one that does not breaks the command
line. -/
theorem ending_completed (h : v.IsPlain) (shown : Text) :
    (Fits v → ((outcomeEnding (.completed v)).after shown).final.Prints 0 (.completed v)) ∧
    (¬ Fits v → ((outcomeEnding (.completed v)).after shown).final.Breaks) := by
  constructor
  · intro hfits
    refine prints_outcome (isPlain_completed h) ?_ ?_ shown
    · rw [fault?_completed, hfits.1]
    · rw [isWritable_completed, hfits.2]
  · intro hfits
    refine breaks_outcome ?_ shown
    rw [fault?_completed, isWritable_completed]
    exact hfits

/-- A failure of which the wording holds no surrogates is printed, and another one breaks the command
line. -/
theorem ending_failed (hkind : kind.IsScalar) (shown : Text) :
    (message.IsScalar →
      ((outcomeEnding (.failed kind message)).after shown).final.Prints 1 (.failed kind message)) ∧
    (¬ message.IsScalar → ((outcomeEnding (.failed kind message)).after shown).final.Breaks) := by
  constructor
  · intro hmessage
    refine prints_outcome (isPlain_failed kind message) rfl ?_ shown
    rw [isWritable_failed, decide_eq_true hmessage, decide_eq_true hkind]
    rfl
  · intro hmessage
    refine breaks_outcome ?_ shown
    rw [isWritable_failed, decide_eq_false hmessage]
    simp

end

end EditorDocs.CommandLine
