import EditorDocs.Proofs.Log.Journal
import Mathlib.Data.List.Basic
import Mathlib.Data.List.Flatten

/-!
# What the console shows

A console that is to be quiet shows nothing of the records if there is a file, but for a complaint about
each one whose line cannot be written.  If there is no file it still shows warnings and what is graver, so
it is quiet only as long as nothing of the kind is recorded (`Log.shown_quiet`).

More verbosity lowers the threshold of the console and so shows more records, in the same order and
with the same texts, and hides none.  This is so for all verbosities from zero on.  Below zero the
console shows all that it shows at two, so that some records are hidden again at zero and at one
(`Log.shown_verbose`).
-/

namespace EditorDocs.Log

open FileSystem (State)

/-! ## A quiet console -/

/-- The console tells that the file of the log cannot be opened, or there is nothing to tell. -/
inductive Told (s : LogSettings) (w w' : World) (j : Journal) : Text → Prop
  /-- No file is asked for. -/
  | bare (hfile : s.file = none) (hnone : j.file = none) : Told s w w' j []
  /-- The file is open. -/
  | opened {path : Path} {loc : FileSystem.Location} (hfile : s.file = some path)
    (hopen : (openFile path).exec w = (.ok loc, w')) (hthere : j.file = some loc) : Told s w w' j []
  /-- There is no file, since the system does not open it. -/
  | warning {path : Path} {e : SystemError} (hfile : s.file = some path)
    (hopen : (openFile path).exec w = (.error (.system e), w')) (hnone : j.file = none) :
    Told s w w' j (Log.warning path (.system e))

/-- When a log is opened, the console shows nothing but that its file cannot be opened. -/
lemma Opened.told {s : LogSettings} {quiet : Bool} {logger time : Text} {w w' : World} {j : Journal}
    (h : Opened s quiet logger time w j w') : Told s w w' j j.shown := by
  cases h with
  | bare hfile => exact .bare hfile rfl
  | filed hfile hopen => exact .opened hfile hopen rfl
  | unfiled hfile hopen => exact .warning hfile hopen rfl

/-- There is a place for the file of a log exactly if records go to it. -/
lemma Opened.file_eq_none_iff {s : LogSettings} {quiet : Bool} {logger time : Text} {w w' : World}
    {j : Journal} (h : Opened s quiet logger time w j w') :
    j.pipeline.file = none ↔ j.file = none := by
  cases h <;> simp

section Quiet

variable {j : Journal} (hquiet : j.pipeline.console = none)

include hquiet

/-- Beside a file a quiet console shows complaints only. -/
lemma shown_fate_quiet (hfile : j.pipeline.file ≠ none) (e : Emission) :
    (j.fate e).shown = j.complaint e := by
  have hhidden : j.pipeline.isShown e = false := by
    unfold Pipeline.isShown
    rw [hquiet]
    simp [hfile]
  have hnothing : (j.pipeline.fateShown j.rendering j.time e).shown = [] := by
    unfold Pipeline.fateShown
    rw [hhidden]
    rfl
  rw [Journal.shown_fate hfile, hnothing, ite_self, List.append_nil]

/-- Without a file it shows the warnings and what is graver, refused records apart. -/
lemma shown_fate_quiet_alone (hfile : j.pipeline.file = none) (e : Emission) :
    (j.fate e).shown =
      if reaches .warning e.record.severity && (j.fate e).failure.isNone then j.bareText e else [] := by
  have hshown : j.pipeline.isShown e = reaches .warning e.record.severity := by
    unfold Pipeline.isShown
    rw [hquiet]
    simp [hfile]
  rw [Journal.shown_fate_alone hfile, hshown]

end Quiet

/-- A quiet console shows first that the file of the log cannot be opened, if so.  If the file is open, it
then shows nothing of the records but a complaint about each one whose line cannot be written, as far as
that failure does not come back.  If there is no file, it shows those records that are warnings or graver,
refused ones apart.  Whatever keeps the file from being opened, as far as the system says so, does not keep
the log from being opened. -/
theorem shown_quiet (s : LogSettings) (logger time : Text) (w : World) :
    match (openJournal s true logger time).exec w with
    | (.error f, _) => ∀ e, f ≠ .system e
    | (.ok j, w') => ∃ told, Told s w w' j told ∧ ∀ es : List Emission,
        let shown := (j.writeAll w'.files es).1.shown
        (j.file ≠ none → shown = told ++ es.flatMap j.complaint ∧
          (shown = told ↔ ∀ e ∈ es, ∀ f ∈ j.filedFault? e, f = .tooDeep)) ∧
        (j.file = none → shown = told ++ (es.filter fun e =>
            reaches .warning e.record.severity && (j.fate e).failure.isNone).flatMap j.bareText ∧
          (shown = told ↔ ∀ e ∈ es, (j.fate e).failure = none →
            reaches .warning e.record.severity = false)) := by
  rcases hopened : (openJournal s true logger time).exec w with ⟨f | j, w'⟩
  · obtain ⟨path, -, -, hother⟩ := exec_openJournal_error_iff.mp hopened
    exact hother
  · have h := exec_openJournal_ok_iff.mp hopened
    have hquiet : j.pipeline.console = none := by cases h <;> rfl
    refine ⟨j.shown, h.told, fun es => ⟨fun hfile => ?_, fun hfile => ?_⟩⟩
    · have hshown : (j.writeAll w'.files es).1.shown = j.shown ++ es.flatMap j.complaint := by
        rw [j.shown_writeAll]
        congr 2
        funext e
        exact shown_fate_quiet hquiet (mt h.file_eq_none_iff.mp hfile) e
      refine ⟨hshown, ?_⟩
      rw [hshown, List.append_right_eq_self, List.flatMap_eq_nil_iff]
      exact forall₂_congr fun e _ => Journal.complaint_eq_nil_iff
    · have hshown : (j.writeAll w'.files es).1.shown = j.shown ++ (es.filter fun e =>
          reaches .warning e.record.severity && (j.fate e).failure.isNone).flatMap j.bareText := by
        rw [j.shown_writeAll, ← flatMap_ite]
        congr 2
        funext e
        exact shown_fate_quiet_alone hquiet (h.file_eq_none_iff.mpr hfile) e
      refine ⟨hshown, ?_⟩
      rw [hshown, List.append_right_eq_self, List.flatMap_eq_nil_iff]
      have htext : ∀ e, j.bareText e ≠ [] := fun e =>
        List.append_ne_nil_of_right_ne_nil _ (by decide)
      simp only [List.mem_filter, Bool.and_eq_true, Option.isNone_iff_eq_none, htext, imp_false,
        not_and, ← Bool.not_eq_true]
      exact forall₂_congr fun e _ => imp_not_comm

/-- A quiet console shows a warning if no file is asked for. -/
theorem quiet_shows_warning :
    ∃ e, (Message.native "app" .warning "e" [] []).emission = .ok e ∧ ∃ j w',
      (openJournal ⟨.info, none, 0⟩ true "app" "now").exec
        (World.still (.directory []) fun _ => .interruption) = (.ok j, w') ∧
      j.shown = [] ∧
      (j.writeAll w'.files [e]).1.shown = "now [warning  ] e                              [app]\n" :=
  ⟨_, rfl, _, _, rfl, rfl, by decide⟩

/-! ## Verbosity -/

/-- A verbosity is in order with a greater one unless it is below zero and the other one is zero or
one: the console shows everything below zero, as it does from two on. -/
def InOrder (v v' : Int) : Prop := 0 ≤ v ∨ v' < 0 ∨ 2 ≤ v'

/-- What reaches a severity reaches a lesser one. -/
lemma reaches_of_le {a b : Severity} (h : a.rank ≤ b.rank) {s : Severity}
    (hs : reaches b s = true) : reaches a s = true := by
  simp only [reaches, decide_eq_true_eq] at hs ⊢
  omega

/-- More verbosity does not raise the threshold of the console exactly if the verbosities are in
order. -/
lemma consoleThreshold_le_iff {v v' : Int} (hle : v ≤ v') :
    (consoleThreshold v').rank ≤ (consoleThreshold v).rank ↔ InOrder v v' := by
  unfold InOrder consoleThreshold
  constructor
  · intro h
    by_contra hnot
    push Not at hnot
    obtain ⟨hneg, hnonneg, hsmall⟩ := hnot
    rw [if_neg (by omega : ¬ v = 0), if_neg (by omega : ¬ v = 1)] at h
    rcases (by omega : v' = 0 ∨ v' = 1) with rfl | rfl <;> simp [Severity.rank] at h
  · intro h
    split_ifs <;> first | omega | simp [Severity.rank]

/-- The journal with another threshold of the console. -/
def Journal.withLeast (j : Journal) (least : Severity) : Journal :=
  { j with pipeline := ⟨j.pipeline.file, some least⟩ }

/-- The record is rendered for the console if it is shown.  Without a file this means that it is not
refused; beside one, that the stack suffices for its line, and that the console can render it. -/
def Journal.renders (j : Journal) (e : Emission) : Bool :=
  if j.pipeline.file.isNone then (j.fate e).failure.isNone
  else j.filedFault? e ≠ some .tooDeep &&
    (consoleFault? j.rendering.shown (j.pipeline.fields j.time e)).isNone

/-- The console shows the record. -/
def Journal.prints (j : Journal) (e : Emission) : Bool := j.pipeline.isShown e && j.renders e

/-- A record of another part of the program that has no values is rendered. -/
lemma renders_foreign (j : Journal) (logger : Text) (severity : Severity) (text : Text) :
    j.renders ⟨logger, ⟨severity, text, [], none⟩, true⟩ = true := by
  unfold Journal.renders
  split
  · rename_i hfile
    rw [Journal.fate, Pipeline.fate_alone _ _ _ (Option.isNone_iff_eq_none.mp hfile)]
    rfl
  · generalize he : (⟨logger, ⟨severity, text, [], none⟩, true⟩ : Emission) = e
    have hall : ∀ m ∈ e.fields j.time, ∃ t, m.2 = .string t := by
      subst he
      exact List.forall_mem_cons.mpr ⟨⟨_, rfl⟩, List.forall_mem_cons.mpr ⟨⟨_, rfl⟩,
        List.forall_mem_cons.mpr ⟨⟨_, rfl⟩, List.forall_mem_singleton.mpr ⟨_, rfl⟩⟩⟩⟩
    have htexts : ∀ m ∈ j.pipeline.fields j.time e, ∃ t, m.2 = .string t := by
      unfold Pipeline.fields
      simp only
      split
      · exact fun m hm => hall m (List.mem_of_mem_filter hm)
      · exact hall
    have hline : j.filedFault? e = none := by
      unfold Journal.filedFault?
      rw [lineFault?_texts htexts j.rendering.room, ite_self]
    rw [hline, consoleFault?_texts htexts]
    rfl

section Threshold

variable {j : Journal} {least least' : Severity}

/-- The threshold decides about such a record. -/
lemma prints_foreign (hconsole : j.pipeline.console = some least) (logger : Text)
    (severity : Severity) (text : Text) :
    j.prints ⟨logger, ⟨severity, text, [], none⟩, true⟩ = reaches least severity := by
  rw [Journal.prints, renders_foreign, Bool.and_true, Pipeline.isShown, hconsole]

/-- What comes back from a record does not depend on the threshold if there is no file. -/
lemma failure_fate_withLeast (hfile : j.pipeline.file = none) (e : Emission) :
    ((j.withLeast least').fate e).failure = (j.fate e).failure := by
  have hfile' : (j.withLeast least').pipeline.file = none := hfile
  have hfields : (j.withLeast least').pipeline.fields (j.withLeast least').time e =
      j.pipeline.fields j.time e := rfl
  have hrendering : (j.withLeast least').rendering = j.rendering := rfl
  rw [Journal.fate, Journal.fate, Pipeline.fate_alone _ _ _ hfile, Pipeline.fate_alone _ _ _ hfile']
  unfold Pipeline.fateAlone
  split
  · rfl
  · rw [hfields, hrendering]
    split <;> rfl

/-- Nor does whether a record is rendered. -/
lemma renders_withLeast (e : Emission) : (j.withLeast least').renders e = j.renders e := by
  have hfile : (j.withLeast least').pipeline.file = j.pipeline.file := rfl
  unfold Journal.renders
  rw [hfile]
  by_cases hnone : j.pipeline.file = none
  · rw [hnone, Option.isNone_none, if_pos rfl, if_pos rfl, failure_fate_withLeast hnone]
  · rw [if_neg (by simpa using hnone), if_neg (by simpa using hnone)]
    rfl

/-- What is printed is so with a lower threshold too. -/
lemma prints_withLeast (hconsole : j.pipeline.console = some least) (h : least'.rank ≤ least.rank)
    {e : Emission} (he : j.prints e = true) : (j.withLeast least').prints e = true := by
  have hshown : (j.withLeast least').pipeline.isShown e = reaches least' e.record.severity := rfl
  simp only [Journal.prints, Pipeline.isShown, hconsole, Bool.and_eq_true] at he
  rw [Journal.prints, renders_withLeast, hshown, Bool.and_eq_true]
  exact ⟨reaches_of_le h he.1, he.2⟩

/-- What is shown under a condition is a part of what is shown under a weaker one. -/
lemma ite_sublist {α : Type} {a b : Bool} (h : a = true → b = true) (xs : List α) :
    (if a then xs else []).Sublist (if b then xs else []) := by
  by_cases ha : a = true
  · rw [if_pos ha, if_pos (h ha)]
  · rw [if_neg ha]
    exact List.nil_sublist _

/-- With a lower threshold the console shows no less of a record. -/
lemma shown_fate_withLeast (hconsole : j.pipeline.console = some least)
    (h : least'.rank ≤ least.rank) (e : Emission) :
    (j.fate e).shown.Sublist ((j.withLeast least').fate e).shown := by
  have hreaches : j.pipeline.isShown e = true →
      (j.withLeast least').pipeline.isShown e = true := by
    intro hshown
    simp only [Pipeline.isShown, hconsole] at hshown
    exact reaches_of_le h hshown
  by_cases hfile : j.pipeline.file = none
  · have hfile' : (j.withLeast least').pipeline.file = none := hfile
    have htext : (j.withLeast least').bareText e = j.bareText e := rfl
    rw [Journal.shown_fate_alone hfile, Journal.shown_fate_alone hfile', failure_fate_withLeast hfile,
      htext]
    refine ite_sublist (fun hboth => ?_) _
    rw [Bool.and_eq_true] at hboth ⊢
    exact ⟨hreaches hboth.1, hboth.2⟩
  · have hfile' : (j.withLeast least').pipeline.file ≠ none := hfile
    have hcomplaint : (j.withLeast least').complaint e = j.complaint e := rfl
    have hfault : (j.withLeast least').filedFault? e = j.filedFault? e := rfl
    rw [Journal.shown_fate hfile, Journal.shown_fate hfile', hcomplaint, hfault]
    refine List.Sublist.append_left ?_ _
    split
    · exact List.Sublist.refl _
    · -- beside a file the console makes the same of the record, as soon as it is shown
      unfold Pipeline.fateShown
      by_cases hshown : j.pipeline.isShown e = true
      · rw [if_pos hshown, if_pos (hreaches hshown)]
        exact List.Sublist.refl _
      · rw [if_neg hshown]
        exact List.nil_sublist _

/-- With a lower threshold the console shows more. -/
lemma shown_withLeast (hconsole : j.pipeline.console = some least) (h : least'.rank ≤ least.rank)
    (files : State) (es : List Emission) :
    (j.writeAll files es).1.shown.Sublist ((j.withLeast least').writeAll files es).1.shown := by
  rw [j.shown_writeAll, (j.withLeast least').shown_writeAll]
  exact (List.Sublist.flatMap_right es fun e _ =>
    shown_fate_withLeast hconsole h e).append_left j.shown

/-- The records that are printed are among those that are printed with another threshold exactly if it is
not higher: a record that just reaches the one would be hidden by a higher one. -/
lemma printed_sublist_iff (hconsole : j.pipeline.console = some least) :
    (∀ es : List Emission, (es.filter j.prints).Sublist (es.filter (j.withLeast least').prints)) ↔
      least'.rank ≤ least.rank := by
  constructor
  · intro hall
    have hone := hall [⟨[], ⟨least, [], [], none⟩, true⟩]
    have hself : reaches least least = true := by simp [reaches]
    rw [List.filter_cons_of_pos (by rw [prints_foreign hconsole]; exact hself)] at hone
    have hseen := (List.mem_filter.mp (hone.subset List.mem_cons_self)).2
    rw [prints_foreign rfl] at hseen
    simpa [reaches] using hseen
  · intro h es
    exact List.monotone_filter_right es fun e he => prints_withLeast hconsole h he

end Threshold

/-- A log is opened with more verbosity just as with less, and tells the same if its file cannot be
opened.  For verbosities in order the threshold of the console is not raised: the records that are
printed with less verbosity are a subsequence of those that are printed with more, and so are the texts on
the console.  For other ones the threshold is raised, and a record is hidden. -/
theorem shown_verbose (s : LogSettings) {v v' : Int} (hle : v ≤ v') (logger time : Text) (w : World) :
    ((consoleThreshold v').rank ≤ (consoleThreshold v).rank ↔ InOrder v v') ∧
    match (openJournal { s with verbose := v } false logger time).exec w with
    | (.error f, w') => (openJournal { s with verbose := v' } false logger time).exec w = (.error f, w')
    | (.ok j, w') => ∃ j', (openJournal { s with verbose := v' } false logger time).exec w = (.ok j', w') ∧
        j'.shown = j.shown ∧
        ((∀ es : List Emission, (es.filter j.prints).Sublist (es.filter j'.prints)) ↔ InOrder v v') ∧
        (InOrder v v' → ∀ es : List Emission,
          (j.writeAll w'.files es).1.shown.Sublist (j'.writeAll w'.files es).1.shown) := by
  refine ⟨consoleThreshold_le_iff hle, ?_⟩
  rcases hopened : (openJournal { s with verbose := v } false logger time).exec w with ⟨f | j, w'⟩
  · obtain ⟨path, hpath, hopen, hother⟩ := exec_openJournal_error_iff.mp hopened
    exact exec_openJournal_error_iff.mpr ⟨path, hpath, hopen, hother⟩
  · have h := exec_openJournal_ok_iff.mp hopened
    have h' := h.withConsole { s with verbose := v' } false rfl rfl
    have hconsole : j.pipeline.console = some (consoleThreshold v) := by cases h <;> rfl
    refine ⟨j.withLeast (consoleThreshold v'), exec_openJournal_ok_iff.mpr h', rfl, ?_, fun hin es => ?_⟩
    · rw [← consoleThreshold_le_iff hle]
      exact printed_sublist_iff hconsole
    · exact shown_withLeast hconsole ((consoleThreshold_le_iff hle).mpr hin) _ es

/-- Of a step of the work and a warning, the console shows the warning at first and both at two. -/
theorem shown_verbose_sample :
    let w := World.still (.directory []) fun _ => .interruption
    let es : List Emission := [⟨"app", ⟨.debug, "step", [], none⟩, false⟩,
      ⟨"lib", ⟨.warning, "careful", [], none⟩, true⟩]
    (0 : Int) ≤ 2 ∧ ∃ j j' w',
      (openJournal ⟨.info, none, 0⟩ false "app" "now").exec w = (.ok j, w') ∧
      (openJournal ⟨.info, none, 2⟩ false "app" "now").exec w = (.ok j', w') ∧
      (j.writeAll w'.files es).1.shown = "careful\n" ∧
      (j.writeAll w'.files es).1.shown.Sublist (j'.writeAll w'.files es).1.shown := by
  intro w es
  have hle : (0 : Int) ≤ 2 := by decide
  have hall := (shown_verbose ⟨.info, none, 0⟩ hle "app" "now" w).2
  have hopen : (openJournal ⟨.info, none, 0⟩ false "app" "now").exec w =
      (.ok ⟨"app", ⟨none, some .warning⟩, .usual, none, "now", []⟩, w) := rfl
  rw [hopen] at hall
  obtain ⟨j', hopen', -, -, hmore⟩ := hall
  exact ⟨hle, _, j', w, hopen, hopen', by decide, hmore (Or.inl (by decide)) es⟩

/-- At a verbosity below zero the console shows what it hides at zero. -/
theorem hidden_at_zero :
    ∃ e, (Message.native "app" .info "e" [] []).emission = .ok e ∧ ∃ j j' w',
      (openJournal ⟨.info, none, -1⟩ false "app" "now").exec
        (World.still (.directory []) fun _ => .interruption) = (.ok j, w') ∧
      (openJournal ⟨.info, none, 0⟩ false "app" "now").exec
        (World.still (.directory []) fun _ => .interruption) = (.ok j', w') ∧
      (j.writeAll w'.files [e]).1.shown = "now [info     ] e                              [app]\n" ∧
      (j'.writeAll w'.files [e]).1.shown = [] :=
  ⟨_, rfl, _, _, _, rfl, rfl, by decide, by decide⟩

end EditorDocs.Log
