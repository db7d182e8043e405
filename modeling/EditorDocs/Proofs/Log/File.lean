import EditorDocs.Proofs.Json.Reread
import EditorDocs.Proofs.Log.Journal

/-!
# What the file of a log holds

The file of a log gets one line for every message that reaches its level and can be written, in the order
of the messages (`Log.file_lines`).  A line is the text of one object and has no line break in it.  The
object says what happened, how grave it is, who says so and when, and it holds the values of the message,
of which those that come with the event take the place of bound ones (`Log.Message.IsToldBy`).  Whoever
reads the line gets this object (`Log.Message.Tells`).  What the console is to show does not matter.

This needs that the names of the values are free: a record has names for its own facts, and some names
have a meaning for the log.  A message with an integer of too many digits or with a value that is nested
too deeply cannot be written (`Log.Message.isWritable`), and gets no line whatever its level
(`Log.unwritten`).
-/

namespace EditorDocs.Log

open FileSystem (Location)
open Json (Value)

/-! ## Messages -/

/-- The names under which a record says what happened, how grave it is, who says so and when. -/
def factNames : List Text := ["event", "level", "logger", "timestamp"]

namespace Message

/-- How grave the event of a message is. -/
def severity : Message → Severity
  | .native _ severity _ _ _ => severity
  | .foreign _ severity _ => severity

/-- What happened. -/
def event : Message → Text
  | .native _ _ event _ _ => event
  | .foreign _ _ text => text

/-- The name of the logger that is given the message. -/
def loggerName : Message → Text
  | .native logger _ _ _ _ => if logger.isEmpty then rootName else logger
  | .foreign logger _ _ => if logger.isEmpty then rootName else logger

/-- The value of a name: the one that comes with the event, or else a bound one. -/
def value? (name : Text) : Message → Option Value
  | .native _ _ _ bound given => (given.get? name).or (bound.get? name)
  | .foreign _ _ _ => none

/-- The values of a message are those of JSON, and their names are free. -/
inductive IsLoggable : Message → Prop
  /-- No name is one of the facts of a record, none tells how to log or belongs to the log, and each can
  be bound or given. -/
  | native {logger : Text} {severity : Severity} {event : Text} {bound given : Context}
    (hbound : bound.keys.Nodup) (hgiven : given.keys.Nodup)
    (hfree : ∀ name ∈ bound.keys ++ given.keys, name ∉ factNames ++ directiveNames ++ ownNames)
    (hunbound : ∀ name ∈ bound.keys, name ∉ unboundNames)
    (hungiven : ∀ name ∈ given.keys, name ∉ ungivenNames)
    (hvalues : ∀ m ∈ bound ++ given, m.2.IsExact) :
    IsLoggable (.native logger severity event bound given)
  /-- A text has no values. -/
  | foreign (logger : Text) (severity : Severity) (text : Text) :
    IsLoggable (.foreign logger severity text)

/-- The fields are the facts of a message, and its values under all other names. -/
structure IsToldBy (m : Message) (time : Text) (fields : Context) : Prop where
  /-- Each name has one value. -/
  nodup : fields.keys.Nodup
  /-- What happened. -/
  event : fields.get? ("event" : Text) = some (.string m.event)
  /-- How grave it is. -/
  level : fields.get? ("level" : Text) = some (.string m.severity.name)
  /-- Who says so. -/
  logger : fields.get? ("logger" : Text) = some (.string m.loggerName)
  /-- When it is said. -/
  timestamp : fields.get? ("timestamp" : Text) = some (.string time)
  /-- The values, and nothing else. -/
  value {name : Text} (h : name ∉ factNames) : fields.get? name = m.value? name

/-- The values of a message: those that are bound, and in their places those that come with the event. -/
def values : Message → Context
  | .native _ _ _ bound given => bound.bind given
  | .foreign _ _ _ => []

/-- The values of a message are neither nested too deeply nor too long to be written in a line, whose own
braces take one from the budget. -/
def isWritable (budget : Nat) (m : Message) : Bool :=
  m.values.all fun n => (n.2.fault? (budget - 1)).isNone

/-- The line is the text of one object that tells the message, without a line break.  It is read as this
object, with halves of surrogate pairs joined. -/
def Tells (budget : Nat) (time : Text) (m : Message) (line : Text) : Prop :=
  ∃ fields, m.IsToldBy time fields ∧ line = (Value.object fields).render .line ∧ line.IsPrintable ∧
    Json.readLine budget line = .ok (Value.object fields).joined

/-! ## Records -/

/-- The record that is made of a message if its names are free. -/
def made : Message → Emission
  | .native logger severity event bound given =>
    ⟨logger, ⟨severity, event, bound.bind given, none⟩, false⟩
  | .foreign logger severity text => ⟨logger, ⟨severity, text, [], none⟩, true⟩

variable {m : Message}

lemma made_context (m : Message) : m.made.record.context = m.values := by
  cases m <;> rfl

lemma made_severity (m : Message) : m.made.record.severity = m.severity := by
  cases m <;> rfl

lemma made_event (m : Message) : m.made.record.event = m.event := by
  cases m <;> rfl

lemma made_loggerName (m : Message) : m.made.loggerName = m.loggerName := by
  cases m <;> rfl

lemma made_trace (m : Message) : m.made.record.trace = none := by
  cases m <;> rfl

/-- The values of a message stand in its record, those that come with the event before bound ones. -/
lemma IsLoggable.get?_context (h : m.IsLoggable) (name : Text) :
    m.made.record.context.get? name = m.value? name := by
  cases h with
  | native hbound hgiven hfree hunbound hungiven hvalues => exact Table.get?_foldl_put hgiven _ name
  | foreign logger severity text => rfl

/-- No name has two values in a record. -/
lemma IsLoggable.nodup_context (h : m.IsLoggable) : m.made.record.context.keys.Nodup := by
  cases h with
  | native hbound hgiven hfree hunbound hungiven hvalues => exact Table.nodup_keys_foldl_put _ hbound
  | foreign logger severity text => exact List.nodup_nil

/-- The values in a record are those of the message. -/
lemma IsLoggable.of_mem_context (h : m.IsLoggable) {n : Text × Value}
    (hn : n ∈ m.made.record.context) :
    n.1 ∉ factNames ++ directiveNames ++ ownNames ∧ n.2.IsExact := by
  cases h with
  | @native _ _ _ bound given hbound hgiven hfree hunbound hungiven hvalues =>
    have hmem : n ∈ bound ++ given := List.mem_append.mpr (Table.mem_of_mem_foldl_put hn)
    refine ⟨hfree n.1 ?_, hvalues n hmem⟩
    rw [Table.keys, Table.keys, ← List.map_append]
    exact List.mem_map_of_mem hmem
  | foreign logger severity text => cases hn

/-- A message with free names becomes a record. -/
lemma IsLoggable.emission (h : m.IsLoggable) : m.emission = .ok m.made := by
  cases h with
  | @native logger severity event bound given hbound hgiven hfree hunbound hungiven hvalues =>
    have hnames : (bound.any (fun m => unboundNames.contains m.1) ||
        given.any fun m => ungivenNames.contains m.1) = false := by
      simp only [Bool.or_eq_false_iff, List.any_eq_false, List.contains_iff_mem]
      exact ⟨fun m hm => hunbound m.1 (List.mem_map_of_mem hm),
        fun m hm => hungiven m.1 (List.mem_map_of_mem hm)⟩
    have hown : (bound.bind given).get? ("_record" : Text) = none := by
      by_contra hsome
      obtain ⟨v, hv⟩ := Option.ne_none_iff_exists'.mp hsome
      have hmem := List.mem_append.mpr (Table.mem_of_mem_foldl_put (Table.mem_of_get? hv))
      refine hfree "_record" ?_ (by decide)
      rw [Table.keys, Table.keys, ← List.map_append]
      exact List.mem_map_of_mem (f := Prod.fst) hmem
    show Emission.ofValues logger severity event bound given = _
    rw [Emission.ofValues, hnames, if_neg Bool.false_ne_true]
    simp only [hown]
    rfl
  | foreign logger severity text => rfl

/-- And so do all messages of a list. -/
lemma mapM_emission {messages : List Message} (h : ∀ m ∈ messages, m.IsLoggable) :
    messages.mapM Message.emission = .ok (messages.map made) := by
  induction messages with
  | nil => rfl
  | cons m messages ih =>
    rw [List.mapM_cons, (h m List.mem_cons_self).emission, ih fun n hn => h n (List.mem_cons_of_mem m hn)]
    rfl

end Message

/-! ## Fields -/

/-- The facts of a record, under their names. -/
def facts (e : Emission) (time : Text) : Context :=
  [("event", .string e.record.event), ("level", .string e.record.severity.name),
    ("logger", .string e.loggerName), ("timestamp", .string time)]

/-- A record of which all names are free has the facts besides its values, in every pipeline. -/
lemma fields_eq_bind {e : Emission} (htrace : e.record.trace = none)
    (hfree : ∀ n ∈ e.record.context, n.1 ∉ factNames ++ directiveNames ++ ownNames) (p : Pipeline)
    (time : Text) : p.fields time e = e.record.context.bind (facts e time) := by
  have hgiven : (e.record.context.filter fun m => !directiveNames.contains m.1) = e.record.context := by
    refine List.filter_eq_self.mpr fun n hn => ?_
    have hname := hfree n hn
    simp only [List.mem_append, not_or] at hname
    simp [hname.1.2]
  have hall : e.fields time = e.record.context.bind (facts e time) := by
    unfold Emission.fields
    simp only [htrace, hgiven]
    rfl
  unfold Pipeline.fields
  simp only [hall]
  split
  · refine List.filter_eq_self.mpr fun n hn => ?_
    have hown : n.1 ∉ ownNames := by
      rcases Table.mem_of_mem_foldl_put hn with hcontext | hfact
      · have hname := hfree n hcontext
        simp only [List.mem_append, not_or] at hname
        exact hname.2
      · have hname : n.1 ∈ factNames := List.mem_map_of_mem (f := Prod.fst) hfact
        revert hname
        generalize n.1 = name
        decide +revert
    simp [hown]
  · rfl

namespace Message

variable {m : Message}

/-- The record of a message has the facts and the values of the message as its fields. -/
lemma IsLoggable.isToldBy (h : m.IsLoggable) (p : Pipeline) (time : Text) :
    m.IsToldBy time (p.fields time m.made) := by
  have hfields := fields_eq_bind m.made_trace (fun n hn => (h.of_mem_context hn).1) p time
  have hfact : (facts m.made time).keys.Nodup := (by decide : factNames.Nodup)
  have hget : ∀ name, (p.fields time m.made).get? name =
      ((facts m.made time).get? name).or (m.value? name) := fun name => by
    rw [hfields, ← h.get?_context]
    exact Table.get?_foldl_put hfact _ name
  refine ⟨?_, ?_, ?_, ?_, ?_, fun {name} hname => ?_⟩
  · rw [hfields]
    exact Table.nodup_keys_foldl_put _ h.nodup_context
  · rw [hget, ← made_event]
    rfl
  · rw [hget, ← made_severity]
    rfl
  · rw [hget, ← made_loggerName]
    rfl
  · rw [hget]
    rfl
  · have hnone : (facts m.made time).get? name = none := by
      by_contra hsome
      exact hname (Table.has_iff_mem_keys.mp (Option.isSome_iff_ne_none.mpr hsome))
    rw [hget, hnone, Option.none_or]

/-- What is said about a message is of the kinds of JSON. -/
lemma IsLoggable.isExact_fields (h : m.IsLoggable) (p : Pipeline) (time : Text) :
    (Value.object (p.fields time m.made)).IsExact := by
  refine .object fun n hn => ?_
  rw [fields_eq_bind m.made_trace (fun n hn => (h.of_mem_context hn).1) p time] at hn
  rcases Table.mem_of_mem_foldl_put hn with hcontext | hfact
  · exact (h.of_mem_context hcontext).2
  · simp only [facts, List.mem_cons, List.not_mem_nil, or_false] at hfact
    rcases hfact with rfl | rfl | rfl | rfl <;> exact .string _

/-- An object that tells a message can be written exactly if the message can. -/
lemma IsLoggable.fault?_eq_none_iff (h : m.IsLoggable) {budget : Nat} (hroom : 0 < budget)
    (p : Pipeline) (time : Text) :
    (Value.object (p.fields time m.made)).fault? budget = none ↔ m.isWritable budget = true := by
  obtain ⟨inner, rfl⟩ := Nat.exists_eq_add_of_le' hroom
  have htold := h.isToldBy p time
  have hmembers : (Value.object (p.fields time m.made)).fault? (inner + 1) = none ↔
      ∀ n ∈ p.fields time m.made, n.2.fault? inner = none := Json.faultMembers?_eq_none_iff
  rw [hmembers, isWritable, List.all_eq_true]
  simp only [Nat.add_sub_cancel, Option.isNone_iff_eq_none]
  rw [← made_context]
  constructor
  · intro hall n hn
    have hname : n.1 ∉ factNames := fun hfact =>
      (h.of_mem_context hn).1 (List.mem_append_left _ (List.mem_append_left _ hfact))
    have hget := Table.get?_of_mem h.nodup_context hn
    exact hall n (Table.mem_of_get? ((htold.value hname).trans ((h.get?_context n.1).symm.trans hget)))
  · intro hall n hn
    rw [fields_eq_bind m.made_trace (fun n hn => (h.of_mem_context hn).1) p time] at hn
    rcases Table.mem_of_mem_foldl_put hn with hcontext | hfact
    · exact hall n hcontext
    · simp only [facts, List.mem_cons, List.not_mem_nil, or_false] at hfact
      rcases hfact with rfl | rfl | rfl | rfl <;> rfl

/-- The line of a message that can be written tells it. -/
lemma IsLoggable.tells (h : m.IsLoggable) {budget : Nat} (hroom : 0 < budget)
    (hm : m.isWritable budget = true) (p : Pipeline) (time : Text) :
    m.Tells budget time ((Value.object (p.fields time m.made)).render .line) :=
  ⟨_, h.isToldBy p time, rfl, Json.isPrintable_render _,
    Json.readLine_render (h.isExact_fields p time) ((h.fault?_eq_none_iff hroom p time).mpr hm)⟩

/-- A message has a line exactly if it can be written. -/
lemma IsLoggable.lineFault?_eq_none_iff (h : m.IsLoggable) {budget : Nat} (hroom : 0 < budget)
    (p : Pipeline) (time : Text) :
    lineFault? budget (p.fields time m.made) = none ↔ m.isWritable budget = true := by
  rw [← h.fault?_eq_none_iff hroom p time, lineFault?]
  have hform := (h.isExact_fields p time).fault?_ne_noForm budget
  unfold valueFault?
  rcases hfault : (Value.object (p.fields time m.made)).fault? budget with _ | fault
  · simp
  · cases fault with
    | noForm => exact absurd hfault hform
    | tooDeep => simp
    | longInteger => simp

end Message

/-! ## The file -/

/-- Messages are written to a file one after the other: those that reach its level and can be written,
each on a line. -/
theorem view_writeAll_made {j : Journal} {level : Level} (hlevel : j.pipeline.file = some level)
    (files : FileSystem.State) {messages : List Message} (hmessages : ∀ m ∈ messages, m.IsLoggable) :
    (j.writeAll files (messages.map Message.made)).2.view = FileSystem.grow j.file
      (Utf8.encodeAll ((messages.filter fun m => reaches (threshold level) m.severity &&
          m.isWritable j.rendering.filed).flatMap fun m =>
        (Value.object (j.pipeline.fields j.time m.made)).render .line ++ "\n")) files.view := by
  have hfile : j.pipeline.file ≠ none := by simp [hlevel]
  rw [j.view_writeAll, List.flatMap_map, ← flatMap_ite]
  congr 2
  refine List.flatMap_congr fun m hm => ?_
  have hfiled : j.pipeline.isFiled m.made = reaches (threshold level) m.severity := by
    simp only [Pipeline.isFiled, hlevel, Message.made_severity]
  rw [Journal.filed_fate hfile, hfiled, Journal.filedFault?, hfiled]
  by_cases hreaches : reaches (threshold level) m.severity = true
  · have hiff := (hmessages m hm).lineFault?_eq_none_iff j.rendering.room j.pipeline j.time
    rw [if_pos hreaches]
    simp only [hreaches, Bool.true_and, Option.isNone_iff_eq_none, hiff]
  · simp only [hreaches, Bool.false_and]

/-- A log of which the file can be opened makes records of all messages whose values are those of JSON and
have free names.  The file gets a line for every message that reaches its level and can be written with the
stack there is, in order, each of which tells its message, and nothing else: what it held stands before
them.  Nothing else happens to the files.  All this does not depend on what the console is to show. -/
theorem file_lines {s : LogSettings} {path : Path} (hfile : s.file = some path) {w w' : World}
    {loc : Location} (hopen : (openFile path).exec w = (.ok loc, w')) (logger time : Text)
    {messages : List Message} (hmessages : ∀ m ∈ messages, m.IsLoggable) :
    let budget := w.host.rendering.filed
    ∃ es before lines, messages.mapM Message.emission = .ok es ∧
      (w.files.view loc = some (.file before) ∨ w.files.view loc = none ∧ before = []) ∧
      List.Forall₂ (Message.Tells budget time) (messages.filter fun m =>
        reaches (threshold s.level) m.severity && m.isWritable budget) lines ∧
      ∀ (s' : LogSettings) (quiet : Bool), s'.file = s.file → s'.level = s.level →
        ∃ j, (openJournal s' quiet logger time).exec w = (.ok j, w') ∧
          (j.writeAll w'.files es).2.view = Function.update w'.files.view loc
            (some (.file (before ++ Utf8.encodeAll (lines.flatMap (· ++ "\n"))))) := by
  intro budget
  obtain ⟨before, hbefore, hview⟩ := view_openFile hopen
  -- the console has no part in what is written
  generalize hfields : (fun m : Message =>
    (Value.object ((⟨some s.level, none⟩ : Pipeline).fields time m.made)).render .line) = text
  refine ⟨_, before, (messages.filter fun m => reaches (threshold s.level) m.severity &&
      m.isWritable budget).map text, Message.mapM_emission hmessages, hbefore, ?_,
    fun s' quiet hfile' hlevel => ?_⟩
  · rw [List.forall₂_map_right_iff, List.forall₂_same]
    intro m hm
    obtain ⟨hmem, hkept⟩ := List.mem_filter.mp hm
    rw [← hfields]
    exact (hmessages m hmem).tells w.host.rendering.room (Bool.and_eq_true_iff.mp hkept).2 _ time
  · have hopened : Opened s' quiet logger time w
        ⟨logger, ⟨some s'.level, consoleOf s' quiet⟩, w.host.rendering, some loc, time, []⟩ w' :=
      .filed (hfile'.trans hfile) hopen
    refine ⟨_, exec_openJournal_ok_iff.mpr hopened, ?_⟩
    rw [view_writeAll_made rfl _ hmessages, FileSystem.grow_of_file hview, hlevel, List.flatMap_map,
      ← hfields]
    rfl

/-- At the level of warnings a file gets the lines of an event and of a text of two lines, and not the one
of a remark between them. -/
theorem file_lines_sample :
    let w := World.still (.directory []) fun _ => .interruption
    let s : LogSettings := ⟨.warn, some (Path.ofText "a.log"), 0⟩
    let messages : List Message := [.native "app" .error "failed" [("part", .int 1)]
        [("part", .string "a\nb"), ("name", .null)],
      .foreign "lib" .info "remark", .foreign [] .warning "two\nlines"]
    (∀ m ∈ messages, m.IsLoggable) ∧
      ∃ loc w', (openFile (Path.ofText "a.log")).exec w = (.ok loc, w') ∧
        ∃ (es : List Emission) (lines : List Text) (j : Journal),
          messages.mapM Message.emission = .ok es ∧ lines.length = 2 ∧
          (openJournal s true "app" "now").exec w = (.ok j, w') ∧
          (j.writeAll w'.files es).2.view loc =
            some (.file (Utf8.encodeAll (lines.flatMap (· ++ "\n")))) := by
  intro w s messages
  have hvalues : ∀ n ∈ [(("part" : Text), Value.int 1), ("part", .string "a\nb"), ("name", .null)],
      n.2.IsExact := by
    rw [List.forall_mem_cons, List.forall_mem_cons, List.forall_mem_singleton]
    exact ⟨.int 1, .string _, .null⟩
  have hloggable : ∀ m ∈ messages, m.IsLoggable := by
    rw [List.forall_mem_cons, List.forall_mem_cons, List.forall_mem_singleton]
    exact ⟨.native (by decide) (by decide) (by decide) (by decide) (by decide) hvalues,
      .foreign _ _ _, .foreign _ _ _⟩
  obtain ⟨w', hopen⟩ : ∃ w', (openFile (Path.ofText "a.log")).exec w = (.ok ["a.log"], w') := ⟨_, rfl⟩
  obtain ⟨es, before, lines, hes, hbefore, hlines, hall⟩ :=
    file_lines (s := s) rfl hopen "app" "now" hloggable
  obtain ⟨j, hjournal, hview⟩ := hall s true rfl rfl
  have hnew : before = [] := by
    have hnone : w.files.view [("a.log" : Text)] = none := by decide
    rw [hnone] at hbefore
    rcases hbefore with hthere | ⟨-, hnew⟩
    · cases hthere
    · exact hnew
  have hcount : (messages.filter fun m => reaches (threshold .warn) m.severity &&
      m.isWritable w.host.rendering.filed).length = 2 := by decide
  refine ⟨hloggable, _, _, hopen, es, lines, j, hes, hlines.length_eq.symm.trans hcount, hjournal, ?_⟩
  rw [hview, Function.update_self, hnew, List.nil_append]

/-- Neither a failure with an integer of too many digits nor one with a list that is nested too deeply gets
a line, though both reach the level of the file. -/
theorem unwritten :
    let w := World.still (.directory []) fun _ => .interruption
    let s : LogSettings := ⟨.info, some (Path.ofText "a.log"), 0⟩
    let deep : Value := (fun v => .list [v])^[966] .null
    let messages : List Message := [.native "app" .error "long" []
        [("n", .int (Json.digitBound Json.integerLimit))], .native "app" .error "deep" [] [("v", deep)]]
    (∀ m ∈ messages, m.IsLoggable ∧ reaches (threshold s.level) m.severity = true) ∧
      ∃ es j w', messages.mapM Message.emission = .ok es ∧
        (openJournal s false "app" "now").exec w = (.ok j, w') ∧ j.file = some [("a.log" : Text)] ∧
        (j.writeAll w'.files es).2.view [("a.log" : Text)] = some (.file []) := by
  intro w s deep messages
  have hdeep : deep.IsExact := by
    refine Function.Iterate.rec Value.IsExact .null (fun v hv => ?_) 966
    exact .list (List.forall_mem_singleton.mpr hv)
  have hone : ∀ {v : Value}, v.IsExact → ∀ {event name : Text}, name ∈ [("n" : Text), "v"] →
      (Message.native "app" .error event [] [(name, v)]).IsLoggable := by
    intro v hv event name hname
    have hfree : ∀ name ∈ [("n" : Text), "v"], name ∉ factNames ++ directiveNames ++ ownNames ∧
        name ∉ ungivenNames := by decide
    exact .native List.nodup_nil (List.nodup_singleton name)
      (List.forall_mem_singleton.mpr (hfree name hname).1) (List.forall_mem_nil _)
      (List.forall_mem_singleton.mpr (hfree name hname).2) (List.forall_mem_singleton.mpr hv)
  have hloggable : ∀ m ∈ messages, m.IsLoggable := by
    rw [List.forall_mem_cons, List.forall_mem_singleton]
    exact ⟨hone (.int _) (by decide), hone hdeep (by decide)⟩
  have hreaches : ∀ m ∈ messages, reaches (threshold s.level) m.severity = true := by
    rw [List.forall_mem_cons, List.forall_mem_singleton]
    exact ⟨rfl, rfl⟩
  refine ⟨fun m hm => ⟨hloggable m hm, hreaches m hm⟩, _, _, _,
    Message.mapM_emission hloggable, rfl, rfl, ?_⟩
  have hnone : messages.filter (fun m => reaches (threshold s.level) m.severity &&
      m.isWritable w.host.rendering.filed) = [] := by decide +kernel
  rw [view_writeAll_made rfl _ hloggable]
  show FileSystem.grow _ (Utf8.encodeAll ((messages.filter _).flatMap _)) _ _ = _
  rw [hnone]
  rfl

end EditorDocs.Log
