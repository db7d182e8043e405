import EditorDocs.CommandLine.Run
import EditorDocs.Proofs.Table
import EditorDocs.Proofs.World.Action
import Mathlib.Tactic.Lemma

/-!
# Command lines without options

Five commands work with a configuration and a log (`Logged`).  A command line that names one of them,
perhaps with a configuration file, and has its arguments behind two dashes, is read as just that,
whatever the arguments are (`Logged.read_line`), so what it does is the work of that command under
its settings (`Logged.run_line`).
-/

namespace EditorDocs.CommandLine

/-! ## Reading -/

namespace Reading

variable {α β : Type}

/-- What reading gives in a world, and the world after it. -/
def exec (r : Reading α) (w : World) : Except Failure (Except Misuse α) × World :=
  Action.exec (ExceptT.run r) w

@[simp] lemma exec_pure (x : α) (w : World) : (pure x : Reading α).exec w = (.ok (.ok x), w) := rfl

@[simp] lemma exec_ofScan (s : Except Misuse Scan) (w : World) :
    (ofScan s).exec w = (.ok s, w) := by
  cases s <;> rfl

/-- An action that is part of reading is never a misuse. -/
lemma exec_lift {a : Action α} {w w' : World} {x : α} (h : a.exec w = (.ok x, w')) :
    (liftM a : Reading α).exec w = (.ok (.ok x), w') := by
  have hrun : (liftM a : Reading α).exec w = (a >>= fun x => pure (.ok x)).exec w := rfl
  rw [hrun, Action.exec_bind_ok h]
  rfl

/-- What comes next is read in the world after what was read first. -/
lemma exec_bind_ok {r : Reading α} {f : α → Reading β} {w w' : World} {x : α}
    (h : r.exec w = (.ok (.ok x), w')) : (r >>= f).exec w = (f x).exec w' := by
  rw [exec, ExceptT.run_bind, Action.exec_bind_ok h]
  rfl

end Reading

/-! ## Commands with a log -/

/-- A command that works with a configuration and a log, with its arguments. -/
inductive Logged where
  /-- Requests are served. -/
  | serve
  /-- The index of a language is resolved. -/
  | indices (language : Text)
  /-- The tree of a directory is printed. -/
  | tree (path : Text)
  /-- A command is called. -/
  | call (name : Text) (args : List Text)
  /-- Records are deleted. -/
  | cacheClear (languages : List Text)

namespace Logged

/-- The words that name the command. -/
def words : Logged → List Text
  | serve => ["serve"]
  | indices _ => ["indices"]
  | tree _ => ["tree"]
  | call _ _ => ["call"]
  | cacheClear _ => ["cache", "clear"]

/-- The arguments, as they are written. -/
def arguments : Logged → List Text
  | serve => []
  | indices language => [language]
  | tree path => [path]
  | call name args => name :: args
  | cacheClear languages => languages

/-- The option that names a configuration file. -/
def configWords : Option Text → List Text
  | none => []
  | some file => ["-c", file]

/-- The command line that asks for the command, perhaps with a configuration file, and gives no other
option. -/
def line (c : Logged) (file : Option Text) : List Text :=
  c.words ++ (configWords file ++ (("--" : Text) :: c.arguments))

/-- The options where nothing but a configuration file is given. -/
def bare (file : Option Text) : Options := ⟨file.map Path.ofText, 0, none⟩

/-- What the command line asks for. -/
def invocation (file : Option Text) : Logged → Invocation
  | serve => .serve (bare file)
  | indices language => .indices language false (bare file)
  | tree path => .tree (Path.ofText path) false none (bare file)
  | call name args => .call name args (bare file)
  | cacheClear languages => .cacheClear languages (bare file)

/-- A directory whose path no file can have is refused in reading already. -/
def IsPassable : Logged → Prop
  | tree path => Files.refusal? path = none
  | _ => True

/-- The configuration file, if one is named, is there. -/
def IsThere (file : Option Text) (w : World) : Prop :=
  ∀ t, file = some t → Files.refusal? t = none ∧ (w.files.lookup t).isOk

/-! ## Scanning -/

/-- The switches that a command line of this kind gives. -/
def givenOf (file : Option Text) : List (Switch × Text) :=
  match file with
  | none => []
  | some t => [(.config, t)]

/-- The option of the configuration file takes the next text. -/
lemma scan_config {allowed : List Switch} (h : readOption allowed "-c" = .ok ⟨[], some .config⟩)
    (file : Text) (rest : List Text) :
    scan allowed true (("-c" : Text) :: file :: rest) =
      (scan allowed true rest).map fun s => ⟨(.config, file) :: s.given, s.arguments⟩ := by
  rw [scan, if_neg (by decide), if_pos (by decide), h]
  rfl

/-- Behind the two dashes everything is an argument. -/
lemma scan_line {allowed : List Switch} (h : readOption allowed "-c" = .ok ⟨[], some .config⟩)
    (file : Option Text) (arguments : List Text) :
    scan allowed true (configWords file ++ (("--" : Text) :: arguments)) =
      .ok ⟨givenOf file, arguments⟩ := by
  have hdashes : scan allowed true (("--" : Text) :: arguments) = .ok ⟨[], arguments⟩ := by
    rw [scan, if_pos rfl]
  cases file with
  | none => exact hdashes
  | some t =>
    rw [configWords, List.cons_append, List.singleton_append, scan_config h, hdashes]
    rfl

/-- The switches of a command line of this kind make the options where nothing else is given. -/
lemma options_line (file : Option Text) (arguments : List Text) :
    (Scan.mk (givenOf file) arguments).options = bare file := by
  cases file <;> rfl

/-- The switches of a command line of this kind will do if the configuration file is there. -/
lemma exec_checkValues {file : Option Text} {w : World} (h : IsThere file w)
    (arguments : List Text) :
    (checkValues (Scan.mk (givenOf file) arguments).settings).exec w = (.ok (.ok ()), w) := by
  cases file with
  | none => rfl
  | some t =>
    obtain ⟨hpassable, hthere⟩ := h t rfl
    have hpresent : (isPresent t).exec w = (.ok true, w) := by
      rw [isPresent, hpassable, Action.exec_bind, Action.exec_get]
      exact congrArg (fun b => (Except.ok b, w)) hthere
    have hcheck : (checkValue .config t).exec w = (.ok (.ok ()), w) := by
      rw [checkValue, Reading.exec_bind_ok (Reading.exec_lift hpresent)]
      rfl
    change (checkValue .config t >>= fun _ => checkValues []).exec w = _
    rw [Reading.exec_bind_ok hcheck]
    rfl

/-- Behind the name of the command, the arguments are read as they are. -/
lemma exec_readCommand {allowed : List Switch} {args : List Text} {file : Option Text}
    {arguments : List Text} (h : scan allowed true args = .ok ⟨givenOf file, arguments⟩) {w : World}
    (hfile : IsThere file w) (finish : Scan → Reading Invocation) :
    (readCommand allowed finish args).exec w = (finish ⟨givenOf file, arguments⟩).exec w := by
  have hhelp : (Scan.mk (givenOf file) arguments).has .help = false := by
    cases file <;> rfl
  rw [readCommand, h, Reading.exec_bind_ok (Reading.exec_ofScan _ w), hhelp,
    if_neg Bool.false_ne_true, Reading.exec_bind_ok (exec_checkValues hfile arguments)]

/-- A command line of this kind asks for what it says. -/
lemma read_line {c : Logged} (hc : c.IsPassable) {file : Option Text} {w : World}
    (hfile : IsThere file w) :
    (read (c.line file)).exec w = (.ok (.ok (c.invocation file)), w) := by
  cases c with
  | serve =>
    change (readServe (configWords file ++ (("--" : Text) :: []))).exec w = _
    rw [readServe, exec_readCommand (scan_line rfl file _) hfile, options_line]
    rfl
  | indices language =>
    change (readIndices (configWords file ++ (("--" : Text) :: [language]))).exec w = _
    rw [readIndices, exec_readCommand (scan_line rfl file _) hfile]
    cases file <;> rfl
  | tree path =>
    have hpresent : (isPresent path).exec w =
        (.ok (w.files.lookup path).isOk, w) := by
      have hpassable : Files.refusal? path = none := hc
      rw [isPresent, hpassable]
      rfl
    change (readTree (configWords file ++ (("--" : Text) :: [path]))).exec w = _
    rw [readTree, exec_readCommand (scan_line rfl file _) hfile]
    change (liftM (isPresent path) >>= fun _ => _ : Reading Invocation).exec w = _
    rw [Reading.exec_bind_ok (Reading.exec_lift hpresent)]
    cases file <;> rfl
  | call name args =>
    change (readCall (configWords file ++ (("--" : Text) :: name :: args))).exec w = _
    rw [readCall, exec_readCommand (scan_line rfl file _) hfile, options_line]
    rfl
  | cacheClear languages =>
    change (readCacheClear (configWords file ++ (("--" : Text) :: languages))).exec w = _
    rw [readCacheClear, exec_readCommand (scan_line rfl file _) hfile, options_line]
    rfl

/-- The command line that validates a configuration file asks for that. -/
lemma read_validateConfig {file : Text} {w : World} (hfile : IsThere (some file) w) :
    (read ["validate-config", "-c", file]).exec w =
      (.ok (.ok (.validateConfig (Path.ofText file))), w) := by
  have hscan : scan [.help, .config] true ["-c", file] = .ok ⟨givenOf (some file), []⟩ :=
    scan_config rfl file []
  change (readValidateConfig ["-c", file]).exec w = _
  rw [readValidateConfig, exec_readCommand hscan hfile]
  rfl

/-! ## Running -/

/-- The options as configuration data. -/
def data : Logged → Config.Mapping
  | tree _ => (bare none).data ++ treeData false none
  | _ => (bare none).data

/-- What the command does under its settings. -/
def work (input : Bytes) : Logged → Settings → StateM World Ending
  | serve, settings => CommandLine.serve settings input
  | indices language, settings => CommandLine.indices settings language false
  | tree path, settings => CommandLine.tree settings (Path.ofText path)
  | call name args, settings => CommandLine.call settings name args
  | cacheClear languages, settings => CommandLine.cacheClear settings languages

/-- The command loads its settings, opens its log and does its work. -/
lemma perform_invocation (s : Setting) (input : Bytes) (c : Logged) (file : Option Text) :
    perform s input (c.invocation file) =
      withSettings s (file.map Path.ofText) c.data fun settings =>
        withLog s settings (c.work input settings) := by
  cases c <;> rfl

end Logged

/-- What of an ending goes out. -/
def Ending.final (e : Ending) : Ending := { e.print with errors := escapeSurrogates e.errors }

/-- What comes next is done in the world after what came first. -/
lemma bind_apply {α β : Type} (a : StateM World α) (f : α → StateM World β) (w : World) :
    (a >>= f) w = f (a w).1 (a w).2 := rfl

/-- A command line does what it is read as. -/
lemma run_of_read {args : List Text} {w w' : World} {i : Invocation}
    (h : (read args).exec w = (.ok (.ok i), w')) (s : Setting) (input : Bytes) :
    run s args input w = ((perform s input i w').1.final, (perform s input i w').2) := by
  have hread : (read args).run.run w = (.ok (.ok i), w') := h
  unfold run
  rw [bind_apply, hread]
  rfl

/-- A command line without options does the work of its command under its settings. -/
lemma Logged.run_line {c : Logged} (hc : c.IsPassable) {file : Option Text} {w : World}
    (hfile : IsThere file w) (s : Setting) (input : Bytes) :
    run s (c.line file) input w =
      let done := withSettings s (file.map Path.ofText) c.data
        (fun settings => withLog s settings (c.work input settings)) w
      (done.1.final, done.2) := by
  rw [run_of_read (read_line hc hfile), perform_invocation]

end EditorDocs.CommandLine
