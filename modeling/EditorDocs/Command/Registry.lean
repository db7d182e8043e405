import EditorDocs.Command.Basic
/-!
# The commands that can be called

A registry holds commands under their names, in the order in which the names first came. A name is
taken once: another command under it is refused unless it is meant to take the place of the first.
-/

namespace EditorDocs

/-- Commands by name. -/
structure Registry where
  /-- The commands, in the order in which their names first came. -/
  commands : Table Text Command

namespace Registry

/-- The registry without commands. -/
def empty : Registry := ⟨[]⟩

/-- There is a command of the name. -/
def has (r : Registry) (name : Text) : Bool := r.commands.has name

/-- The number of commands. -/
def count (r : Registry) : Nat := r.commands.length

/-- The registry with a command; with `replaces` it may take the place of another one. -/
def register (r : Registry) (c : Command) (replaces : Bool) : Except Failure Registry :=
  if r.has c.name && !replaces then .error (.duplicateCommand c.name)
  else .ok ⟨r.commands.put c.name c⟩

/-- The command of a name. -/
def get (r : Registry) (name : Text) : Except Failure Command :=
  match r.commands.get? name with
  | some c => .ok c
  | none => .error (.unknownCommand name r.commands.keys)

/-- What the registry reports. -/
def report (event : Text) (context : Context) : Action Unit :=
  Action.report ⟨.info, event,
    Context.bind [("component", .string "command_registry")] context, none⟩

/-- The outcome of a call by name. -/
def dispatch (r : Registry) (name : Text) (args : List Text) : Action Outcome := do
  let c ← Action.ofExcept (r.get name)
  report "command.dispatch" [("command", .string name), ("args", .int args.length)]
  c.call args

/-- The commands with one more, behind those whose names come no later. -/
def insertByName (c : Command) : List Command → List Command
  | [] => [c]
  | d :: rest => if c.name.le d.name then c :: d :: rest else d :: insertByName c rest

/-- The commands in the order of their names. -/
def sortByName : List Command → List Command
  | [] => []
  | c :: rest => insertByName c (sortByName rest)

/-- All commands, in the order of their names. -/
def listAll (r : Registry) : List Command := sortByName (r.commands.map Prod.snd)

/-- The registry as it is shown. -/
def shown (r : Registry) : Text :=
  ("<CommandRegistry(" : Text) ++ Text.ofNat r.count ++ " commands)>"

end Registry

end EditorDocs
