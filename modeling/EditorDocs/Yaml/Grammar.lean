import EditorDocs.Table
import EditorDocs.Yaml.Graph
import EditorDocs.Yaml.Lexer
/-!
# From tokens to nodes

A text holds one document at most. Its grammar is read from the tokens by recursive descent: `node`
reads one node and is handed down to the readers of the collections as `entry`, so that the depth
of nesting is what the recursion runs on. A node that has been read is known by its number; a
collection has its number before its parts are read, so that a reference to it can be one of them.
-/

namespace EditorDocs.Yaml

/-! ## State -/

/-- What a reader of nodes carries along. -/
structure Progress where
  /-- The tokens that are left. -/
  tokens : List Token
  /-- The fault behind the last token, if there is one. -/
  fault : Option Failure
  /-- What the handles of tags stand for. -/
  handles : Table Text Text
  /-- The nodes that have names. -/
  anchors : Table Text NodeId
  /-- All nodes so far. -/
  graph : Graph

/-- A reader of a part of a document. -/
abbrev Reader := StateT Progress (Except Failure)

namespace Reader

/-- The reader that refuses the document. -/
def refuse {α : Type} : Reader α := throw .malformedConfiguration

/-- The next token; none at the end of the text. -/
def peek : Reader (Option Token) := do
  let s ← get
  match s.tokens, s.fault with
  | t :: _, _ => pure (some t)
  | [], some f => throw f
  | [], none => pure none

/-- The next token is behind. -/
def skip : Reader Unit := modify fun s => { s with tokens := s.tokens.tail }

/-- The next token satisfies `p`. -/
def sees (p : Token → Bool) : Reader Bool := do
  match ← peek with
  | some t => pure (p t)
  | none => pure false

/-- The next token is one of the given ones. -/
def seesOneOf (ts : List Token) : Reader Bool := sees fun t => ts.contains t

/-- The next token, which has to be `t`, is behind. -/
def expect (t : Token) : Reader Unit := do
  if ← seesOneOf [t] then skip else refuse

/-! ## Properties of a node -/

/-- The name that a tag stands for. -/
def tagName (handle : Option Text) (suffix : Text) : Reader Text := do
  match handle with
  | none => pure suffix
  | some h => match Table.get? h (← get).handles with
    | some expansion => pure (expansion ++ suffix)
    | none => refuse

/-- The anchor and the tag in front of a node, in either order. -/
def properties : Reader (Option Text × Option Text) := do
  match ← peek with
  | some (.anchor name) =>
    skip
    match ← peek with
    | some (.tag handle suffix) =>
      skip
      pure (some name, some (← tagName handle suffix))
    | _ => pure (some name, none)
  | some (.tag handle suffix) =>
    skip
    match ← peek with
    | some (.anchor name) =>
      skip
      pure (some name, some (← tagName handle suffix))
    | _ => pure (none, some (← tagName handle suffix))
  | _ => pure (none, none)

/-- The tag of a collection, or the given one if it has none of its own. -/
def collectionTag (default : Tag) : Option Text → Tag
  | none => default
  | some name => if name = ("!" : Text) then default else Tag.ofText name

/-- The tag of a scalar. A plain scalar without tag is taken for what it looks like, and so is every
scalar with the tag `!`. -/
def scalarTag (text : Text) (plain : Bool) : Option Text → Tag
  | none => if plain then resolve text else .str
  | some name => if name = ("!" : Text) then resolve text else Tag.ofText name

/-! ## Numbers and names of nodes -/

/-- A node is given the next number. -/
def add (n : Node) : Reader NodeId :=
  modifyGet fun s => (s.graph.size, { s with graph := s.graph.push n })

/-- The node that stands where nothing is written. -/
def nothing : Reader NodeId := add .nothing

/-- The node under a name. -/
def named (name : Text) : Reader NodeId := do
  match Table.get? name (← get).anchors with
  | some id => pure id
  | none => refuse

/-- The name, if there is one, can be given; a name is given once. -/
def checkName (anchor : Option Text) : Reader Unit := do
  match anchor with
  | some name => if Table.has name (← get).anchors then refuse else pure ()
  | none => pure ()

/-- The node goes by the name, if there is one, from now on. -/
def giveName (anchor : Option Text) (id : NodeId) : Reader Unit :=
  match anchor with
  | some name => modify fun s => { s with anchors := s.anchors.put name id }
  | none => pure ()

/-- A scalar that may have a name. -/
def scalar (anchor : Option Text) (tag : Tag) (text : Text) : Reader NodeId := do
  let id ← add (.scalar tag text)
  giveName anchor id
  pure id

/-- A collection that may have a name, with its parts. -/
def collection {α : Type} (anchor : Option Text) (make : α → Node) (parts : Reader α) :
    Reader NodeId := do
  let id ← add .nothing
  giveName anchor id
  let n := make (← parts)
  modify fun s => { s with graph := s.graph.setNode id n }
  pure id

/-! ## Collections -/

/-- The contexts in which a node stands. -/
inductive Place where
  /-- Within brackets. -/
  | flow
  /-- In a block. -/
  | block
  /-- In a block mapping, where the dashes of a sequence need not be indented. -/
  | blockMapping
  deriving DecidableEq

/-- The node that follows, or nothing if one of the given tokens comes first. -/
def unlessBefore (stops : List Token) (entry : Reader NodeId) : Reader NodeId := do
  if ← seesOneOf stops then nothing else entry

variable (entry : Place → Reader NodeId)

/-- The entries of a block sequence, each behind its dash; `stops` may stand where an entry is
empty. -/
def blockItems (stops : List Token) : Nat → Reader (List NodeId)
  | 0 => refuse
  | rounds + 1 => do
    if ← seesOneOf [.blockEntry] then
      skip
      let n ← unlessBefore stops (entry .block)
      pure (n :: (← blockItems stops rounds))
    else pure []

/-- The value of a key, behind its mark. -/
def mappedValue (stops : List Token) (place : Place) : Reader NodeId := do
  if ← seesOneOf [.value] then
    skip
    unlessBefore stops (entry place)
  else nothing

/-- The entries of a block mapping. -/
def blockEntries : Nat → Reader (List (NodeId × NodeId))
  | 0 => refuse
  | rounds + 1 => do
    if ← seesOneOf [.key] then
      skip
      let stops : List Token := [.key, .value, .blockEnd]
      let k ← unlessBefore stops (entry .blockMapping)
      let v ← mappedValue entry stops .blockMapping
      pure ((k, v) :: (← blockEntries rounds))
    else pure []

/-- An entry of a flow sequence: a node, or a key with its value. -/
def flowItem : Reader NodeId := do
  if ← seesOneOf [.key] then
    collection none (fun e => .mapping .map [e]) do
      skip
      let k ← unlessBefore [.value, .flowEntry, .flowSequenceEnd] (entry .flow)
      let v ← mappedValue entry [.flowEntry, .flowSequenceEnd] .flow
      pure (k, v)
  else entry .flow

/-- The entries of a flow sequence and its closing bracket. -/
def flowItems (isFirst : Bool) : Nat → Reader (List NodeId)
  | 0 => refuse
  | rounds + 1 => do
    if ← seesOneOf [.flowSequenceEnd] then
      skip
      pure []
    else
      if !isFirst then expect .flowEntry
      if ← seesOneOf [.flowSequenceEnd] then
        skip
        pure []
      else
        let n ← flowItem entry
        pure (n :: (← flowItems false rounds))

/-- The entries of a flow mapping and its closing brace. A node without the mark of a key is a key
without a value. -/
def flowEntries (isFirst : Bool) : Nat → Reader (List (NodeId × NodeId))
  | 0 => refuse
  | rounds + 1 => do
    if ← seesOneOf [.flowMappingEnd] then
      skip
      pure []
    else
      if !isFirst then expect .flowEntry
      if ← seesOneOf [.flowMappingEnd] then
        skip
        pure []
      else if ← seesOneOf [.key] then
        skip
        let k ← unlessBefore [.value, .flowEntry, .flowMappingEnd] (entry .flow)
        let v ← mappedValue entry [.flowEntry, .flowMappingEnd] .flow
        pure ((k, v) :: (← flowEntries false rounds))
      else
        let k ← entry .flow
        let v ← nothing
        pure ((k, v) :: (← flowEntries false rounds))

/-- The content of a node, whose properties have been read. -/
def content (place : Place) (anchor tag : Option Text) : Reader NodeId := do
  let rounds := (← get).tokens.length + 1
  let isBlock := place ≠ .flow
  match ← peek with
  | some (.scalar text plain) =>
    skip
    scalar anchor (scalarTag text plain tag) text
  | some .flowSequenceStart =>
    skip
    collection anchor (.sequence (collectionTag .seq tag)) (flowItems entry true rounds)
  | some .flowMappingStart =>
    skip
    collection anchor (.mapping (collectionTag .map tag)) (flowEntries entry true rounds)
  | some .blockSequenceStart =>
    if isBlock then
      skip
      collection anchor (.sequence (collectionTag .seq tag)) do
        let items ← blockItems entry [.blockEntry, .blockEnd] rounds
        expect .blockEnd
        pure items
    else blank
  | some .blockMappingStart =>
    if isBlock then
      skip
      collection anchor (.mapping (collectionTag .map tag)) do
        let entries ← blockEntries entry rounds
        expect .blockEnd
        pure entries
    else blank
  | some .blockEntry =>
    if place = .blockMapping then
      collection anchor (.sequence (collectionTag .seq tag))
        (blockItems entry [.blockEntry, .key, .value, .blockEnd] rounds)
    else blank
  | _ => blank
where
  /-- A node that consists of its properties only. -/
  blank : Reader NodeId :=
    if anchor.isSome || tag.isSome then scalar anchor (scalarTag [] true tag) [] else refuse

end Reader

open Reader

/-- A node with its properties, nested at most as deep as the first argument says. -/
def Reader.node : Nat → Place → Reader NodeId
  | 0, _ => throw .tooDeep
  | budget + 1, place => do
    match ← peek with
    | some (.alias name) =>
      skip
      named name
    | _ =>
      let (anchor, tag) ← properties
      -- what follows the properties is looked at before the name is given
      let _ ← peek
      checkName anchor
      content (node budget) place anchor tag

/-! ## Documents -/

namespace Reader

/-- The handles that always stand for something. -/
def standardHandles : Table Text Text := [("!", "!"), ("!!", tagBase)]

/-- The directives at the head of a document. Each version and handle is given once. -/
def directives (hasVersion : Bool) : Nat → Reader Unit
  | 0 => refuse
  | rounds + 1 => do
    match ← peek with
    | some (.directive d) =>
      skip
      match d with
      | .version major =>
        if hasVersion || major ≠ 1 then refuse else directives true rounds
      | .handle name expansion =>
        if Table.has name (← get).handles then refuse
        else
          modify fun s => { s with handles := s.handles.put name expansion }
          directives hasVersion rounds
      | .other => directives hasVersion rounds
    | _ => pure ()

/-- The token is a directive. -/
def isDirective : Token → Bool
  | .directive _ => true
  | _ => false

/-- The node of a document whose start is marked, with nodes nested at most `budget` deep. -/
def markedDocument (budget : Nat) : Reader NodeId := do
  directives false ((← get).tokens.length + 1)
  expect .documentStart
  modify fun s =>
    { s with handles := s.handles ++ standardHandles.filter fun (h, _) => !s.handles.has h }
  match ← peek with
  | none | some .documentStart | some .documentEnd => nothing
  | some t => if isDirective t then nothing else node budget .block

/-- The marks of the end of a document, and then the end of the text. There must be no other
document; but the directives at the head of one are read before it is refused. -/
def ending : Nat → Reader Unit
  | 0 => refuse
  | rounds + 1 => do
    match ← peek with
    | none => pure ()
    | some .documentEnd =>
      skip
      ending rounds
    | some _ =>
      modify fun s => { s with handles := [] }
      directives false ((← get).tokens.length + 1)
      refuse

/-- The only document of a text, with nodes nested at most `budget` deep; none if the text is
empty. -/
def document (budget : Nat) : Reader (Option NodeId) := do
  match ← peek with
  | none => pure none
  | some t =>
    let n ←
      if isDirective t || t = .documentStart then markedDocument budget
      else do
        modify fun s => { s with handles := standardHandles }
        node budget .block
    ending ((← get).tokens.length + 1)
    pure (some n)

end Reader

/-- The nodes of a document, nested at most `budget` deep, and the number of the outermost one; none
if there is no node. -/
def Graph.ofSource (budget : Nat) (s : Source) : Except Failure (Option (NodeId × Graph)) := do
  let (tokens, fault) := tokens s
  let (root, s) ← (Reader.document budget).run ⟨tokens, fault, [], [], #[]⟩
  pure (root.map fun id => (id, s.graph))

end EditorDocs.Yaml
