import EditorDocs.Yaml.Resolve
/-!
# The nodes of a document

A document as a table of scalars, sequences and mappings, each with its tag. A collection refers to
its parts by their numbers in the table, so that a node that is referred to more than once is there
once, and a collection can be among its own parts.

Where a scalar is wanted, a mapping is taken for its proper value, which stands under a key of its
own kind. A mapping is completed by the mappings under its merge keys: their entries come before its
own, and of several mappings under one key those of the last one come first, so that the first one
has the last word. Whatever is merged in is completed beforehand; a mapping that is merged into
itself contributes the entries that it has by then.
-/

namespace EditorDocs.Yaml

/-- The number of a node. -/
abbrev NodeId := Nat

/-- A node of a document. -/
inductive Node where
  /-- A scalar. -/
  | scalar (tag : Tag) (text : Text)
  /-- A sequence. -/
  | sequence (tag : Tag) (items : List NodeId)
  /-- A mapping. -/
  | mapping (tag : Tag) (entries : List (NodeId × NodeId))

namespace Node

/-- The node that stands where nothing is written. -/
def nothing : Node := .scalar .null []

instance : Inhabited Node := ⟨nothing⟩

/-- The tag of a node. -/
def tag : Node → Tag
  | .scalar t _ | .sequence t _ | .mapping t _ => t

/-- The entries of a node that is a mapping. -/
def entries : Node → List (NodeId × NodeId)
  | .mapping _ es => es
  | _ => []

/-- The node with another tag. -/
def retag (t : Tag) : Node → Node
  | .scalar _ text => .scalar t text
  | .sequence _ items => .sequence t items
  | .mapping _ es => .mapping t es

/-- The node, if it is a mapping, with other entries. -/
def setEntries (es : List (NodeId × NodeId)) : Node → Node
  | .mapping t _ => .mapping t es
  | n => n

end Node

/-- The nodes of a document. -/
abbrev Graph := Array Node

namespace Graph

/-- The node with a number. -/
def node (g : Graph) (id : NodeId) : Node := g.getD id .nothing

/-- The nodes with another one under a number. -/
def setNode (g : Graph) (id : NodeId) (n : Node) : Graph := g.setIfInBounds id n

/-- The key of an entry has a tag. -/
def keyIs (g : Graph) (t : Tag) (e : NodeId × NodeId) : Bool := (g.node e.1).tag = t

/-! ## Proper values -/

/-- The text that a node is taken for where a scalar is wanted. Every round goes from a mapping to
its proper value. -/
def textAfter (g : Graph) : (rounds : Nat) → NodeId → Except Failure Text
  | 0, _ => .error .tooDeep
  | rounds + 1, id =>
    match g.node id with
    | .scalar _ t => .ok t
    | .mapping _ es => match es.find? (g.keyIs .value) with
      | some (_, v) => g.textAfter rounds v
      | none => .error .malformedConfiguration
    | .sequence _ _ => .error .malformedConfiguration

/-- The text that a node is taken for where a scalar is wanted. A mapping that is its own proper
value has none. -/
def text (g : Graph) (id : NodeId) : Except Failure Text := g.textAfter (g.size + 1) id

/-! ## Completion -/

/-- The first merged value among entries, and the entries without it. -/
def takeMerged? (g : Graph) :
    List (NodeId × NodeId) → Option (NodeId × List (NodeId × NodeId))
  | [] => none
  | e :: rest =>
    if g.keyIs .merge e then some (e.2, rest)
    else (g.takeMerged? rest).map fun (v, rest) => (v, e :: rest)

/-- The number of merged values in all mappings. -/
def mergedCount (g : Graph) : Nat :=
  g.foldl (fun n node => n + (node.entries.filter (g.keyIs .merge)).length) 0

/-- The nodes after the key of the proper value of a mapping has become a text, as which it stands
among the entries. -/
def settleKeys (g : Graph) (id : NodeId) : Graph :=
  (g.node id).entries.foldl
    (fun g e => if g.keyIs .value e then g.setNode e.1 ((g.node e.1).retag .str) else g) g

/-- The nodes after a mapping has been completed. Every round takes a merged value away. -/
def completeAfter : (rounds : Nat) → NodeId → Graph → Except Failure Graph
  | 0, id, g => .ok (g.settleKeys id)
  | rounds + 1, id, g =>
    match g.takeMerged? (g.node id).entries with
    | none => .ok (g.settleKeys id)
    | some (value, rest) => do
      let g := g.setNode id ((g.node id).setEntries rest)
      let entriesOf (value : NodeId) (g : Graph) :
          Except Failure (List (NodeId × NodeId) × Graph) := do
        match g.node value with
        | .mapping _ _ =>
          let g ← completeAfter rounds value g
          pure ((g.node value).entries, g)
        | _ => throw .malformedConfiguration
      let (merged, g) ←
        match g.node value with
        | .sequence _ items =>
          items.foldlM (fun (merged, g) item => do
            let (es, g) ← entriesOf item g
            pure (es ++ merged, g)) ([], g)
        | _ => entriesOf value g
      let g ← completeAfter rounds id g
      pure (g.setNode id ((g.node id).setEntries (merged ++ (g.node id).entries)))

/-- The nodes after a mapping has been completed. -/
def complete (id : NodeId) (g : Graph) : Except Failure Graph :=
  match g.takeMerged? (g.node id).entries with
  | none => .ok (g.settleKeys id)
  | some _ => completeAfter g.mergedCount id g

end Graph

end EditorDocs.Yaml
