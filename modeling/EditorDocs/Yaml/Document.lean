import EditorDocs.Yaml.Grammar
import EditorDocs.Yaml.Value
/-!
# What a document says

The values that the nodes of a document stand for. A scalar is read as its tag says. A collection is
at first only known to be one; what is in it is found out after all that was begun before it, so
that of several faults the one that lies least deep decides, and of those at the same depth the
first one. A key has to be a scalar, which shows before anything within it is looked at. Of entries
with the same key the last one counts.

Collections refer to one another by numbers, as the nodes do. `Document.data` opens them to a
depth, since a collection may contain itself.
-/

namespace EditorDocs.Yaml

open Config (Data Scalar Mapping)

/-! ## Values -/

/-- The value of a node: a scalar, or the collection of a number. -/
inductive Value where
  /-- A scalar. -/
  | scalar (s : Scalar)
  /-- A collection. -/
  | collection (id : NodeId)

/-- What is in a collection. -/
inductive Collection where
  /-- Items. -/
  | list (items : List Value)
  /-- Items that are pairs. -/
  | pairs (items : List (Value × Value))
  /-- Keys without values. -/
  | set (keys : List Scalar)
  /-- Keys with values. -/
  | mapping (entries : List (Scalar × Value))

/-- What is known of a document so far. -/
structure Reading where
  /-- The nodes. -/
  graph : Graph
  /-- The values of nodes, by number. -/
  values : Array (Option Value)
  /-- The collections that have been begun and not been looked into, the last one first. -/
  begun : List NodeId
  /-- What is in the collections, by number. -/
  collections : Array (Option Collection)

/-- A step of reading values. -/
abbrev Reads := StateT Reading (Except Failure)

namespace Reading

/-- The tag is one of a collection. -/
def isCollectionTag : Tag → Bool
  | .seq | .map | .set | .omap | .pairs => true
  | _ => false

/-- The scalar that a node stands for under a tag that is none of a collection. -/
def scalarOf (g : Graph) (id : NodeId) : Except Failure Scalar := do
  let n := g.node id
  match scalarValue? n.tag [] with
  | none => throw .malformedConfiguration
  | some _ =>
    let t ← g.text id
    match n with
    | .scalar _ _ => pure ()
    | _ => if n.tag = .timestamp then throw .instantOfMapping else pure ()
    match scalarValue? n.tag t with
    | some r => r
    | none => throw .malformedConfiguration

/-- The value of a node. -/
def value (id : NodeId) : Reads Value := fun r =>
  match r.values.getD id none with
  | some v => .ok (v, r)
  | none => do
    if isCollectionTag (r.graph.node id).tag then
      let v := Value.collection id
      pure (v, { r with values := r.values.setIfInBounds id (some v), begun := id :: r.begun })
    else
      let v := Value.scalar (← scalarOf r.graph id)
      pure (v, { r with values := r.values.setIfInBounds id (some v) })

/-- The value of a node that is a key. -/
def key (id : NodeId) : Reads Scalar := do
  match ← value id with
  | .scalar s => pure s
  | .collection _ => throw .malformedConfiguration

/-- The pair that a mapping with one entry is. -/
def pair (id : NodeId) : Reads (Value × Value) := do
  match (← get).graph.node id with
  | .mapping _ [(k, v)] => do pure (← value k, ← value v)
  | _ => throw .malformedConfiguration

/-- The entries of a node, which has to be a mapping. -/
def entries (id : NodeId) : Reads (List (Scalar × Value)) := do
  let r ← get
  match r.graph.node id with
  | .mapping _ _ =>
    let g ← r.graph.complete id
    set { r with graph := g }
    let es ← (g.node id).entries.mapM fun (k, v) => do pure (← key k, ← value v)
    pure (Mapping.ofEntries es)
  | _ => throw .malformedConfiguration

/-- What is in the collection of a node. -/
def contents (id : NodeId) : Reads Collection := do
  let n := (← get).graph.node id
  match n.tag with
  | .map => do pure (.mapping (← entries id))
  | .set => do pure (.set ((← entries id).map Prod.fst))
  | tag =>
    match n with
    | .sequence _ items =>
      if tag = .seq then do pure (.list (← items.mapM value))
      else do pure (.pairs (← items.mapM pair))
    | _ => throw .malformedConfiguration

/-- The collections are looked into, in the order in which they were begun. Every round looks into
one; the ones in `waiting` come before those begun since. -/
def openAll : (rounds : Nat) → (waiting : List NodeId) → Reads Unit
  | 0, _ => pure ()
  | rounds + 1, [] => do
    let r ← get
    match r.begun.reverse with
    | [] => pure ()
    | waiting =>
      set { r with begun := [] }
      openAll rounds waiting
  | rounds + 1, id :: waiting => do
    let c ← contents id
    modify fun r => { r with collections := r.collections.setIfInBounds id (some c) }
    openAll rounds waiting

end Reading

/-! ## Documents -/

/-- What a document says. -/
structure Document where
  /-- The outermost value. -/
  root : Value
  /-- What is in the collections, by number. -/
  collections : Array (Option Collection)

namespace Document

/-- The document that says nothing. -/
def empty : Document := ⟨.scalar .null, #[]⟩

/-- What the document with these nodes says, of which `root` is the outermost one. -/
def ofGraph (root : NodeId) (g : Graph) : Except Failure Document := do
  let start : Reading := ⟨g, .replicate g.size none, [], .replicate g.size none⟩
  let (v, r) ← (do
    let v ← Reading.value root
    -- a round for every collection and one for every time that none is waiting
    Reading.openAll (2 * g.size + 2) []
    pure v : Reads Value).run start
  pure ⟨v, r.collections⟩

/-- What a document says whose nodes are nested at most `budget` deep. -/
def ofSource (budget : Nat) (s : Source) : Except Failure Document := do
  match ← Graph.ofSource budget s with
  | some (root, g) => ofGraph root g
  | none => pure empty

/-- A value of the document as data, with collections opened to a depth. Those that lie deeper are
shown without what is in them. -/
def opened (d : Document) : (depth : Nat) → Value → Data
  | _, .scalar s => .scalar s
  | depth, .collection id =>
    let part (v : Value) : Option Data := match depth with
      | 0 => none
      | depth + 1 => some (d.opened depth v)
    match d.collections.getD id none with
    | some (.list items) => .list (items.filterMap part)
    | some (.pairs items) => .list (items.filterMap fun (k, v) =>
        (part k).bind fun k => (part v).map fun v => .list [k, v])
    | some (.set keys) => .set keys
    | some (.mapping es) => .mapping (es.filterMap fun (k, v) => (part v).map fun v => (k, v))
    | none => .list []

/-- What the document says, with collections opened to a depth. -/
def data (d : Document) (depth : Nat) : Data := d.opened depth d.root

end Document

end EditorDocs.Yaml
