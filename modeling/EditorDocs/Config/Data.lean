import EditorDocs.Number.Binary64
import EditorDocs.Text.Utf8
/-!
# Configuration data

What a configuration file, the environment and the options of the command line supply before it is
validated: scalars, lists, sets and mappings, nested to any depth. The keys of a mapping are
scalars. Two keys are the same if they are the same number, whatever kind of number it is written
as, or else if they are equal; a mapping holds a key once and keeps the order in which the keys
first came.
-/

namespace EditorDocs.Config

/-! ## Integers of a word -/

/-- The least integer that a word of 64 bits holds. -/
def leastWord : Int := -0x8000000000000000

/-- The integer fits into a word of 64 bits. -/
def isWord (n : Int) : Bool := leastWord ≤ n && n < 0x8000000000000000

/-! ## Scalars -/

/-- A value without parts. -/
inductive Scalar where
  /-- The absent value. -/
  | null
  /-- A truth value. -/
  | bool (b : Bool)
  /-- An integer. -/
  | int (n : Int)
  /-- A floating point number. -/
  | float (x : Binary64)
  /-- A text. -/
  | text (t : Text)
  /-- Bytes. -/
  | binary (bytes : Bytes)
  /-- A day of the calendar. -/
  | date (year month day : Nat)
  /-- A point in time, as it is shown. -/
  | instant (shown : Text)
  deriving DecidableEq

namespace Scalar

instance : Coe String Scalar := ⟨fun s => .text s⟩

/-- The scalar with truth values and whole numbers written as integers. -/
def canonical : Scalar → Scalar
  | .bool b => .int (if b then 1 else 0)
  | .float x => match x.toInt? with
    | some n => .int n
    | none => .float x
  | s => s

/-- Two scalars are the same key. -/
def same (a b : Scalar) : Bool := a.canonical = b.canonical

/-- The scalar counts as given: it is neither null nor false, not zero, and not empty. -/
def isTruthy : Scalar → Bool
  | .null => false
  | .bool b => b
  | .int n => n != 0
  | .float (.finite _ m _) => m != 0
  | .float _ => true
  | .text t => !t.isEmpty
  | .binary bytes => !bytes.isEmpty
  | .date _ _ _ | .instant _ => true

end Scalar

/-! ## Data -/

/-- Data of a configuration. -/
inductive Data where
  /-- A value without parts. -/
  | scalar (s : Scalar)
  /-- A list. -/
  | list (items : List Data)
  /-- Keys without values. -/
  | set (keys : List Scalar)
  /-- Keys with values, in the order in which the keys first came. -/
  | mapping (entries : List (Scalar × Data))

/-- Keys with values, in the order in which the keys first came. -/
abbrev Mapping := List (Scalar × Data)

namespace Mapping

variable {α : Type}

/-- The value under a key. -/
def get? (key : Scalar) : List (Scalar × α) → Option α
  | [] => none
  | (k, v) :: rest => if k.same key then some v else get? key rest

/-- The mapping with `value` under `key`. A key that is there keeps its place and its form. -/
def put (key : Scalar) (value : α) : List (Scalar × α) → List (Scalar × α)
  | [] => [(key, value)]
  | (k, v) :: rest => if k.same key then (k, value) :: rest else (k, v) :: put key value rest

/-- The mapping that arises when the entries are put one after the other. -/
def ofEntries (entries : List (Scalar × α)) : List (Scalar × α) :=
  entries.foldl (fun m (k, v) => put k v m) []

end Mapping

namespace Data

instance : Inhabited Data := ⟨.scalar .null⟩

/-- A text as data. -/
def text (t : Text) : Data := .scalar (.text t)

/-- The data counts as given: it is not a scalar that does not, and not empty. -/
def isTruthy : Data → Bool
  | .scalar s => s.isTruthy
  | .list items => !items.isEmpty
  | .set keys => !keys.isEmpty
  | .mapping entries => !entries.isEmpty

end Data

end EditorDocs.Config
