import EditorDocs.Text.Basic
/-!
# Tokens

A document as a sequence of tokens. Indentation has become brackets: the start and the end of a
block stand where the lines move in and out.
-/

namespace EditorDocs.Yaml

/-- A line at the head of a document that says how to read it. -/
inductive Directive where
  /-- The version of the markup; its first number follows. -/
  | version (major : Nat)
  /-- What a handle of tags stands for. -/
  | handle (name expansion : Text)
  /-- Anything else, which is ignored. -/
  | other
  deriving DecidableEq

/-- A token. -/
inductive Token where
  /-- A directive. -/
  | directive (d : Directive)
  /-- The mark in front of a document. -/
  | documentStart
  /-- The mark behind a document. -/
  | documentEnd
  /-- The start of a sequence by indentation. -/
  | blockSequenceStart
  /-- The start of a mapping by indentation. -/
  | blockMappingStart
  /-- The end of a block. -/
  | blockEnd
  /-- An opening bracket. -/
  | flowSequenceStart
  /-- A closing bracket. -/
  | flowSequenceEnd
  /-- An opening brace. -/
  | flowMappingStart
  /-- A closing brace. -/
  | flowMappingEnd
  /-- The dash in front of an entry. -/
  | blockEntry
  /-- The comma between entries. -/
  | flowEntry
  /-- What follows is a key. -/
  | key
  /-- What follows is a value. -/
  | value
  /-- A reference to an anchor. -/
  | alias (name : Text)
  /-- A name for the node that follows. -/
  | anchor (name : Text)
  /-- A tag for the node that follows, with a handle or in full. -/
  | tag (handle : Option Text) (suffix : Text)
  /-- A scalar, and whether it is written without quotes and indicators. -/
  | scalar (text : Text) (plain : Bool)
  deriving DecidableEq

end EditorDocs.Yaml
