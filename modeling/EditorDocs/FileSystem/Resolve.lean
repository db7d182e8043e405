import EditorDocs.FileSystem.Errno
import EditorDocs.FileSystem.Node
/-!
# From paths to locations

A path is followed name by name, from the root if it begins with a slash and from the working
directory otherwise. Empty names and single dots stay where they are and two dots go up, but only a
directory can be gone through in any of these ways; in particular a slash at the end asks for a
directory. A symbolic link on the way is replaced by the path that it stands for, up to a limit.

A name or path is a sequence of bytes. Its text shows those that spell no character as surrogates.

The last name may be absent: the path then leads to a vacancy, in which an entry can be created.
-/

namespace EditorDocs.FileSystem

/-- A file system and the working directory in it. -/
structure State where
  /-- The root directory. -/
  root : Node
  /-- Where relative paths begin. -/
  home : Location

/-- Where a path leads. -/
inductive Place where
  /-- To a node. -/
  | object (location : Location) (node : Node)
  /-- To a name that is absent from a directory, possibly with slashes behind it. -/
  | vacancy (parent : Location) (name : Name) (slashed : Bool)

/-- How a path is followed. -/
structure Manner where
  /-- A symbolic link at the end is replaced, too. -/
  followsLast : Bool
  /-- The path names a file that is to be written, so that it cannot end in a slash. -/
  writes : Bool

/-- The manner in which something is looked up. -/
def Manner.lookup : Manner := ⟨true, false⟩

/-- The manner in which a file is opened for writing. -/
def Manner.write : Manner := ⟨true, true⟩

/-- The manner in which an entry itself is created, moved or deleted. -/
def Manner.entry : Manner := ⟨false, false⟩

/-- The greatest number of bytes in a name. -/
def nameLimit : Nat := 255

/-- The greatest number of bytes in a path. -/
def pathLimit : Nat := 4095

/-- The greatest number of symbolic links on the way. -/
def linkLimit : Nat := 40

/-- A surrogate that stands for a byte that is no part of a character. -/
def isEscapedByte (c : CodePoint) : Bool := 0xDC80 ≤ c.val && c.val ≤ 0xDCFF

/-- The number of bytes of a name or path. -/
def byteLength (t : Text) : Nat :=
  t.foldl (fun n c => n + if isEscapedByte c then 1 else (Utf8.encodeNat c.val).length) 0

/-- The bytes of a name or path. -/
def bytesOf (t : Text) : Bytes :=
  t.flatMap fun c =>
    if isEscapedByte c then [UInt8.ofNat (c.val - 0xDC00)] else Utf8.encodeNat c.val

/-- The name or path that bytes spell. Those that are no part of a character stand as surrogates. -/
def ofBytes (bytes : Bytes) : Text :=
  (Utf8.pieces bytes).flatMap fun
    | .char c _ => [c]
    | .fault _ faulty => faulty.map fun b => CodePoint.ofNat (0xDC00 + b.toNat)

/-- A name or path as the system knows it: bytes that spell a character together are that
character. -/
def canonical (t : Text) : Text := if t.any isEscapedByte then ofBytes (bytesOf t) else t

/-- The path begins at the root. -/
def isRooted (path : Text) : Bool := path.startsWith "/"

/-- A single dot. -/
def dot : Name := "."

/-- Two dots. -/
def dotDot : Name := ".."

namespace State

/-- Where names lead from a location, which `onLink` decides for what stands behind a symbolic
link. -/
def walkWith (s : State) (m : Manner) (onLink : Location → List Name → Except Errno Place)
    (loc : Location) : List Name → Except Errno Place
  | [] => match Node.find? loc s.root with
    | some n => .ok (.object loc n)
    | none => .error .noEntry
  | name :: rest =>
    match Node.find? loc s.root with
    | none => .error .noEntry
    | some (.directory entries) =>
      if name.isEmpty || name = dot then walkWith s m onLink loc rest
      else if name = dotDot then walkWith s m onLink loc.dropLast rest
      else if m.writes && !rest.isEmpty && rest.all List.isEmpty then .error .isDirectory
      else if nameLimit < byteLength name then .error .nameTooLong
      else match Table.get? name entries with
        | none =>
          if rest.all List.isEmpty then .ok (.vacancy loc name !rest.isEmpty) else .error .noEntry
        | some (.link target) =>
          if rest.isEmpty && !m.followsLast then .ok (.object (loc ++ [name]) (.link target))
          else onLink (if isRooted target then [] else loc) (target.splitOn '/' ++ rest)
        | some _ => walkWith s m onLink (loc ++ [name]) rest
    | some _ => .error .notDirectory

/-- Where names lead from a location, with so many symbolic links on the way at most. -/
def walk (s : State) (m : Manner) : Nat → Location → List Name → Except Errno Place
  | 0 => walkWith s m fun _ _ => .error .tooManyLinks
  | links + 1 => walkWith s m (walk s m links)

/-- Where a path leads. -/
def locate (s : State) (m : Manner) (path : Text) : Except Errno Place :=
  if path.isEmpty then .error .noEntry
  else if pathLimit < byteLength path then .error .nameTooLong
  else s.walk m linkLimit (if isRooted path then [] else s.home) ((canonical path).splitOn '/')

end State

end EditorDocs.FileSystem
