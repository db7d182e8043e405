import EditorDocs.Text.Quoted
/-!
# Why a file operation fails

The causes that the operating system reports, each with its number, its description and the kind
under which a failure is filed, and the failure itself, which names the path as it was passed.
-/

namespace EditorDocs

/-- A cause that the operating system reports. -/
inductive Errno where
  /-- Permission is withheld from everyone. -/
  | notPermitted
  /-- The name is absent. -/
  | noEntry
  /-- A signal arrived. -/
  | interrupted
  /-- The device failed. -/
  | inputOutput
  /-- Memory ran out. -/
  | noMemory
  /-- Permission is withheld. -/
  | accessDenied
  /-- The name is taken. -/
  | entryExists
  /-- Something else than a directory stands where one is needed. -/
  | notDirectory
  /-- A directory stands where something else is needed. -/
  | isDirectory
  /-- Too many files are open. -/
  | tooManyFiles
  /-- A name or a path is too long. -/
  | nameTooLong
  /-- Symbolic links lead too far. -/
  | tooManyLinks
  /-- Nothing came in time. -/
  | timedOut
  /-- A remote file has gone. -/
  | stale
  deriving DecidableEq, Repr

namespace Errno

/-- The number of a cause. -/
def number : Errno → Nat
  | .notPermitted => 1
  | .noEntry => 2
  | .interrupted => 4
  | .inputOutput => 5
  | .noMemory => 12
  | .accessDenied => 13
  | .entryExists => 17
  | .notDirectory => 20
  | .isDirectory => 21
  | .tooManyFiles => 24
  | .nameTooLong => 36
  | .tooManyLinks => 40
  | .timedOut => 110
  | .stale => 116

/-- The description of a cause. -/
def description : Errno → Text
  | .notPermitted => "Operation not permitted"
  | .noEntry => "No such file or directory"
  | .interrupted => "Interrupted system call"
  | .inputOutput => "Input/output error"
  | .noMemory => "Cannot allocate memory"
  | .accessDenied => "Permission denied"
  | .entryExists => "File exists"
  | .notDirectory => "Not a directory"
  | .isDirectory => "Is a directory"
  | .tooManyFiles => "Too many open files"
  | .nameTooLong => "File name too long"
  | .tooManyLinks => "Too many levels of symbolic links"
  | .timedOut => "Connection timed out"
  | .stale => "Stale file handle"

/-- The kind under which failures with this cause are filed. -/
def kind : Errno → Text
  | .notPermitted | .accessDenied => "PermissionError"
  | .noEntry => "FileNotFoundError"
  | .interrupted => "InterruptedError"
  | .entryExists => "FileExistsError"
  | .notDirectory => "NotADirectoryError"
  | .isDirectory => "IsADirectoryError"
  | .timedOut => "TimeoutError"
  | .inputOutput | .noMemory | .tooManyFiles | .nameTooLong | .tooManyLinks | .stale => "OSError"

end Errno

/-- A file operation that failed. -/
structure SystemError where
  /-- The cause. -/
  errno : Errno
  /-- The path as it was passed to the operation. -/
  path : Text
  /-- The second path of an operation on two. -/
  second : Option Text := none
  deriving DecidableEq

/-- The wording of a failed file operation. -/
def SystemError.message (e : SystemError) : Text :=
  ("[Errno " : Text) ++ Text.ofNat e.errno.number ++ "] " ++ e.errno.description ++ ": " ++
    e.path.quoted ++
    match e.second with
    | some p => (" -> " : Text) ++ p.quoted
    | none => []

end EditorDocs
