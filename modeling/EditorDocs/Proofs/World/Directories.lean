import EditorDocs.Proofs.FileSystem.Children
import EditorDocs.Proofs.World.Files

/-!
# Directories that are made on the way

`Files.makeDirectories` goes up from a path as long as there is nothing, and makes the directories on
its way back.  `Files.Makes` says round by round what this does, with one case for each way in which a
round can go (`Files.exec_makeDirectories_makes`), and what is shown of it is shown by induction on the
rounds.  There are three ways in which it can end early (`Files.Hindrance`): a file operation fails, the
path is one that no file can have, or more directories are missing than may be made (`Files.Lacks`), and
then none is made.  However it ends, names stay names.

`Files.makePath` begins with the path itself and goes up only where that fails.  If it succeeds then the
path leads to a directory (`Files.exists_liesAt_of_makePath`).
-/

namespace EditorDocs

/-- Names stay names where something is reported. -/
lemma World.isNamed_report {w : World} (h : w.files.IsNamed) (r : Record) :
    (w.report r).files.IsNamed := by
  unfold report
  cases w.journal with
  | none => exact h
  | some j =>
    simp only [Log.Journal.filesAfter]
    split
    · exact h.append _ _
    · exact h

namespace Files

open FileSystem

/-- There is something at a path, as far as can be seen. -/
def finds (s : State) (path : Text) : Bool := (refusal? path).isNone && (s.lookup path).isOk

/-- Of the directories on the way to a path, more than so many are missing in a row, with the last one
at the path itself. -/
def Lacks (s : State) : Nat → Text → Prop
  | 0, _ => True
  | missing + 1, path =>
    (splitPath path).1 ≠ [] ∧ (splitPath path).2 ≠ [] ∧ finds s (splitPath path).1 = false ∧
      Lacks s missing (splitPath path).1

/-- It can be found out how many directories are missing. -/
instance decidableLacks (s : State) : (missing : Nat) → (path : Text) → Decidable (Lacks s missing path)
  | 0, _ => inferInstanceAs (Decidable True)
  | missing + 1, path =>
    have := decidableLacks s missing (splitPath path).1
    inferInstanceAs (Decidable (_ ∧ _ ∧ _ ∧ _))

/-! ## The parts of a path -/

/-- What stands before the last slash of a path is part of it. -/
lemma mem_of_mem_splitLast {path : Text} {c : CodePoint} (h : c ∈ (splitLast path).1) : c ∈ path :=
  List.mem_of_mem_take (mem_of_mem_dropEndSlashes h)

/-- The path of the directory that holds what a path leads to is part of it. -/
lemma mem_of_mem_splitPath {path : Text} {c : CodePoint} (h : c ∈ (splitPath path).1) : c ∈ path := by
  unfold splitPath at h
  split at h
  · rename_i head hsplit
    have hhead : c ∈ (splitLast path).1 := by
      rw [hsplit]
      exact mem_of_mem_splitLast h
    exact mem_of_mem_splitLast hhead
  · exact mem_of_mem_splitLast h

/-! ## One directory -/

/-- Whether there is something is found without changing anything. -/
lemma exec_isThere (path : Text) (w : World) :
    (isThere path).exec w = (.ok (finds w.files path), w) := rfl

/-- Whether there is a directory is found without changing anything. -/
lemma exec_isDirectory (path : Text) (w : World) :
    (isDirectory path).exec w = (.ok ((refusal? path).isNone && w.files.isDirectory path), w) := rfl

/-- Why the making of directories can end early. -/
inductive Hindrance (s : State) (missing : Nat) (path : Text) : Failure → Prop where
  /-- A file operation has failed. -/
  | system (e : SystemError) : Hindrance s missing path (.system e)
  /-- Too many directories are missing. -/
  | tooDeep (h : Lacks s missing path) : Hindrance s missing path .tooDeep
  /-- No file can have the path, nor the part of it that was to be made. -/
  | refused {part : Text} {f : Failure} (h : ¬ IsPassable path) (hf : refusal? part = some f) :
      Hindrance s missing path f

/-- That a path is refused is no failure of the documentation or of a listing. -/
lemma isDocumentation_of_refusal? {path : Text} {f : Failure} (h : refusal? path = some f) :
    f.isDocumentation = false := by
  rcases cases_of_refusal? h with ⟨run, rfl⟩ | rfl <;> rfl

/-- What hinders the making of directories is no failure of the documentation or of a listing. -/
lemma Hindrance.isDocumentation {s : State} {missing : Nat} {path : Text} {f : Failure}
    (h : Hindrance s missing path f) : f.isDocumentation = false := by
  cases h with
  | system e => rfl
  | tooDeep hlacks => rfl
  | refused hbad hrefused => exact isDocumentation_of_refusal? hrefused

/-- What it does to make a directory at a path unless there is one. -/
inductive Ensures (path : Text) (s : State) : Except Failure Unit → State → Prop where
  /-- The directory is made. -/
  | made {s' : State} (hpath : IsPassable path) (hmake : s.makeDirectory path = .ok s') :
      Ensures path s (.ok ()) s'
  /-- It is there. -/
  | there {e : Errno} (hpath : IsPassable path) (hmake : s.makeDirectory path = .error e)
      (hdirectory : s.isDirectory path = true) : Ensures path s (.ok ()) s
  /-- It cannot be made and is not there. -/
  | failed {e : Errno} (hpath : IsPassable path) (hmake : s.makeDirectory path = .error e)
      (hdirectory : s.isDirectory path = false) :
      Ensures path s (.error (.system ⟨e, path, none⟩)) s
  /-- No file can have the path. -/
  | refused {f : Failure} (hrefused : refusal? path = some f) : Ensures path s (.error f) s

/-- A directory is made unless there is one. -/
lemma exec_ensureDirectory_isDirectory (path : Text) (w : World) :
    ∃ x s, (ensureDirectory isDirectory path).exec w = (x, w.withFiles s) ∧
      Ensures path w.files x s := by
  unfold ensureDirectory makeDirectory
  rw [Action.exec_tryCatch, exec_change]
  cases hrefused : refusal? path with
  | some f =>
    simp only [isSystem_of_refusal? hrefused, Bool.false_eq_true, if_false]
    exact ⟨.error f, w.files, rfl, .refused hrefused⟩
  | none =>
    have hpath := refusal?_eq_none_iff.mp hrefused
    simp only
    cases hmake : silently State.makeDirectory w.files path with
    | ok r =>
      obtain ⟨s', hs', rfl⟩ := Result.of_map hmake
      exact ⟨.ok (), s', rfl, .made hpath hs'⟩
    | error e =>
      have hfailed : w.files.makeDirectory path = .error e := by
        cases hs' : w.files.makeDirectory path with
        | ok s' => simp [silently, hs', Except.map] at hmake
        | error e' => simpa [silently, hs', Except.map] using hmake
      simp only [Failure.isSystem, if_true]
      rw [Action.exec_bind, exec_isDirectory, hrefused, Option.isNone_none, Bool.true_and]
      cases hdirectory : w.files.isDirectory path with
      | true => exact ⟨.ok (), w.files, rfl, .there hpath hfailed hdirectory⟩
      | false => exact ⟨_, w.files, rfl, .failed hpath hfailed hdirectory⟩

/-- If a directory is made unless there is one, there is one in the end. -/
lemma exists_liesAt_of_ensureDirectory {p : Path} (hp : p.IsProper) {w w' : World}
    (h : (ensureDirectory isDirectory? p.text).exec w = (.ok (), w')) :
    ∃ d, w'.files.LiesAt p.text d := by
  unfold ensureDirectory at h
  cases hmake : (makeDirectory p.text).exec w with
  | mk x v =>
    cases x with
    | ok u =>
      rw [Action.exec_tryCatch_ok hmake] at h
      cases h
      obtain ⟨-, s, hs, rfl⟩ := of_change hmake
      obtain ⟨s', hs', hpair⟩ := Result.of_map hs
      cases hpair
      exact State.exists_liesAt_of_makeDirectory hp hs'
    | error f =>
      rw [Action.exec_tryCatch_error hmake] at h
      split at h
      · obtain ⟨found, u, htest, hfound⟩ := Action.of_bind h
        cases found with
        | false => cases hfound
        | true =>
          cases hfound
          obtain ⟨rfl, hdirectory⟩ := of_isDirectory? htest
          exact State.isDirectory_iff.mp hdirectory
      · cases h

/-- If a path is made, it leads to a directory in the end. -/
theorem exists_liesAt_of_makePath {p : Path} (hp : p.IsProper) {w w' : World}
    (h : (makePath p).exec w = (.ok (), w')) : ∃ d, w'.files.LiesAt p.text d := by
  unfold makePath at h
  cases hrounds : p.names.length with
  | zero =>
    rw [hrounds, makePathAfter] at h
    exact exists_liesAt_of_ensureDirectory hp h
  | succ rounds =>
    rw [hrounds, makePathAfter, Action.exec_tryCatch] at h
    split at h
    · rename_i v hensure
      cases h
      exact exists_liesAt_of_ensureDirectory hp hensure
    · -- the last thing that is tried is to make the directory itself
      split at h
      · split at h
        · cases h
        · obtain ⟨u, v, -, hensure⟩ := Action.of_bind h
          exact exists_liesAt_of_ensureDirectory hp hensure
      · cases h

/-! ## All directories -/

/-- The directory that is to hold the one at a path is made, even if it has come in the meantime. -/
def makeHead (missing : Nat) (path : Text) : Action Unit :=
  tryCatch (makeDirectories missing (splitPath path).1) fun
    | .system ⟨.entryExists, _, _⟩ => pure ()
    | e => throw e

/-- There is a way up from a path, and nothing there. -/
def GoesUp (s : State) (path : Text) : Prop :=
  (splitPath path).1 ≠ [] ∧ (splitPath path).2 ≠ [] ∧ finds s (splitPath path).1 = false

/-- The round above is over: the directory is there, or its name was taken. -/
inductive IsPassed : Except Failure Unit → Prop where
  /-- The directory is there. -/
  | done : IsPassed (.ok ())
  /-- The name was taken. -/
  | taken (p : Text) (q : Option Text) : IsPassed (.error (.system ⟨.entryExists, p, q⟩))

/-- What it does to make the directory at a path and those on the way, of which at most so many are
missing. -/
inductive Makes : Nat → Text → State → Except Failure Unit → State → Prop where
  /-- Too many are missing. -/
  | tooDeep {path s} : Makes 0 path s (.error .tooDeep) s
  /-- There is nothing to make above the path. -/
  | here {missing path s x s'} (hup : ¬ GoesUp s path) (h : Ensures path s x s') :
      Makes (missing + 1) path s x s'
  /-- The round above fails. -/
  | stopped {missing path s f s'} (hup : GoesUp s path)
      (hhead : Makes missing (splitPath path).1 s (.error f) s') (hf : ¬ IsPassed (.error f)) :
      Makes (missing + 1) path s (.error f) s'
  /-- The round above is over, and the path is one of the same directory. -/
  | dot {missing path s x s'} (hup : GoesUp s path)
      (hhead : Makes missing (splitPath path).1 s x s') (hx : IsPassed x)
      (hname : (splitPath path).2 = dot) : Makes (missing + 1) path s (.ok ()) s'
  /-- The round above is over, and then it is the turn of the path. -/
  | next {missing path s x s₁ y s'} (hup : GoesUp s path)
      (hhead : Makes missing (splitPath path).1 s x s₁) (hx : IsPassed x)
      (hname : (splitPath path).2 ≠ dot) (h : Ensures path s₁ y s') :
      Makes (missing + 1) path s y s'

/-- A round goes up if there is a way up and nothing there. -/
lemma exec_makeDirectories_succ (missing : Nat) (path : Text) (w : World) :
    (makeDirectories (missing + 1) path).exec w =
      if (splitPath path).1 ≠ [] ∧ (splitPath path).2 ≠ [] ∧ finds w.files (splitPath path).1 = false
      then (makeHead missing path >>= fun _ =>
        if (splitPath path).2 = FileSystem.dot then pure ()
        else ensureDirectory isDirectory path).exec w
      else (ensureDirectory isDirectory path).exec w := by
  have hround : (makeDirectories (missing + 1) path).exec w =
      (if (!(splitPath path).1.isEmpty && !(splitPath path).2.isEmpty &&
          !finds w.files (splitPath path).1) = true
        then makeHead missing path >>= fun _ =>
          if (splitPath path).2 = FileSystem.dot then pure () else ensureDirectory isDirectory path
        else ensureDirectory isDirectory path).exec w := by
    rw [makeDirectories]
    exact Action.exec_bind_ok (exec_isThere _ w)
  rw [hround]
  by_cases hup : (splitPath path).1 ≠ [] ∧ (splitPath path).2 ≠ [] ∧
      finds w.files (splitPath path).1 = false
  · rw [if_pos hup, if_pos (by simpa [and_assoc] using hup)]
  · rw [if_neg hup, if_neg (by simpa [and_assoc] using hup)]

/-- The round above is over, or has failed. -/
lemma exec_makeHead {missing : Nat} {path : Text} {w w' : World} {x : Except Failure Unit}
    (h : (makeDirectories missing (splitPath path).1).exec w = (x, w')) :
    (IsPassed x ∧ (makeHead missing path).exec w = (.ok (), w')) ∨
      ∃ f, x = .error f ∧ ¬ IsPassed x ∧ (makeHead missing path).exec w = (.error f, w') := by
  cases x with
  | ok u => exact Or.inl ⟨.done, Action.exec_tryCatch_ok h⟩
  | error f =>
    rw [makeHead, Action.exec_tryCatch_error h]
    split
    · exact Or.inl ⟨.taken _ _, rfl⟩
    · rename_i hother
      refine Or.inr ⟨f, rfl, ?_, rfl⟩
      rintro ⟨⟩
      exact hother _ _ rfl

/-- Making directories does what it does. -/
theorem exec_makeDirectories_makes (missing : Nat) (path : Text) (w : World) :
    ∃ x s, (makeDirectories missing path).exec w = (x, w.withFiles s) ∧
      Makes missing path w.files x s := by
  induction missing generalizing path with
  | zero => exact ⟨.error .tooDeep, w.files, rfl, .tooDeep⟩
  | succ missing ih =>
    rw [exec_makeDirectories_succ]
    split
    · rename_i hup
      obtain ⟨x, s, hx, hhead⟩ := ih (splitPath path).1
      rcases exec_makeHead hx with ⟨hpassed, hmade⟩ | ⟨f, rfl, hstopped, hfailed⟩
      · rw [Action.exec_bind_ok hmade]
        split
        · rename_i hname
          exact ⟨.ok (), s, rfl, .dot hup hhead hpassed hname⟩
        · rename_i hname
          obtain ⟨y, s', hy, hlast⟩ := exec_ensureDirectory_isDirectory path (w.withFiles s)
          exact ⟨y, s', hy, .next hup hhead hpassed hname hlast⟩
      · exact ⟨.error f, s, Action.exec_bind_error hfailed, .stopped hup hhead hstopped⟩
    · rename_i hup
      obtain ⟨x, s, hx, hlast⟩ := exec_ensureDirectory_isDirectory path w
      exact ⟨x, s, hx, .here hup hlast⟩

/-! ## What hinders it -/

/-- Making one directory can be hindered by the system or by the path, and names stay names. -/
lemma Ensures.hindrance {path : Text} {s s' t : State} {x : Except Failure Unit} (missing : Nat)
    (h : Ensures path s x s') : (s.IsNamed → s'.IsNamed) ∧ ∀ f, x = .error f →
      Hindrance t missing path f := by
  cases h with
  | made hpath hmake => exact ⟨fun hs => hs.makeDirectory hpath.isByteText hmake, by simp⟩
  | there hpath hmake hdirectory => exact ⟨id, by simp⟩
  | failed hpath hmake hdirectory =>
    refine ⟨id, ?_⟩
    rintro f ⟨⟩
    exact .system _
  | refused hrefused =>
    refine ⟨id, ?_⟩
    rintro f ⟨⟩
    refine .refused ?_ hrefused
    rw [← refusal?_eq_none_iff, hrefused]
    exact Option.some_ne_none _

/-- Making directories can be hindered in three ways, and names stay names. -/
lemma Makes.hindrance {missing : Nat} {path : Text} {s s' : State} {x : Except Failure Unit}
    (h : Makes missing path s x s') : (s.IsNamed → s'.IsNamed) ∧ ∀ f, x = .error f →
      Hindrance s missing path f := by
  induction h with
  | tooDeep =>
    refine ⟨id, ?_⟩
    rintro f ⟨⟩
    exact .tooDeep trivial
  | here hup h => exact h.hindrance _
  | stopped hup hhead hf ih =>
    refine ⟨ih.1, ?_⟩
    rintro f ⟨⟩
    cases ih.2 _ rfl with
    | system e => exact .system e
    | tooDeep hlacks => exact .tooDeep ⟨hup.1, hup.2.1, hup.2.2, hlacks⟩
    | refused hbad hrefused =>
      exact .refused (fun hp => hbad (hp.mono fun c hc => mem_of_mem_splitPath hc)) hrefused
  | dot hup hhead hx hname ih => exact ⟨ih.1, by simp⟩
  | next hup hhead hx hname h ih =>
    obtain ⟨hnamed, hhindered⟩ := h.hindrance _
    exact ⟨fun hs => hnamed (ih.1 hs), hhindered⟩

/-- If too many directories are missing none is made. -/
lemma Makes.of_lacks {missing : Nat} {path : Text} {s s' : State} {x : Except Failure Unit}
    (h : Makes missing path s x s') (hlacks : Lacks s missing path) :
    x = .error .tooDeep ∧ s' = s := by
  induction h with
  | tooDeep => exact ⟨rfl, rfl⟩
  | here hup h => exact absurd ⟨hlacks.1, hlacks.2.1, hlacks.2.2.1⟩ hup
  | stopped hup hhead hf ih => exact ih hlacks.2.2.2
  | dot hup hhead hx hname ih =>
    obtain ⟨rfl, -⟩ := ih hlacks.2.2.2
    cases hx
  | next hup hhead hx hname h ih =>
    obtain ⟨rfl, -⟩ := ih hlacks.2.2.2
    cases hx

/-- If too many directories are missing none is made. -/
lemma exec_makeDirectories_of_lacks {missing : Nat} {path : Text} {w : World}
    (h : Lacks w.files missing path) :
    (makeDirectories missing path).exec w = (.error .tooDeep, w) := by
  obtain ⟨x, s, hexec, hmakes⟩ := exec_makeDirectories_makes missing path w
  obtain ⟨rfl, rfl⟩ := hmakes.of_lacks h
  exact hexec

/-- Making directories changes nothing but files, of which the names stay names, and it can be hindered
in three ways. -/
theorem exec_makeDirectories (missing : Nat) (path : Text) (w : World) :
    ∃ x s, (makeDirectories missing path).exec w = (x, w.withFiles s) ∧
      (w.files.IsNamed → s.IsNamed) ∧ ∀ f, x = .error f → Hindrance w.files missing path f := by
  obtain ⟨x, s, hexec, hmakes⟩ := exec_makeDirectories_makes missing path w
  exact ⟨x, s, hexec, hmakes.hindrance⟩

end Files

end EditorDocs
