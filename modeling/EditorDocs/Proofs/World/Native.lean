import EditorDocs.Proofs.World.Files

/-!
# Failures of the library

A command that is not of the library may fail in a kind of its own, and only the one who calls a
command by name can fail to find it.  The other actions of the library fail in the other kinds alone
(`Action.IsNative`).  Native actions can be put together, and all file actions are native.
-/

namespace EditorDocs

/-- The failure is of a kind of the library, and not that a command is unknown. -/
def Failure.IsNative : Failure → Prop
  | .foreign _ _ _ _ | .unknownCommand _ _ => False
  | _ => True

namespace Action

variable {α β : Type}

/-- Whatever the world, the action fails in such kinds alone. -/
def IsNative (a : Action α) : Prop := ∀ w w' e, a.exec w = (.error e, w') → e.IsNative

variable {a : Action α} {f : α → Action β}

/-- An action that does not fail is native. -/
lemma isNative_of_ok (h : ∀ w, ∃ x w', a.exec w = (.ok x, w')) : a.IsNative := by
  intro w w' e he
  obtain ⟨x, w'', hx⟩ := h w
  rw [hx] at he
  cases he

/-- To succeed is native. -/
lemma isNative_pure (x : α) : IsNative (pure x : Action α) := isNative_of_ok fun w => ⟨x, w, rfl⟩

/-- To report is native. -/
lemma isNative_report (r : Record) : IsNative (Action.report r) := by
  intro w w' e he
  rw [exec_report] at he
  split at he
  · rename_i hrefused
    cases he
    cases World.isRefusal_refusal? hrefused <;> trivial
  · cases he

/-- To ask for a URL is native. -/
lemma isNative_request (url : Text) : IsNative (Action.request url) :=
  isNative_of_ok fun w => ⟨w.remote url, _, rfl⟩

/-- To ask for the world is native. -/
lemma isNative_get : IsNative (get : Action World) := isNative_of_ok fun w => ⟨w, w, rfl⟩

/-- To ask how numbers are measured is native. -/
lemma isNative_reader : IsNative reader := isNative_of_ok fun w => ⟨w.host.reader, w, rfl⟩

/-- To change the world is native. -/
lemma isNative_modify (g : World → World) : IsNative (modify g : Action Unit) :=
  isNative_of_ok fun w => ⟨(), g w, rfl⟩

/-- To fail in such a kind is native. -/
lemma isNative_throw {e : Failure} (h : e.IsNative) : IsNative (throw e : Action α) := by
  intro w w' e' he
  cases he
  exact h

/-- A pure computation is native if it fails in such kinds alone. -/
lemma isNative_ofExcept {x : Except Failure α} (h : ∀ e, x = .error e → e.IsNative) :
    IsNative (ofExcept x) := by
  intro w w' e he
  rw [exec_ofExcept] at he
  exact h e (congrArg Prod.fst he)

/-- Native actions in a row are native. -/
lemma IsNative.bind (h : a.IsNative) (hf : ∀ x, (f x).IsNative) : (a >>= f).IsNative := by
  intro w w' e he
  rw [exec_bind] at he
  rcases hexec : a.exec w with ⟨e' | x, w''⟩
  all_goals rw [hexec] at he
  · cases he
    exact h w w' e hexec
  · exact hf x w'' w' e he

/-- An action is native with what is done after its failures, if that is. -/
lemma IsNative.tryCatch {g : Failure → Action α} (h : a.IsNative)
    (hg : ∀ e, e.IsNative → (g e).IsNative) : (tryCatch a g).IsNative := by
  intro w w' e he
  rw [exec_tryCatch] at he
  rcases hexec : a.exec w with ⟨e' | x, w''⟩
  all_goals rw [hexec] at he
  · exact hg e' (h w w'' e' hexec) w'' w' e he
  · cases he

end Action

namespace Files

open EditorDocs.Action FileSystem

variable {α : Type}

/-! ## Looking and changing -/

/-- A path is refused in such a kind. -/
lemma isNative_refusal {path : Text} {f : Failure} (h : refusal? path = some f) : f.IsNative := by
  rcases cases_of_refusal? h with ⟨run, rfl⟩ | rfl <;> exact trivial

/-- An operation of the system fails in such a kind. -/
lemma isNative_outcome (path : Text) (second : Option Text) (x : Except Errno α) :
    (Action.ofExcept (outcome path second x)).IsNative := by
  refine isNative_ofExcept fun e he => ?_
  cases x with
  | ok a => cases he
  | error errno =>
    cases he
    exact trivial

/-- To look is native. -/
lemma isNative_look (op : State → Text → Except Errno α) (path : Text) : (look op path).IsNative := by
  unfold look
  split
  · rename_i hrefused
    exact isNative_throw (isNative_refusal hrefused)
  · exact isNative_get.bind fun w => isNative_outcome path none _

/-- To change the files is native. -/
lemma isNative_change (op : State → Text → Except Errno (α × State)) (path : Text) :
    (change op path).IsNative := by
  unfold change
  split
  · rename_i hrefused
    exact isNative_throw (isNative_refusal hrefused)
  · refine isNative_get.bind fun w => (isNative_outcome path none _).bind fun changed => ?_
    exact (isNative_modify _).bind fun _ => isNative_pure changed.1

/-- To ask whether there is something at a path is native. -/
lemma isNative_isThere (path : Text) : (isThere path).IsNative :=
  isNative_get.bind fun _ => isNative_pure _

/-- To ask whether there is a directory at a path is native. -/
lemma isNative_isDirectory (path : Text) : (isDirectory path).IsNative :=
  isNative_get.bind fun _ => isNative_pure _

/-- To ask whether something exists is native. -/
lemma isNative_exists? (path : Text) : (exists? path).IsNative := by
  unfold exists?
  split
  · exact isNative_pure false
  · refine isNative_get.bind fun w => ?_
    split
    · exact isNative_pure true
    · split
      · exact isNative_pure false
      · exact isNative_throw trivial

/-- To ask whether something is a directory is native. -/
lemma isNative_isDirectory? (path : Text) : (isDirectory? path).IsNative := by
  refine (isNative_exists? path).bind fun found => ?_
  cases found with
  | true => exact isNative_isDirectory path
  | false => exact isNative_pure false

/-! ## Directories -/

/-- To make a directory unless there is one is native. -/
lemma isNative_ensureDirectory {test : Text → Action Bool} {path : Text}
    (htest : (test path).IsNative) : (ensureDirectory test path).IsNative := by
  refine (isNative_change _ path).tryCatch fun e he => ?_
  split
  · refine htest.bind fun found => ?_
    split
    · exact isNative_pure ()
    · exact isNative_throw he
  · exact isNative_throw he

/-- To make a directory and those on the way to it is native. -/
lemma isNative_makeDirectories (missing : Nat) (path : Text) :
    (makeDirectories missing path).IsNative := by
  induction missing generalizing path with
  | zero => exact isNative_throw trivial
  | succ missing ih =>
    have hensure := isNative_ensureDirectory (isNative_isDirectory path)
    unfold makeDirectories
    generalize splitPath path = parts
    refine (isNative_isThere parts.1).bind fun found => ?_
    simp only
    split
    · refine IsNative.bind ((ih _).tryCatch fun e he => ?_) fun _ => ?_
      · split
        · exact isNative_pure ()
        · exact isNative_throw he
      · split
        · exact isNative_pure ()
        · exact hensure
    · exact hensure

/-- To make a path is native. -/
lemma isNative_makePath (p : Path) : (makePath p).IsNative := by
  have hensure : ∀ q : Path, (ensureDirectory isDirectory? q.text).IsNative :=
    fun q => isNative_ensureDirectory (isNative_isDirectory? q.text)
  -- for all paths at once, since a round asks for the parent of its path
  have hafter : ∀ (rounds : Nat) (q : Path), (makePathAfter rounds q).IsNative := by
    intro rounds
    induction rounds with
    | zero => exact hensure
    | succ rounds ih =>
      intro q
      refine (hensure q).tryCatch fun e he => ?_
      split
      · split
        · exact isNative_throw he
        · exact (ih q.parent).bind fun _ => hensure q
      · exact isNative_throw he
  exact hafter _ p

/-! ## Files -/

/-- To read a file is native. -/
lemma isNative_read (path : Text) : (read path).IsNative := isNative_look State.read path

/-- To open a file for writing is native. -/
lemma isNative_openForWriting (truncates : Bool) (path : Text) :
    (openForWriting truncates path).IsNative := isNative_change _ path

/-- To give an open file a text is native. -/
lemma isNative_storeText (loc : Location) (t : Text) : (storeText loc t).IsNative := by
  unfold storeText
  split
  · exact isNative_modify _
  · exact isNative_throw trivial

/-- To delete a file if there is one is native. -/
lemma isNative_discard (path : Text) : (discard path).IsNative := by
  have hunlink : (unlink path).IsNative :=
    (isNative_change State.unlink path).bind fun _ => isNative_modify _
  refine hunlink.tryCatch fun e he => ?_
  split
  · exact isNative_pure ()
  · exact isNative_throw he

/-- To move a file is native. -/
lemma isNative_replace (source target : Text) : (replace source target).IsNative := by
  have hrefused : ∀ f, ((refusal? source).orElse fun _ => refusal? target) = some f →
      f.IsNative := by
    intro f hf
    cases hsource : refusal? source with
    | some g =>
      rw [hsource] at hf
      cases hf
      exact isNative_refusal hsource
    | none =>
      rw [hsource] at hf
      exact isNative_refusal hf
  unfold replace
  split
  · rename_i f hf
    exact isNative_throw (hrefused f hf)
  · refine isNative_get.bind fun w => (isNative_outcome source (some target) _).bind fun moved => ?_
    refine (isNative_modify _).bind fun _ => ?_
    split
    · exact isNative_modify _
    · exact isNative_pure ()

/-- To create a fresh file is native. -/
lemma isNative_createFresh (directory : Path) (start stop : Text) :
    (createFresh directory start stop).IsNative := by
  refine isNative_get.bind fun w => ?_
  simp only
  split
  · exact isNative_throw trivial
  · exact (isNative_change _ _).bind fun loc => isNative_pure _

end Files

end EditorDocs
