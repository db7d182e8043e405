import EditorDocs.Index.Cache
import EditorDocs.Proofs.FileSystem.Names
import EditorDocs.Proofs.World.Files

/-!
# Actions that keep names

What actions do with files leaves directories whose entries have names, and different ones
(`FileSystem.State.IsNamed`), if they were such before.  This is said of an action once for the way
it is put together (`Action.KeepsNames`), and so of making paths and of writing records.
-/

namespace EditorDocs

open FileSystem

/-! ## Actions -/

namespace Action

variable {α β : Type}

/-- Names are kept, whether the action succeeds or fails. -/
def KeepsNames (a : Action α) : Prop := ∀ w, w.files.IsNamed → (a.exec w).2.files.IsNamed

variable {a : Action α} {f : α → Action β}

/-- An action that only looks keeps names. -/
lemma keepsNames_of_files (h : ∀ w, (a.exec w).2.files = w.files) : a.KeepsNames :=
  fun w hw => (h w).symm ▸ hw

/-- To give something keeps names. -/
lemma keepsNames_pure (x : α) : KeepsNames (pure x : Action α) := keepsNames_of_files fun _ => rfl

/-- To fail keeps names. -/
lemma keepsNames_throw (e : Failure) : KeepsNames (throw e : Action α) :=
  keepsNames_of_files fun _ => rfl

/-- To look at the world keeps names. -/
lemma keepsNames_get : KeepsNames (get : Action World) := keepsNames_of_files fun _ => rfl

/-- To go on with what a computation gives keeps names. -/
lemma keepsNames_ofExcept (x : Except Failure α) : KeepsNames (ofExcept x) :=
  keepsNames_of_files fun w => by rw [exec_ofExcept]

/-- To ask for a URL keeps names. -/
lemma keepsNames_request (url : Text) : KeepsNames (Action.request url) :=
  keepsNames_of_files fun _ => rfl

/-- To report keeps names. -/
lemma keepsNames_report (r : Record) : KeepsNames (Action.report r) := by
  intro w hw
  rw [exec_report_snd]
  unfold World.report
  cases w.journal with
  | none => exact hw
  | some j =>
    simp only
    unfold Log.Journal.filesAfter
    split
    · exact hw.append _ _
    · exact hw

/-- One action after another that keep names keep names. -/
lemma KeepsNames.bind (h : a.KeepsNames) (hf : ∀ x, (f x).KeepsNames) : (a >>= f).KeepsNames := by
  intro w hw
  have hw' := h w hw
  rw [exec_bind]
  rcases hexec : a.exec w with ⟨e | x, w'⟩
  all_goals rw [hexec] at hw'
  · exact hw'
  · exact hf x w' hw'

/-- An action and what is done where it fails keep names together. -/
lemma KeepsNames.tryCatch {g : Failure → Action α} (h : a.KeepsNames)
    (hg : ∀ e, (g e).KeepsNames) : (tryCatch a g).KeepsNames := by
  intro w hw
  have hw' := h w hw
  rw [exec_tryCatch]
  rcases hexec : a.exec w with ⟨e | x, w'⟩
  all_goals rw [hexec] at hw'
  · exact hg e w' hw'
  · exact hw'

end Action

/-! ## File actions -/

namespace Files

open EditorDocs.Action

variable {α : Type}

/-- To ask whether something is a directory keeps names. -/
lemma keepsNames_isDirectory? (path : Text) : (isDirectory? path).KeepsNames :=
  keepsNames_of_files fun w => by rw [exec_isDirectory?]

/-- To change files by an operation that keeps names, at paths that can be passed, keeps names. -/
lemma keepsNames_change {op : State → Text → Except Errno (α × State)} {path : Text}
    (h : ∀ s s' a, IsByteText path → s.IsNamed → op s path = .ok (a, s') → s'.IsNamed) :
    (change op path).KeepsNames := by
  intro w hw
  rw [exec_change]
  split
  · exact hw
  · rename_i hpass
    split
    · rename_i a s hop
      exact h w.files s a (refusal?_eq_none_iff.mp hpass).isByteText hw hop
    · exact hw

/-- To make a directory unless there is one keeps names. -/
lemma keepsNames_ensureDirectory (path : Text) :
    (ensureDirectory isDirectory? path).KeepsNames := by
  refine KeepsNames.tryCatch (keepsNames_change fun s s' a hpath hs hop => ?_) fun e => ?_
  · obtain ⟨t, hmake, ht⟩ := Result.of_map hop
    cases ht
    exact hs.makeDirectory hpath hmake
  · split
    · refine (keepsNames_isDirectory? path).bind fun found => ?_
      split
      · exact keepsNames_pure ()
      · exact keepsNames_throw e
    · exact keepsNames_throw e

/-- To make a path keeps names. -/
lemma keepsNames_makePath (p : Path) : (makePath p).KeepsNames := by
  -- for all paths at once, since a round asks for the parent of its path
  have hafter : ∀ (rounds : Nat) (q : Path), (makePathAfter rounds q).KeepsNames := by
    intro rounds
    induction rounds with
    | zero => exact fun q => keepsNames_ensureDirectory q.text
    | succ rounds ih =>
      intro q
      refine (keepsNames_ensureDirectory q.text).tryCatch fun e => ?_
      split
      · split
        · exact keepsNames_throw _
        · exact (ih q.parent).bind fun _ => keepsNames_ensureDirectory q.text
      · exact keepsNames_throw e
  exact hafter _ p

/-- To give an open file a text keeps names. -/
lemma keepsNames_storeText (loc : Location) (t : Text) : (storeText loc t).KeepsNames := by
  unfold storeText
  split
  · exact fun w hw => hw.store _ _
  · exact keepsNames_throw _

/-- To delete a file keeps names. -/
lemma keepsNames_unlink (path : Text) : (unlink path).KeepsNames :=
  (keepsNames_change fun _ _ _ _ hs hop => hs.unlink hop).bind fun _ => keepsNames_of_files fun _ => rfl

/-- To delete a file if there is one keeps names. -/
lemma keepsNames_discard (path : Text) : (discard path).KeepsNames := by
  refine (keepsNames_unlink path).tryCatch fun e => ?_
  split
  · exact keepsNames_pure ()
  · exact keepsNames_throw e

/-- To move a file keeps names. -/
lemma keepsNames_replace (source target : Text) : (replace source target).KeepsNames := by
  intro w hw
  rw [exec_replace]
  cases hrefused : (refusal? source).orElse fun _ => refusal? target with
  | some f => exact hw
  | none =>
    have htarget : refusal? target = none := by
      cases hsource : refusal? source with
      | some f => rw [hsource] at hrefused; cases hrefused
      | none => rw [hsource] at hrefused; exact hrefused
    have hbytes := (refusal?_eq_none_iff.mp htarget).isByteText
    cases hmove : w.files.replace source target with
    | error e => exact hw
    | ok moved =>
      obtain ⟨gone, s⟩ := moved
      cases gone <;> exact hw.replace hbytes hmove

/-- To create a fresh file keeps names. -/
lemma keepsNames_createFresh (directory : Path) (start stop : Text) :
    (createFresh directory start stop).KeepsNames := by
  refine keepsNames_get.bind fun w => ?_
  simp only
  split
  · exact keepsNames_throw _
  · refine KeepsNames.bind (keepsNames_change fun s s' a hpath hs hop => ?_) fun loc =>
      keepsNames_pure _
    exact hs.createFile hpath hop

end Files

/-! ## Records -/

open EditorDocs.Action

namespace Cache

/-- To write a record keeps names. -/
lemma keepsNames_write (c : Cache) (language : Text) (index : Index) :
    (c.write language index).KeepsNames := by
  unfold write
  refine (Files.keepsNames_makePath _).bind fun _ => (Files.keepsNames_createFresh _ _ _).bind
    fun made => ?_
  refine KeepsNames.bind (KeepsNames.tryCatch ?_ fun e => ?_) fun _ => ?_
  · unfold install
    split
    · exact keepsNames_throw _
    · exact (Files.keepsNames_storeText _ _).bind fun _ => Files.keepsNames_replace _ _
  · exact (Files.keepsNames_discard _).bind fun _ => keepsNames_throw e
  · exact (keepsNames_report _).bind fun _ => keepsNames_pure _

end Cache

end EditorDocs
