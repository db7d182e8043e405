import EditorDocs.Proofs.FileSystem.Alike
import EditorDocs.Proofs.FileSystem.Spelling
import EditorDocs.Proofs.Text.Digits
import EditorDocs.Proofs.World.Action
import EditorDocs.World.Files

/-!
# What file actions do

A file action that only looks leaves the world as it is, and one that changes files leaves everything
else as it is (`exec_look`, `exec_change`).  From these two laws the rest follows: a path is made by
making directories on the way to it (`MakesWay`), a fresh file takes a vacancy under a name that no
entry has, and what is moved leaves its old place.
-/

namespace EditorDocs

namespace World

/-- The world with other files. -/
def withFiles (w : World) (s : FileSystem.State) : World := { w with files := s }

@[simp] lemma files_withFiles (w : World) (s : FileSystem.State) : (w.withFiles s).files = s := rfl

@[simp] lemma host_withFiles (w : World) (s : FileSystem.State) : (w.withFiles s).host = w.host := rfl

@[simp] lemma logFile?_withFiles (w : World) (s : FileSystem.State) :
    (w.withFiles s).logFile? = w.logFile? := rfl

@[simp] lemma requests_withFiles (w : World) (s : FileSystem.State) :
    (w.withFiles s).requests = w.requests := rfl

@[simp] lemma remote_withFiles (w : World) (s : FileSystem.State) :
    (w.withFiles s).remote = w.remote := rfl

@[simp] lemma withFiles_withFiles (w : World) (s s' : FileSystem.State) :
    (w.withFiles s).withFiles s' = w.withFiles s' := rfl

@[simp] lemma withFiles_self (w : World) : w.withFiles w.files = w := rfl

@[simp] lemma files_forget (w : World) (loc : FileSystem.Location) :
    (w.forget loc).files = w.files := rfl

@[simp] lemma requests_forget (w : World) (loc : FileSystem.Location) :
    (w.forget loc).requests = w.requests := rfl

@[simp] lemma remote_forget (w : World) (loc : FileSystem.Location) :
    (w.forget loc).remote = w.remote := rfl

/-- The log is lost if its file goes, and kept otherwise. -/
lemma logFile?_forget (w : World) (loc : FileSystem.Location) :
    (w.forget loc).logFile? = if w.logFile? = some loc then none else w.logFile? := by
  unfold logFile? forget
  cases w.journal with
  | none => simp
  | some j =>
    by_cases h : j.file = some loc <;> simp [Log.Journal.forget, h]

end World

namespace Files

open FileSystem

variable {α : Type}

/-! ## Paths that can be passed -/

/-- A file can have the path. -/
def IsPassable (path : Text) : Prop := ∀ c ∈ path, isUnwritable c = false ∧ c.val ≠ 0

/-- Paths that no file can have are refused, and no others. -/
lemma refusal?_eq_none_iff {path : Text} : refusal? path = none ↔ IsPassable path := by
  unfold refusal? IsPassable
  cases hrun : Utf8.firstRun isUnwritable 0 path with
  | some run =>
    constructor
    · intro h
      cases h
    · intro h
      rw [Utf8.firstRun_eq_none_iff.mpr fun c hc => (h c hc).1] at hrun
      cases hrun
  | none =>
    have hwritable := Utf8.firstRun_eq_none_iff.mp hrun
    by_cases hnul : (path.any fun c => decide (c.val = 0)) = true
    · obtain ⟨c, hc, hzero⟩ := List.any_eq_true.mp hnul
      have hbad : ¬ ∀ c ∈ path, isUnwritable c = false ∧ c.val ≠ 0 :=
        fun h => (h c hc).2 (of_decide_eq_true hzero)
      simp [hnul, hbad]
    · have hall : ∀ c ∈ path, isUnwritable c = false ∧ c.val ≠ 0 := by
        intro c hc
        refine ⟨hwritable c hc, fun hzero => hnul ?_⟩
        exact List.any_eq_true.mpr ⟨c, hc, decide_eq_true hzero⟩
      simp only [hnul, Bool.false_eq_true, if_false, true_iff]
      exact hall

/-- A path is refused for half of a surrogate pair or for a zero. -/
lemma cases_of_refusal? {path : Text} {f : Failure} (h : refusal? path = some f) :
    (∃ run, f = .unencodable run) ∨ f = .embeddedNul := by
  unfold refusal? at h
  split at h
  · rename_i run hrun
    exact Or.inl ⟨run, (Option.some.inj h).symm⟩
  · split at h <;> cases h
    exact Or.inr rfl

/-- That a path is refused is no failed file operation. -/
lemma isSystem_of_refusal? {path : Text} {f : Failure} (h : refusal? path = some f) :
    f.isSystem = false := by
  rcases cases_of_refusal? h with ⟨run, rfl⟩ | rfl <;> rfl

/-- That a path is refused is no failure that the system reports. -/
lemma ne_system_of_refusal? {path : Text} {f : Failure} (h : refusal? path = some f)
    (e : SystemError) : f ≠ .system e := by
  rintro rfl
  cases isSystem_of_refusal? h

/-- A path that can be passed consists of bytes. -/
lemma IsPassable.isByteText {path : Text} (h : IsPassable path) : IsByteText path := by
  intro c hc hsurrogate
  have hwritable := (h c hc).1
  rw [isUnwritable, hsurrogate, Bool.true_and] at hwritable
  simpa using hwritable

/-- A part of a path can be passed if the path can. -/
lemma IsPassable.mono {a b : Text} (h : IsPassable b) (hsub : ∀ c ∈ a, c ∈ b) : IsPassable a :=
  fun c hc => h c (hsub c hc)

/-- Joined texts can be passed if both can. -/
lemma IsPassable.append {a b : Text} (ha : IsPassable a) (hb : IsPassable b) :
    IsPassable (a ++ b) := by
  intro c hc
  rcases List.mem_append.mp hc with h | h
  · exact ha c h
  · exact hb c h

/-! ## The two laws -/

/-- Looking leaves the world as it is. -/
lemma exec_look (op : State → Text → Except Errno α) (path : Text) (w : World) :
    (look op path).exec w = (match refusal? path with
      | some f => .error f
      | none => outcome path none (op w.files path), w) := by
  unfold look
  cases refusal? path with
  | some f => rfl
  | none => simp [Action.exec_bind]

/-- A change of files leaves everything else as it is, and a failure leaves the files, too. -/
lemma exec_change (op : State → Text → Except Errno (α × State)) (path : Text) (w : World) :
    (change op path).exec w = match refusal? path with
      | some f => (.error f, w)
      | none => match op w.files path with
        | .ok (a, s) => (.ok a, w.withFiles s)
        | .error e => (.error (.system ⟨e, path, none⟩), w) := by
  unfold change
  cases refusal? path with
  | some f => rfl
  | none =>
    simp only [Action.exec_bind, Action.exec_get, Action.exec_ofExcept]
    cases op w.files path with
    | ok a => rfl
    | error e => rfl

/-- A change that succeeds is one at a path that can be passed, and changes the files alone. -/
lemma of_change {op : State → Text → Except Errno (α × State)} {path : Text} {w w' : World} {a : α}
    (h : (change op path).exec w = (.ok a, w')) :
    IsPassable path ∧ ∃ s, op w.files path = .ok (a, s) ∧ w' = w.withFiles s := by
  rw [exec_change] at h
  cases hrefused : refusal? path with
  | some f =>
    rw [hrefused] at h
    cases h
  | none =>
    rw [hrefused] at h
    cases hop : op w.files path with
    | error e =>
      rw [hop] at h
      cases h
    | ok r =>
      obtain ⟨b, s⟩ := r
      rw [hop] at h
      cases h
      exact ⟨refusal?_eq_none_iff.mp hrefused, s, rfl, rfl⟩

/-! ## Looking -/

/-- The content of a file is read at a path that can be passed, where the files have it. -/
lemma read_eq_ok_iff {path : Text} {w : World} {content : Bytes} :
    ((read path).exec w).1 = .ok content ↔ IsPassable path ∧ w.files.read path = .ok content := by
  unfold read
  rw [exec_look, ← refusal?_eq_none_iff]
  cases refusal? path with
  | some f => simp
  | none => cases hread : w.files.read path <;> simp [outcome]

/-- A path that can be passed exists if something is found, does not if nothing is, and otherwise
this cannot be told. -/
lemma exec_exists? (path : Text) (w : World) :
    (exists? path).exec w = (match refusal? path with
      | some _ => .ok false
      | none => match w.files.lookup path with
        | .ok _ => .ok true
        | .error e => if meansAbsence e then .ok false else .error (.system ⟨e, path, none⟩), w) := by
  unfold exists?
  cases refusal? path with
  | some f => rfl
  | none =>
    simp only [Action.exec_bind, Action.exec_get]
    cases w.files.lookup path with
    | ok n => rfl
    | error e => by_cases habsent : meansAbsence e = true <;> simp [habsent]

/-- Whether there is a directory is found without changing anything, in the same way. -/
lemma exec_isDirectory? (path : Text) (w : World) :
    (isDirectory? path).exec w = (match refusal? path with
      | some _ => .ok false
      | none => match (w.files.lookup path).map Node.isDirectory with
        | .ok found => .ok found
        | .error e => if meansAbsence e then .ok false else .error (.system ⟨e, path, none⟩), w) := by
  unfold isDirectory?
  rw [Action.exec_bind, exec_exists?]
  cases hrefused : refusal? path with
  | some f => rfl
  | none =>
    cases hlookup : w.files.lookup path with
    | ok n =>
      have hexec : (isDirectory path).exec w = (.ok n.isDirectory, w) := by
        unfold isDirectory State.isDirectory
        simp only [Action.exec_bind, Action.exec_get, Action.exec_pure, hrefused, hlookup]
        rfl
      exact hexec
    | error e => by_cases habsent : meansAbsence e = true <;> simp [habsent, Except.map]

/-- What is found to be a directory is one, and nothing has changed. -/
lemma of_isDirectory? {path : Text} {w w' : World}
    (h : (isDirectory? path).exec w = (.ok true, w')) :
    w' = w ∧ w.files.isDirectory path = true := by
  rw [exec_isDirectory?] at h
  obtain ⟨hfound, rfl⟩ := Prod.mk.inj h
  refine ⟨rfl, ?_⟩
  split at hfound
  · cases hfound
  · split at hfound
    · rename_i found hlookup
      cases hfound
      obtain ⟨n, hn, hdirectory⟩ := Result.of_map hlookup
      rw [State.isDirectory, hn]
      exact hdirectory
    · split at hfound <;> cases hfound

/-- That it cannot be told whether there is a directory is a failed file operation. -/
lemma isDirectory?_eq_error {path : Text} {w : World} {f : Failure}
    (h : ((isDirectory? path).exec w).1 = .error f) : ∃ e, f = .system e := by
  rw [exec_isDirectory?] at h
  simp only at h
  split at h
  · cases h
  · split at h
    · cases h
    · split at h <;> cases h
      exact ⟨_, rfl⟩

/-! ## Directories -/

/-- Directories have been made at paths that lead towards `p`. -/
inductive MakesWay (p : Path) : State → State → Prop where
  /-- None has been made. -/
  | refl (s : State) : MakesWay p s s
  /-- One more has been made. -/
  | make {s s' s'' : State} {q : Path} (h : MakesWay p s s') (hroot : q.root = p.root)
      (hnames : q.names <+: p.names) (hmake : s'.makeDirectory q.text = .ok s'') : MakesWay p s s''

namespace MakesWay

variable {p : Path} {s s' s'' : State}

/-- More directories can be made. -/
lemma trans (h : MakesWay p s s') (h' : MakesWay p s' s'') : MakesWay p s s'' := by
  induction h' with
  | refl => exact h
  | make _ hroot hnames hmake ih => exact ih.make hroot hnames hmake

/-- What leads towards the path above leads towards the path. -/
lemma of_parent (h : MakesWay p.parent s s') : MakesWay p s s' := by
  induction h with
  | refl => exact .refl s
  | make _ hroot hnames hmake ih =>
    exact ih.make hroot (hnames.trans (List.dropLast_prefix p.names)) hmake

/-- The working directory stays where it is. -/
lemma home (h : MakesWay p s s') : s'.home = s.home := by
  induction h with
  | refl => rfl
  | make _ _ _ hmake ih => exact (State.view_makeDirectory hmake).1.trans ih

/-- Where something stood, the same stands; what has come is a directory. -/
lemma view (h : MakesWay p s s') (loc : Location) :
    s'.view loc = s.view loc ∨ (s.view loc = none ∧ s'.view loc = some .directory) := by
  induction h with
  | refl => exact Or.inl rfl
  | make _ _ _ hmake ih =>
    obtain ⟨-, loc', hnone, -, hview⟩ := State.view_makeDirectory hmake
    rw [hview]
    by_cases hloc : loc = loc'
    · subst hloc
      rw [Function.update_self]
      rcases ih with hsame | ⟨hold, -⟩
      · exact Or.inr ⟨hsame ▸ hnone, rfl⟩
      · exact Or.inr ⟨hold, rfl⟩
    · rwa [Function.update_of_ne hloc]

/-- Where something stood, the same stands. -/
lemma view_of_some (h : MakesWay p s s') {loc : Location} {face : Face}
    (hface : s.view loc = some face) : s'.view loc = some face := by
  rcases h.view loc with hsame | ⟨hnone, -⟩
  · rw [hsame, hface]
  · rw [hface] at hnone
    cases hnone

end MakesWay

/-- The text of a path can be passed if and only if its names can. -/
lemma isPassable_text_iff {p : Path} : IsPassable p.text ↔ ∀ name ∈ p.names, IsPassable name := by
  have hroot : IsPassable p.root.text := by
    cases p.root <;> (unfold IsPassable; decide)
  have hjoin : IsPassable (Text.join "/" p.names) ↔ ∀ name ∈ p.names, IsPassable name := by
    constructor
    · intro h name hname c hc
      exact h c (Text.mem_join_of_mem hname hc)
    · intro h c hc
      rcases Text.mem_join hc with hslash | ⟨name, hname, hc⟩
      · have hall : IsPassable ("/" : Text) := by
          unfold IsPassable
          decide
        exact hall c hslash
      · exact h name hname c hc
  unfold Path.text
  split
  · rename_i hempty
    simp only [Bool.and_eq_true, List.isEmpty_iff] at hempty
    constructor
    · intro _ name hname
      rw [hempty.1] at hname
      cases hname
    · intro _
      unfold IsPassable
      decide
  · rw [← hjoin]
    constructor
    · exact fun h => h.mono fun c hc => List.mem_append_right _ hc
    · exact hroot.append

/-- A directory that can be made is made. -/
lemma exec_ensureDirectory_ok {path : Text} (hpath : refusal? path = none) {w : World} {s : State}
    (h : w.files.makeDirectory path = .ok s) :
    (ensureDirectory isDirectory? path).exec w = (.ok (), w.withFiles s) := by
  unfold ensureDirectory
  rw [Action.exec_tryCatch, makeDirectory, exec_change, hpath]
  simp only [silently, h, Except.map]

/-- A directory that cannot be made changes nothing, and what goes wrong is a failed file operation. -/
lemma exec_ensureDirectory_error {path : Text} (hpath : refusal? path = none) {w : World} {e : Errno}
    (h : w.files.makeDirectory path = .error e) :
    ∃ x, (ensureDirectory isDirectory? path).exec w = (x, w) ∧
      ∀ f, x = .error f → ∃ e, f = .system e := by
  unfold ensureDirectory
  rw [Action.exec_tryCatch, makeDirectory, exec_change, hpath]
  have hx : (isDirectory? path).exec w = (((isDirectory? path).exec w).1, w) := by
    rw [exec_isDirectory?]
  refine ⟨?_, ?_, ?_⟩
  · exact match ((isDirectory? path).exec w).1 with
      | .ok true => .ok ()
      | .ok false => .error (.system ⟨e, path, none⟩)
      | .error f => .error f
  · simp only [silently, h, Except.map, Failure.isSystem, if_true, Action.exec_bind]
    rw [hx]
    rcases ((isDirectory? path).exec w).1 with f | found
    · rfl
    · cases found <;> rfl
  · intro f hf
    rcases hfound : ((isDirectory? path).exec w).1 with g | found
    · rw [hfound] at hf
      cases hf
      exact isDirectory?_eq_error hfound
    · rw [hfound] at hf
      cases found
      · cases hf
        exact ⟨_, rfl⟩
      · cases hf

/-- A directory that is made unless there is one leads towards the path, and what goes wrong is a
failed file operation. -/
lemma exec_ensureDirectory {p q : Path} (hroot : q.root = p.root) (hnames : q.names <+: p.names)
    (hq : refusal? q.text = none) (w : World) :
    ∃ x s', (ensureDirectory isDirectory? q.text).exec w = (x, w.withFiles s') ∧
      MakesWay p w.files s' ∧ ∀ f, x = .error f → ∃ e, f = .system e := by
  cases hmake : w.files.makeDirectory q.text with
  | ok s' =>
    exact ⟨.ok (), s', exec_ensureDirectory_ok hq hmake,
      (MakesWay.refl w.files).make hroot hnames hmake, by simp⟩
  | error e =>
    obtain ⟨x, hx, hfail⟩ := exec_ensureDirectory_error hq hmake
    exact ⟨x, w.files, hx, .refl _, hfail⟩

/-- Making a path makes directories that lead towards it, and what goes wrong is a failed file
operation. -/
lemma exec_makePathAfter (rounds : Nat) {p : Path} (hp : IsPassable p.text) (w : World) :
    ∃ x s', (makePathAfter rounds p).exec w = (x, w.withFiles s') ∧ MakesWay p w.files s' ∧
      ∀ f, x = .error f → ∃ e, f = .system e := by
  induction rounds generalizing p w with
  | zero =>
    exact exec_ensureDirectory rfl (List.prefix_refl _) (refusal?_eq_none_iff.mpr hp) w
  | succ rounds ih =>
    have hensure := exec_ensureDirectory rfl (List.prefix_refl p.names)
      (refusal?_eq_none_iff.mpr hp)
    obtain ⟨x, s', hx, hway, hfail⟩ := hensure w
    rw [makePathAfter, Action.exec_tryCatch, hx]
    cases x with
    | ok u => exact ⟨.ok u, s', rfl, hway, by simp⟩
    | error f =>
      obtain ⟨e, rfl⟩ := hfail f rfl
      have hthrow : ∀ e, ∃ x s'', (throw (.system e) : Action Unit).exec (w.withFiles s') =
          (x, w.withFiles s'') ∧ MakesWay p w.files s'' ∧ ∀ f, x = .error f → ∃ e, f = .system e :=
        fun e => ⟨.error (.system e), s', rfl, hway, fun f hf => ⟨e, by cases hf; rfl⟩⟩
      simp only
      split
      · split
        · exact hthrow _
        · have hparent : IsPassable p.parent.text := by
            rw [isPassable_text_iff] at hp ⊢
            exact fun name hname => hp name ((List.dropLast_sublist _).subset hname)
          obtain ⟨y, s₁, hy, hway₁, hfail₁⟩ := ih hparent (w.withFiles s')
          rw [Action.exec_bind, hy]
          cases y with
          | error f => exact ⟨.error f, s₁, rfl, hway.trans hway₁.of_parent, hfail₁⟩
          | ok u =>
            obtain ⟨z, s₂, hz, hway₂, hfail₂⟩ := hensure (w.withFiles s₁)
            exact ⟨z, s₂, hz, (hway.trans hway₁.of_parent).trans hway₂, hfail₂⟩
      · exact hthrow _

/-- Making a path makes directories that lead towards it, and what goes wrong is a failed file
operation. -/
theorem exec_makePath {p : Path} (hp : IsPassable p.text) (w : World) :
    ∃ x s', (makePath p).exec w = (x, w.withFiles s') ∧ MakesWay p w.files s' ∧
      ∀ f, x = .error f → ∃ e, f = .system e :=
  exec_makePathAfter p.names.length hp w

/-- A path that no file can have is not made. -/
theorem exec_makePath_refused {p : Path} {f : Failure} (h : refusal? p.text = some f) (w : World) :
    (makePath p).exec w = (.error f, w) := by
  have hf := isSystem_of_refusal? h
  have hensure : (ensureDirectory isDirectory? p.text).exec w = (.error f, w) := by
    unfold ensureDirectory
    rw [Action.exec_tryCatch, makeDirectory, exec_change, h]
    simp [hf]
  unfold makePath
  cases p.names.length with
  | zero => exact hensure
  | succ rounds =>
    rw [makePathAfter, Action.exec_tryCatch_error hensure]
    split
    · exact absurd rfl (ne_system_of_refusal? h _)
    · rfl

/-- A directory is made unless there is one, in states that are alike in the same way. -/
lemma exec_ensureDirectory_alike (path : Text) {w v : World} (h : w.files.Alike v.files) :
    ∃ x s t, (ensureDirectory isDirectory? path).exec w = (x, w.withFiles s) ∧
      (ensureDirectory isDirectory? path).exec v = (x, v.withFiles t) ∧ s.Alike t := by
  unfold ensureDirectory makeDirectory
  rw [Action.exec_tryCatch, Action.exec_tryCatch, exec_change, exec_change]
  cases hrefused : refusal? path with
  | some f =>
    simp only [isSystem_of_refusal? hrefused, Bool.false_eq_true, if_false]
    exact ⟨.error f, w.files, v.files, rfl, rfl, h⟩
  | none =>
    have hsame : ((isDirectory? path).exec v).1 = ((isDirectory? path).exec w).1 := by
      rw [exec_isDirectory?, exec_isDirectory?, h.lookup]
    have htest : ∀ u : World, (isDirectory? path).exec u = (((isDirectory? path).exec u).1, u) := by
      intro u
      rw [exec_isDirectory?]
    rcases h.makeDirectory path with ⟨e, hs, ht⟩ | ⟨s, t, hs, ht, halike⟩
    · simp only [silently, hs, ht, Except.map, Failure.isSystem, if_true]
      rw [Action.exec_bind, Action.exec_bind, htest w, htest v, hsame]
      rcases ((isDirectory? path).exec w).1 with f | found
      · exact ⟨.error f, w.files, v.files, rfl, rfl, h⟩
      · cases found with
        | true => exact ⟨.ok (), w.files, v.files, rfl, rfl, h⟩
        | false =>
          exact ⟨.error (.system ⟨e, path, none⟩), w.files, v.files, rfl, rfl, h⟩
    · simp only [silently, hs, ht, Except.map]
      exact ⟨.ok (), s, t, rfl, rfl, halike⟩

/-- Making a path leaves the machine as it is. -/
lemma host_makePath (p : Path) (w : World) : ((makePath p).exec w).2.host = w.host := by
  cases hrefused : refusal? p.text with
  | some f => rw [exec_makePath_refused hrefused]
  | none =>
    obtain ⟨x, s, hexec, -⟩ := exec_makePath (refusal?_eq_none_iff.mp hrefused) w
    rw [hexec, World.host_withFiles]

/-- Making a path goes in the same way in states that are alike. -/
theorem exec_makePath_alike (p : Path) {w v : World} (h : w.files.Alike v.files) :
    ∃ x s t, (makePath p).exec w = (x, w.withFiles s) ∧ (makePath p).exec v = (x, v.withFiles t) ∧
      s.Alike t := by
  unfold makePath
  generalize p.names.length = rounds
  induction rounds generalizing p w v with
  | zero => exact exec_ensureDirectory_alike p.text h
  | succ rounds ih =>
    obtain ⟨x, s, t, hw, hv, hst⟩ := exec_ensureDirectory_alike p.text h
    rw [makePathAfter, Action.exec_tryCatch, Action.exec_tryCatch, hw, hv]
    cases x with
    | ok u => exact ⟨.ok u, s, t, rfl, rfl, hst⟩
    | error f =>
      simp only
      split
      · split
        · exact ⟨_, s, t, rfl, rfl, hst⟩
        · obtain ⟨y, s₁, t₁, hw₁, hv₁, hst₁⟩ :=
            ih p.parent (w := w.withFiles s) (v := v.withFiles t) hst
          rw [Action.exec_bind, Action.exec_bind, hw₁, hv₁]
          cases y with
          | error f => exact ⟨.error f, s₁, t₁, rfl, rfl, hst₁⟩
          | ok u =>
            exact exec_ensureDirectory_alike p.text
              (w := (w.withFiles s).withFiles s₁) (v := (v.withFiles t).withFiles t₁) hst₁
      · exact ⟨_, s, t, rfl, rfl, hst⟩

/-- Making the path of a directory that is there does nothing. -/
theorem exec_makePath_of_isDirectory {p : Path} (hp : p.IsProper) (hpass : IsPassable p.text)
    {w : World} (h : w.files.isDirectory p.text = true) : (makePath p).exec w = (.ok (), w) := by
  have hlookup : ∃ n, w.files.lookup p.text = .ok n ∧ n.isDirectory = true := by
    unfold State.isDirectory at h
    cases hl : w.files.lookup p.text with
    | ok n => exact ⟨n, rfl, by simpa [hl] using h⟩
    | error e => simp [hl] at h
  obtain ⟨n, hn, hdirectory⟩ := hlookup
  -- the path leads to an entry, so that none can be made there
  obtain ⟨e, he⟩ := State.exists_makeDirectory_error_of_lookup
    (show w.files.lookup (dropEndSlashes p.text) = .ok n by rwa [Path.dropEndSlashes_text hp])
  have hensure : (ensureDirectory isDirectory? p.text).exec w = (.ok (), w) := by
    have htest : (isDirectory? p.text).exec w = (.ok true, w) := by
      rw [exec_isDirectory?, refusal?_eq_none_iff.mpr hpass, hn, ← hdirectory]
      rfl
    unfold ensureDirectory makeDirectory
    rw [Action.exec_tryCatch, exec_change, refusal?_eq_none_iff.mpr hpass]
    simp only [silently, he, Except.map, Failure.isSystem, if_true]
    rw [Action.exec_bind, htest]
    rfl
  unfold makePath
  cases p.names.length with
  | zero => exact hensure
  | succ rounds => exact Action.exec_tryCatch_ok hensure

/-! ## Files -/

/-- Moving a file changes the files, and the log is lost if its file gives way. -/
lemma exec_replace (source target : Text) (w : World) :
    (replace source target).exec w =
      match (refusal? source).orElse fun _ => refusal? target with
      | some f => (.error f, w)
      | none => match w.files.replace source target with
        | .error e => (.error (.system ⟨e, source, some target⟩), w)
        | .ok (none, s) => (.ok (), w.withFiles s)
        | .ok (some loc, s) => (.ok (), (w.withFiles s).forget loc) := by
  unfold replace
  cases (refusal? source).orElse fun _ => refusal? target with
  | some f => rfl
  | none =>
    simp only [Action.exec_bind, Action.exec_get, Action.exec_ofExcept]
    cases w.files.replace source target with
    | error e => rfl
    | ok r =>
      obtain ⟨gone, s⟩ := r
      cases gone <;> rfl

/-- A file that is moved has been moved from a path that can be passed to one that can. -/
lemma of_replace {source target : Text} {w w' : World}
    (h : (replace source target).exec w = (.ok (), w')) :
    IsPassable source ∧ IsPassable target ∧
      ∃ gone, w.files.replace source target = .ok (gone, w'.files) := by
  rw [exec_replace] at h
  cases hsource : refusal? source with
  | some f =>
    rw [hsource] at h
    cases h
  | none =>
    cases htarget : refusal? target with
    | some f =>
      rw [hsource, htarget] at h
      cases h
    | none =>
      rw [hsource, htarget] at h
      refine ⟨refusal?_eq_none_iff.mp hsource, refusal?_eq_none_iff.mp htarget, ?_⟩
      cases hreplace : w.files.replace source target with
      | error e =>
        rw [hreplace] at h
        cases h
      | ok r =>
        obtain ⟨gone, s⟩ := r
        rw [hreplace] at h
        cases gone <;> cases h <;> exact ⟨_, rfl⟩

/-- A file that cannot be moved stays, and so does everything else. -/
lemma eq_of_replace_error {source target : Text} {w w' : World} {f : Failure}
    (h : (replace source target).exec w = (.error f, w')) : w' = w := by
  rw [exec_replace] at h
  split at h
  · cases h
    rfl
  · split at h <;> cases h
    rfl

/-- A file that is deleted has been deleted at a path that can be passed. -/
lemma of_unlink {path : Text} {w w' : World} (h : (unlink path).exec w = (.ok (), w')) :
    IsPassable path ∧ ∃ gone, w.files.unlink path = .ok (gone, w'.files) := by
  unfold unlink at h
  obtain ⟨gone, v, hchange, hforget⟩ := Action.of_bind h
  cases hforget
  obtain ⟨hpass, s, hs, rfl⟩ := of_change hchange
  exact ⟨hpass, gone, hs⟩

/-- Deleting a file leaves the machine as it is. -/
lemma host_unlink (path : Text) (w : World) : ((unlink path).exec w).2.host = w.host := by
  unfold unlink
  rw [Action.exec_bind, exec_change]
  cases refusal? path with
  | some f => rfl
  | none =>
    simp only
    rcases w.files.unlink path with e | ⟨loc, s⟩ <;> rfl

/-- So does discarding one. -/
lemma host_discard (path : Text) (w : World) : ((discard path).exec w).2.host = w.host := by
  have hunlink := host_unlink path w
  unfold discard
  rw [Action.exec_tryCatch]
  rcases hexec : (unlink path).exec w with ⟨f | x, v⟩
  all_goals rw [hexec] at hunlink
  · simp only
    split <;> exact hunlink
  · exact hunlink

/-- So does moving one. -/
lemma host_replace (source target : Text) (w : World) :
    ((replace source target).exec w).2.host = w.host := by
  rw [exec_replace]
  split
  · rfl
  · split <;> rfl

/-- Discarding a file deletes it if its path leads to it. -/
lemma exec_discard_of_locate {path : Text} (hp : IsPassable path) {w : World} {loc : Location}
    {n : Node} (h : w.files.locate .entry path = .ok (.object loc n)) (hn : n.face ≠ .directory) :
    (discard path).exec w = (.ok (), (w.withFiles (w.files.remove loc)).forget loc) := by
  unfold discard unlink
  rw [Action.exec_tryCatch, Action.exec_bind, exec_change, refusal?_eq_none_iff.mpr hp,
    State.unlink_of_locate h hn]
  rfl

/-! ## Fresh names -/

/-- The digits of a candidate are ASCII digits. -/
lemma mem_candidate {n : Nat} {c : CodePoint} (hc : c ∈ candidate n) :
    0x30 ≤ c.val ∧ c.val < 0x7F := by
  unfold candidate at hc
  rcases List.mem_append.mp hc with hzero | hdigit
  · rw [List.eq_of_mem_replicate hzero]
    decide
  · exact Text.mem_ofNat hdigit

/-- A candidate before an end is an end. -/
lemma isEnding_candidate {stop : Text} (h : stop.IsEnding) (n : Nat) :
    (candidate n ++ stop).IsEnding := by
  obtain ⟨c, hc, hdot⟩ := h.last
  refine ⟨?_, ?_, c, ?_, hdot⟩
  · intro c hc
    rcases List.mem_append.mp hc with hc | hc
    · have := mem_candidate hc
      omega
    · exact h.ascii c hc
  · intro hslash
    rcases List.mem_append.mp hslash with hc | hc
    · exact absurd (mem_candidate hc).1 (by decide)
    · exact h.noSlash hc
  · rw [List.getLast?_append, hc]
    rfl

/-- The fresh end of a name is a candidate with what is to follow it. -/
lemma freshEnd?_eq_some {s : State} {stop e : Text} (h : freshEnd? s stop = some e) :
    ∃ n, e = candidate n ++ stop := by
  unfold freshEnd? at h
  have hmem := List.mem_of_find?_eq_some h
  obtain ⟨n, -, rfl⟩ := List.mem_map.mp hmem
  exact ⟨n, rfl⟩

/-- A fresh file has been created, whose path is written as `temporary`. -/
structure Fresh (stop : Text) (s s' : State) (temporary : Text) (file : Location) : Prop where
  /-- The working directory is the same. -/
  home : s'.home = s.home
  /-- The file was absent. -/
  absent : s.view file = none
  /-- It is empty, and all else is as before. -/
  view : s'.view = Function.update s.view file (some (.file []))
  /-- The path leads to it. -/
  leads : s'.locate .entry temporary = .ok (.object file (.file []))
  /-- The name ends as it is to end. -/
  ending : ∃ a x, temporary = a ++ (x ++ stop) ∧ (x ++ stop).IsEnding

namespace Fresh

variable {stop : Text} {s s' t : State} {temporary : Text} {file : Location}

/-- A fresh file does not show in the frame, whatever it holds. -/
lemma frame (h : Fresh stop s s' temporary file) {content : Bytes}
    (ht : t.view = Function.update s.view file (some (.file content))) : t.frame = s.frame := by
  refine State.frame_eq_of_view_update ht ?_
  rw [State.frame, h.absent]
  rfl

/-- A fresh file that is given a content is still all that has changed. -/
lemma view_store (h : Fresh stop s s' temporary file) (content : Bytes) :
    (s'.store file content).view = Function.update s.view file (some (.file content)) := by
  have hfile : s'.view file = some (.file []) := by
    rw [h.view, Function.update_self]
  rw [State.view_store content hfile, h.view, Function.update_idem]

/-- A fresh file that is given a content is found again. -/
lemma leads_store (h : Fresh stop s s' temporary file) (content : Bytes) :
    (s'.store file content).locate .entry temporary = .ok (.object file (.file content)) := by
  have hframe := (h.frame (h.view_store content)).trans (h.frame h.view).symm
  refine State.locate_of_frame_eq hframe (State.home_store s' file content) h.leads (by simp)
    (State.find?_of_view_file ?_)
  rw [Place.location, h.view_store, Function.update_self]

end Fresh

/-- What is the path of a fresh file before the fresh end. -/
def freshPath (s : State) (directory : Path) (start : Text) : Text :=
  under ((⟨.absolute, s.home⟩ : Path).append directory).collapse.text start

/-- The path of a fresh file can be passed if its parts can. -/
lemma isPassable_freshPath {s : State} {directory : Path} {start : Text}
    (hhome : ∀ name ∈ s.home, IsPassable name) (hdirectory : IsPassable directory.text)
    (hstart : IsPassable start) : IsPassable (freshPath s directory start) := by
  have hnames : IsPassable ((⟨.absolute, s.home⟩ : Path).append directory).collapse.text := by
    rw [isPassable_text_iff] at hdirectory ⊢
    intro name hname
    rcases Path.mem_names_of_append (Path.mem_names_of_collapse hname) with h | h
    · exact hhome name h
    · exact hdirectory name h
  have hslash : IsPassable ("/" : Text) := by
    unfold IsPassable
    decide
  unfold freshPath under
  split
  · exact hnames.append hstart
  · exact (hnames.append hslash).append hstart

/-- A candidate can be passed. -/
lemma isPassable_candidate (n : Nat) : IsPassable (candidate n) := by
  intro c hc
  have hdigit := mem_candidate hc
  refine ⟨?_, by omega⟩
  simp only [isUnwritable, CodePoint.isSurrogate, Bool.and_eq_false_iff, decide_eq_false_iff_not]
  omega

/-- A file that was created at a path with such an ending is a fresh one. -/
lemma fresh_of_createFile {stop a e : Text} {s s' : State} {file : Location}
    (hending : (e ++ stop).IsEnding) (hcreate : s.createFile (a ++ (e ++ stop)) = .ok (file, s')) :
    Fresh stop s s' (a ++ (e ++ stop)) file := by
  obtain ⟨hhome, habsent, -, hview, p, hp, rfl⟩ := State.view_createFile hcreate
  have hframe : s'.frame = s.frame :=
    State.frame_eq_of_view_update hview (by rw [State.frame, habsent]; rfl)
  refine ⟨hhome, habsent, hview, ?_, a, e, rfl, hending⟩
  refine State.locate_of_frame_eq hframe hhome hp
    (State.not_slashed_of_ending hending hp) (State.find?_of_view_file ?_)
  rw [hview, Function.update_self]

/-- A fresh file is created under the first end of a name that no entry has. -/
lemma exec_createFresh_eq (directory : Path) (start stop : Text) (w : World) :
    (createFresh directory start stop).exec w = match freshEnd? w.files stop with
      | none =>
        (.error (.system ⟨.entryExists, freshPath w.files directory start ++ stop, none⟩), w)
      | some e => match refusal? (freshPath w.files directory start ++ e) with
        | some f => (.error f, w)
        | none => match w.files.createFile (freshPath w.files directory start ++ e) with
          | .ok (file, s) => (.ok (freshPath w.files directory start ++ e, file), w.withFiles s)
          | .error cause =>
            (.error (.system ⟨cause, freshPath w.files directory start ++ e, none⟩), w) := by
  unfold createFresh
  simp only [Action.exec_bind, Action.exec_get]
  cases freshEnd? w.files stop with
  | none => rfl
  | some e =>
    have hpath : FileSystem.under (w.workingDirectory.append directory).collapse.text start =
        freshPath w.files directory start := rfl
    simp only [hpath, Action.exec_bind, exec_change]
    cases refusal? (freshPath w.files directory start ++ e) with
    | some f => rfl
    | none => cases w.files.createFile (freshPath w.files directory start ++ e) <;> rfl

/-- A fresh file has been created under the first end of a name that no entry has. -/
lemma createFile_of_createFresh {directory : Path} {start stop temporary : Text} {file : Location}
    {w w' : World}
    (h : (createFresh directory start stop).exec w = (.ok (temporary, file), w')) :
    ∃ n s', freshEnd? w.files stop = some (candidate n ++ stop) ∧
      temporary = freshPath w.files directory start ++ (candidate n ++ stop) ∧
      IsPassable temporary ∧ w.files.createFile temporary = .ok (file, s') ∧
      w' = w.withFiles s' := by
  rw [exec_createFresh_eq] at h
  cases hfresh : freshEnd? w.files stop with
  | none => simp [hfresh] at h
  | some e =>
    obtain ⟨n, rfl⟩ := freshEnd?_eq_some hfresh
    simp only [hfresh] at h
    cases hrefused : refusal? (freshPath w.files directory start ++ (candidate n ++ stop)) with
    | some f => simp [hrefused] at h
    | none =>
      cases hcreate : w.files.createFile
          (freshPath w.files directory start ++ (candidate n ++ stop)) with
      | error cause => simp [hrefused, hcreate] at h
      | ok r =>
        simp only [hrefused, hcreate] at h
        cases h
        exact ⟨n, r.2, rfl, rfl, refusal?_eq_none_iff.mp hrefused, hcreate, rfl⟩

/-- Creating a fresh file creates one, or fails without changing anything. -/
lemma exec_createFresh {stop : Text} (hstop : stop.IsEnding) (directory : Path) (start : Text)
    (w : World) :
    (∃ f, (createFresh directory start stop).exec w = (.error f, w) ∧
      (IsPassable (freshPath w.files directory start ++ stop) → ∃ e, f = .system e)) ∨
    ∃ e file s', IsPassable (freshPath w.files directory start ++ e) ∧
      (createFresh directory start stop).exec w =
        (.ok (freshPath w.files directory start ++ e, file), w.withFiles s') ∧
      Fresh stop w.files s' (freshPath w.files directory start ++ e) file := by
  rw [exec_createFresh_eq]
  cases hfresh : freshEnd? w.files stop with
  | none =>
    left
    exact ⟨_, rfl, fun _ => ⟨_, rfl⟩⟩
  | some e =>
    obtain ⟨n, rfl⟩ := freshEnd?_eq_some hfresh
    have hending := isEnding_candidate hstop n
    simp only
    cases hrefused : refusal? (freshPath w.files directory start ++ (candidate n ++ stop)) with
    | some f =>
      left
      refine ⟨f, rfl, fun hpass => ?_⟩
      have hall : IsPassable (freshPath w.files directory start ++ (candidate n ++ stop)) :=
        (hpass.mono fun c hc => List.mem_append_left _ hc).append
          ((isPassable_candidate n).append (hpass.mono fun c hc => List.mem_append_right _ hc))
      rw [refusal?_eq_none_iff.mpr hall] at hrefused
      cases hrefused
    | none =>
      cases hcreate : w.files.createFile
          (freshPath w.files directory start ++ (candidate n ++ stop)) with
      | error e =>
        left
        exact ⟨_, rfl, fun _ => ⟨_, rfl⟩⟩
      | ok r =>
        obtain ⟨file, s'⟩ := r
        right
        exact ⟨_, file, s', refusal?_eq_none_iff.mp hrefused, rfl, fresh_of_createFile hending hcreate⟩

end Files

end EditorDocs
