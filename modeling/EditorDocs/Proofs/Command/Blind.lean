import EditorDocs.Proofs.Command.Builtin
import EditorDocs.Proofs.Tree.Made

/-!
# What calls see of the log

The commands of an editor do not ask what was reported, and only two of them read a file: `OpenFile`
the one at its path, and `GetIndices` the record of its language (`Builtin.readsFrom`).  So a call
goes in the same way whatever was reported before, unless it reads the very file of the log
(`Builtin.agrees_dispatch`).
-/

namespace EditorDocs

open EditorDocs.Action FileSystem

/-- The path leads to the file of the log. -/
def World.LeadsToLog (w : World) (path : Text) : Prop :=
  ∃ loc n, w.logFile? = some loc ∧ w.files.locate .lookup path = .ok (.object loc n)

/-- In twins the same paths lead to the log. -/
lemma World.Twin.leadsToLog {w v : World} (h : w.Twin v) {path : Text} (hlog : v.LeadsToLog path) :
    w.LeadsToLog path := by
  obtain ⟨loc, n, hfile, hleads⟩ := hlog
  have hlocate := h.files.locate .lookup path
  rw [hleads] at hlocate
  generalize hw : w.files.locate .lookup path = x at hlocate
  cases hlocate with
  | @object _ m _ houtline hface => exact ⟨loc, m, h.log ▸ hfile, hw⟩

/-! ## Fetching -/

namespace Fetcher

/-- To fetch is blind. -/
lemma isBlind_get (url : Text) : (get url).IsBlind := by
  refine (isBlind_report _).bind fun _ => (isBlind_request url).bind fun reply => ?_
  unfold body
  split
  · split
    · exact isBlind_pure _
    · exact (isBlind_report _).bind fun _ => isBlind_throw _
  · exact (isBlind_report _).bind fun _ => isBlind_throw _
  · exact isBlind_throw _
  · exact isBlind_throw _
  · exact isBlind_throw _

/-- To fetch an index is blind. -/
lemma isBlind_fetchIndex (f : Fetcher) (language : Text) : (f.fetchIndex language).IsBlind :=
  (isBlind_ofExcept _).bind fun url => isBlind_reader.bind fun _ => (isBlind_get url).bind fun _ =>
    (isBlind_ofExcept _).bind fun index => (isBlind_report _).bind fun _ => isBlind_pure index

/-- To fetch a document is blind. -/
lemma isBlind_fetchDocument (f : Fetcher) (path : Text) : (f.fetchDocument path).IsBlind :=
  (isBlind_ofExcept _).bind fun url => (isBlind_get url).bind fun _ =>
    (isBlind_ofExcept _).bind fun text => (isBlind_report _).bind fun _ => isBlind_pure text

end Fetcher

/-! ## Records -/

namespace Cache

/-- A record that is not the log's file is read blindly. -/
lemma agrees_read {c : Cache} {language : Text} {w v : World} (h : w.Twin v)
    (hlog : ¬ w.LeadsToLog (c.recordPath language).text) : (c.read language).Agrees w v := by
  have hbytes : ∀ {u : World}, w.Twin u →
      (readBytes (c.recordPath language).text).Agrees w u := by
    intro u hu
    refine (Files.agrees_read hu fun loc n hleads hloc => hlog ⟨loc, n, hloc, hleads⟩).tryCatch
      fun e => ?_
    split <;> exact isBlind_throw _
  refine (isBlind_reader w v h).bind fun r w₁ u hread hu => ?_
  cases hread
  refine (hbytes hu).bind fun bytes w' v' _ h' => ?_
  exact ((isBlind_ofExcept _).bind fun index => (isBlind_report _).bind fun _ => isBlind_pure index)
    w' v' h'

/-- To read a record keeps the log. -/
lemma keepsLog_read (c : Cache) (language : Text) : (c.read language).KeepsLog := by
  have hbytes : (readBytes (c.recordPath language).text).KeepsLog := by
    refine (Files.keepsLog_read _).tryCatch fun e => ?_
    split <;> exact (isBlind_throw _).keepsLog
  refine isBlind_reader.keepsLog.bind fun r => hbytes.bind fun bytes => IsBlind.keepsLog ?_
  exact (isBlind_ofExcept _).bind fun index => (isBlind_report _).bind fun _ => isBlind_pure index

/-- A fresh file is given the content of a record and moved blindly. -/
lemma agrees_install {temporary : Text} {file : Location} {path : Path} {index : Index}
    {w v : World}
    {s s' : State} (h : (w.withFiles s').Twin v) (hlog : w.logFile? ≠ some file)
    (hfresh : Files.Fresh ".tmp" s s' temporary file) :
    (install temporary file path index).Agrees (w.withFiles s') v := by
  by_cases hindex : index.IsScalar
  · have hstored := h.withFiles (h.files.store file (Utf8.encodeAll index.render))
    have hleads := hfresh.leads_store (Utf8.encodeAll index.render)
    obtain ⟨x, w', v', hw, hv, htwin⟩ := Files.agrees_replace hstored hleads hlog path.text
    exact ⟨x, w', v', (exec_install hindex _).trans hw, (exec_install hindex _).trans hv, htwin⟩
  · obtain ⟨run, hinstall⟩ := exec_install_unwritable temporary file path hindex
    exact ⟨_, _, _, hinstall _, hinstall _, h⟩

/-- To write a record is blind. -/
lemma isBlind_write (c : Cache) (language : Text) (index : Index) :
    (c.write language index).IsBlind := by
  intro w v hwv
  unfold write
  refine (Files.isBlind_makePath c.directory w v hwv).bind fun _ w₁ v₁ _ h₁ => ?_
  refine (Files.isBlind_createFresh _ _ _ w₁ v₁ h₁).bind fun created w₂ v₂ hcreated h₂ => ?_
  have htidy : ∀ e, IsBlind (do
      Files.discard created.1
      throw e : Action Unit) :=
    fun e => (Files.isBlind_discard created.1).bind fun _ => isBlind_throw e
  refine Agrees.bind (Agrees.tryCatch ?_ htidy) fun _ w₃ v₃ _ h₃ =>
    ((isBlind_report _).bind fun _ => isBlind_pure _) w₃ v₃ h₃
  rcases Files.exec_createFresh isEnding_temporary c.directory
    (("." : Text) ++ language ++ "_index.") w₁ with
    ⟨f, hfailed, -⟩ | ⟨e, file, s', -, hmade, hfresh⟩
  · rw [hfailed] at hcreated
    cases hcreated
  · rw [hmade] at hcreated
    cases hcreated
    exact agrees_install h₂ (h₁.files.ne_of_view_none hfresh.absent) hfresh

end Cache

/-! ## Indices -/

namespace Resolver

/-- To record an index is blind. -/
lemma isBlind_record (r : Resolver) (language : Text) (index : Index) :
    (r.record language index).IsBlind := by
  refine ((r.cache.isBlind_write language index).bind fun _ => isBlind_pure ()).tryCatch fun e => ?_
  split
  · exact isBlind_report _
  · exact isBlind_throw _

/-- To ask for a record is blind. -/
lemma isBlind_isCached (r : Resolver) (language : Text) : (r.isCached language).IsBlind := by
  refine (Files.isBlind_exists? _).tryCatch fun e => ?_
  split <;> exact isBlind_throw _

/-- What is done without a record is blind. -/
lemma isBlind_remote (r : Resolver) (language : Text) : IsBlind (do
    report .info "index.cache_miss"
      [("language", .string language), ("path", .string (r.cache.recordPath language).text)]
    let index ← r.fetcher.fetchIndex language
    r.record language index
    pure index) :=
  (isBlind_report _).bind fun _ => (r.fetcher.isBlind_fetchIndex language).bind fun index =>
    (r.isBlind_record language index).bind fun _ => isBlind_pure index

/-- An index is resolved blindly unless its record is the log's file. -/
lemma agrees_resolve {r : Resolver} {language : Text} {w v : World} (h : w.Twin v)
    (hlog : ¬ w.LeadsToLog (r.cache.recordPath language).text) :
    (r.resolve language).Agrees w v := by
  refine (r.isBlind_isCached language w v h).bind fun found w' v' hfound h' => ?_
  cases found with
  | true =>
    -- to ask for a record changes nothing
    have hsame : w' = w := by
      cases hexists : ((r.cache.exists? language).exec w).1 with
      | ok found =>
        rw [exec_isCached hexists] at hfound
        cases hfound
        rfl
      | error f =>
        have hexec : (r.cache.exists? language).exec w = (.error f, w) := by
          rw [exec_exists?, hexists]
        rw [isCached, exec_tryCatch_error hexec] at hfound
        split at hfound <;> cases hfound
    subst hsame
    exact Cache.agrees_read h' hlog
  | false => exact r.isBlind_remote language w' v' h'

/-- To resolve an index keeps the log. -/
lemma keepsLog_resolve (r : Resolver) (language : Text) : (r.resolve language).KeepsLog := by
  refine (r.isBlind_isCached language).keepsLog.bind fun found => ?_
  cases found with
  | true => exact r.cache.keepsLog_read language
  | false => exact (r.isBlind_remote language).keepsLog

end Resolver

/-! ## Calls -/

namespace Builtin

open Command

variable {r : Resolver} {s : TreeSettings} {w v : World}

/-- The path of the file that a call reads, if it reads one. -/
def readsFrom (r : Resolver) : Builtin → List Text → Option Text
  | .openFile, path :: _ => some path
  | .getIndices, language :: _ => some (r.cache.recordPath language).text
  | _, _ => none

/-- What was reported makes no difference to a command that does not read the log. -/
lemma agrees_evaluate (h : w.Twin v) (b : Builtin) (args : List Text)
    (hlog : ∀ path ∈ b.readsFrom r args, ¬ w.LeadsToLog path) :
    ((b.command r s).evaluate args).Agrees w v := by
  by_cases haccepts : (b.command r s).accepts args.length = true
  swap
  · exact ⟨_, w, v, exec_evaluate_refused haccepts w, exec_evaluate_refused haccepts v, h⟩
  rw [evaluate_of_accepts haccepts]
  have hrefuse : ∀ name args, (refuse name args).IsBlind := fun _ _ => isBlind_throw _
  cases b with
  | hello => exact isBlind_pure _ w v h
  | getIndices =>
    cases args with
    | nil => exact hrefuse _ _ w v h
    | cons language more =>
      refine (Resolver.agrees_resolve h (hlog _ rfl)).bind fun index w' v' _ h' => ?_
      exact isBlind_pure _ w' v' h'
  | getPath =>
    cases args with
    | nil => exact hrefuse _ _ w v h
    | cons path more =>
      exact ((r.fetcher.isBlind_fetchDocument path).bind fun _ => isBlind_pure _) w v h
  | getFiles =>
    cases args with
    | nil => exact hrefuse _ _ w v h
    | cons path more =>
      refine ((s.isBlind_build path).bind fun built => ?_) w v h
      simp only
      split
      · exact (isBlind_report _).bind fun _ => isBlind_pure _
      · exact isBlind_pure _
  | openFile =>
    cases args with
    | nil => exact hrefuse _ _ w v h
    | cons path more =>
      have hread : (Files.read path).Agrees w v :=
        Files.agrees_read h fun loc n hleads hloc => hlog path rfl ⟨loc, n, hloc, hleads⟩
      have hopen : (Command.openFile path).Agrees w v := by
        refine hread.bind fun bytes w' v' _ h' => ?_
        split
        · exact isBlind_pure _ w' v' h'
        · exact isBlind_throw _ w' v' h'
      exact hopen.bind fun _ w' v' _ h' => isBlind_pure _ w' v' h'
  | writeFile =>
    rcases args with _ | ⟨path, _ | ⟨content, more⟩⟩
    · exact hrefuse _ _ w v h
    · exact hrefuse _ _ w v h
    · have hwrite : (Command.writeFile path content).IsBlind :=
        (Files.isBlind_openForWriting path).bind fun file => Files.isBlind_storeText file content
      exact (hwrite.bind fun _ => isBlind_pure _) w v h

/-- To evaluate a command keeps the log. -/
lemma keepsLog_evaluate (b : Builtin) (args : List Text) :
    ((b.command r s).evaluate args).KeepsLog := by
  intro w hw
  by_cases haccepts : (b.command r s).accepts args.length = true
  swap
  · rw [exec_evaluate_refused haccepts]
    exact hw
  cases hreads : b.readsFrom r args with
  | none =>
    obtain ⟨x, w', v', hx, -, htwin⟩ :=
      agrees_evaluate (r := r) (s := s) (.refl hw) b args fun path hpath => by
        rw [hreads] at hpath
        cases hpath
    rw [hx]
    exact htwin.hasLog
  | some path =>
    rw [evaluate_of_accepts haccepts]
    unfold readsFrom at hreads
    split at hreads
    · have hopen : (Command.openFile path).KeepsLog := by
        refine (Files.keepsLog_read path).bind fun bytes => IsBlind.keepsLog ?_
        split
        · exact isBlind_pure _
        · exact isBlind_throw _
      cases hreads
      exact (hopen.bind fun _ => (isBlind_pure _).keepsLog) w hw
    · exact ((r.keepsLog_resolve _).bind fun _ => (isBlind_pure _).keepsLog) w hw
    · cases hreads

/-- What is done after a failure of a call is blind. -/
lemma isBlind_answerFailure (name : Text) (e : Failure) : IsBlind (do
    if isAnswer e then
      reportFailure name e
      pure (Outcome.ofFailure e)
    else throw e : Action Outcome) := by
  split
  · refine IsBlind.bind ?_ fun _ => isBlind_pure _
    unfold reportFailure
    split <;> exact isBlind_report _
  · exact isBlind_throw e

/-- What is done after the outcome of a call is blind. -/
lemma isBlind_reportOutcome (name : Text) (outcome : Outcome) : IsBlind (do
    match outcome with
    | .completed _ => Command.report name .debug "command.ok" []
    | .failed _ _ => pure ()
    pure outcome) := by
  cases outcome with
  | completed value => exact (isBlind_report _).bind fun _ => isBlind_pure _
  | failed kind message => exact (isBlind_pure ()).bind fun _ => isBlind_pure _

/-- What was reported makes no difference to a call that does not read the log. -/
lemma agrees_call (h : w.Twin v) (b : Builtin) (args : List Text)
    (hlog : ∀ path ∈ b.readsFrom r args, ¬ w.LeadsToLog path) :
    ((b.command r s).call args).Agrees w v := by
  have hvalue : (do pure (Outcome.completed (← (b.command r s).evaluate args)) :
      Action Outcome).Agrees w v :=
    (agrees_evaluate h b args hlog).bind fun _ w' v' _ h' => isBlind_pure _ w' v' h'
  exact (hvalue.tryCatch (isBlind_answerFailure _)).bind fun outcome w' v' _ h' =>
    isBlind_reportOutcome _ outcome w' v' h'

/-- To call a command keeps the log. -/
lemma keepsLog_call (b : Builtin) (args : List Text) : ((b.command r s).call args).KeepsLog := by
  have hvalue : (do pure (Outcome.completed (← (b.command r s).evaluate args)) :
      Action Outcome).KeepsLog :=
    (keepsLog_evaluate b args).bind fun _ => (isBlind_pure _).keepsLog
  exact (hvalue.tryCatch fun e => (isBlind_answerFailure _ e).keepsLog).bind fun outcome =>
    (isBlind_reportOutcome _ outcome).keepsLog

/-- The command of a name, if there is one. -/
lemma exists_of_get {method : Text} {c : Command}
    (h : (Registry.builtin r s).get method = .ok c) :
    ∃ b : Builtin, b.command r s = c ∧ (b.command r s).name = method := by
  unfold Registry.get at h
  cases hget : (Registry.builtin r s).commands.get? method with
  | none =>
    rw [hget] at h
    cases h
  | some c' =>
    rw [hget] at h
    cases h
    obtain ⟨c', hc', heq⟩ := List.mem_map.mp (Table.mem_of_get? hget)
    cases heq
    obtain ⟨b, rfl⟩ := exists_command hc'
    exact ⟨b, rfl, rfl⟩

/-- What was reported makes no difference to a call by name that does not read the log. -/
theorem agrees_dispatch (h : w.Twin v) (method : Text) (args : List Text)
    (hlog : ∀ b : Builtin, (b.command r s).name = method →
      ∀ path ∈ b.readsFrom r args, ¬ w.LeadsToLog path) :
    ((Registry.builtin r s).dispatch method args).Agrees w v := by
  refine (isBlind_ofExcept _ w v h).bind fun c w₁ v₁ hc h₁ => ?_
  rw [exec_ofExcept] at hc
  injection hc with hget hsame
  subst hsame
  obtain ⟨b, rfl, hb⟩ := exists_of_get hget
  refine (isBlind_report _ w v₁ h₁).bind fun _ w₂ v₂ hw₂ h₂ => ?_
  cases hw₂
  refine agrees_call h₂ b args fun path hpath hleads => ?_
  exact hlog b hb path hpath ((World.Twin.of_report h.hasLog _).leadsToLog hleads)

/-- To call a command by name keeps the log. -/
lemma keepsLog_dispatch (method : Text) (args : List Text) :
    ((Registry.builtin r s).dispatch method args).KeepsLog := by
  intro w hw
  unfold Registry.dispatch
  rw [exec_bind, exec_ofExcept]
  cases hget : (Registry.builtin r s).get method with
  | error e => exact hw
  | ok c =>
    obtain ⟨b, rfl, -⟩ := exists_of_get hget
    exact ((isBlind_report _).keepsLog.bind fun _ => keepsLog_call b args) w hw

end Builtin

end EditorDocs
