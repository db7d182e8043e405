import EditorDocs.Proofs.CommandLine.Unset
import EditorDocs.Proofs.Config.Loading

/-!
# Configurations that will not do

Every command that needs settings does the same with the configuration that it loads
(`CommandLine.perform_of_layers?`).  Settings without problems are those it works with, and problems
and the failures that loading tells are told the user, with the code three or, by the command that
validates, with the code one.  That is all there is unless the configuration file is one of those that
break loading (`Config.Breaks`): then the command line ends with a failure that nobody expects
(`CommandLine.configuration_told`).
-/

namespace EditorDocs.CommandLine

namespace Invocation

/-- The configuration file and the options from which the settings are loaded; none if there is no
need of settings. -/
def layers? : Invocation → Option (Option Path × Config.Mapping)
  | .help | .version => none
  | .serve o | .indices _ _ o | .call _ _ o | .cacheClear _ o => some (o.config, o.data)
  | .tree _ strict maxDepth o => some (o.config, o.data ++ treeData strict maxDepth)
  | .languages config | .cachePath _ config => some (config, [])
  | .validateConfig config => some (some config, [])

/-- What is done under settings without problems. -/
def work (s : Setting) (input : Bytes) : Invocation → Settings → StateM World Ending
  | .help, _ => pure (.done [helpText])
  | .version, _ => pure (.done [versionText])
  | .serve _, settings => withLog s settings (CommandLine.serve settings input)
  | .indices language asJson _, settings =>
    withLog s settings (CommandLine.indices settings language asJson)
  | .tree path _ _ _, settings => withLog s settings (CommandLine.tree settings path)
  | .call name args _, settings => withLog s settings (CommandLine.call settings name args)
  | .languages _, settings => pure (CommandLine.languages settings)
  | .cachePath language _, settings => CommandLine.cachePath settings language
  | .cacheClear tags _, settings => withLog s settings (CommandLine.cacheClear settings tags)
  | .validateConfig _, settings => pure (.done (validLines settings))

/-- What is told of a configuration that will not do, in these words, or of one that is not there. -/
def objection (isMissing : Bool) (message : Text) : Invocation → Ending
  | .validateConfig _ =>
    if isMissing then .failed 3 (("Error: " : Text) ++ message)
    else .failed 1 (("Invalid configuration: " : Text) ++ message)
  | _ => .failed 3 (("Configuration error: " : Text) ++ message)

/-- What is done with a configuration that was loaded, or not. -/
def onLoaded (s : Setting) (input : Bytes) (i : Invocation) :
    Except Failure (Config.Checked Settings) → StateM World Ending
  | .ok (.valid settings) => i.work s input settings
  | .ok (.invalid ps) => pure (i.objection false (Config.summary ps))
  | .error f => pure (if f.isMissingFile || f.isValue || f = .malformedConfiguration then
      i.objection f.isMissingFile f.message else .ofFailure f)

end Invocation

variable {s : Setting} {i : Invocation} {config : Option Path} {options : Config.Mapping}

/-- A failure of loading that is told is told by every command. -/
lemma onLoaded_of_isTold {f : Failure} (h : f.IsTold) (i : Invocation) (s : Setting)
    (input : Bytes) :
    i.onLoaded s input (.error f) = pure (i.objection f.isMissingFile f.message) := by
  have hcondition : (f.isMissingFile || f.isValue || f = .malformedConfiguration) = true := by
    simpa [Failure.IsTold, or_assoc] using h
  rw [Invocation.onLoaded, if_pos hcondition]

/-- A failure of loading that is not told is one that no command expects. -/
lemma onLoaded_of_not_isTold {f : Failure} (h : ¬ f.IsTold) (i : Invocation) (s : Setting)
    (input : Bytes) : i.onLoaded s input (.error f) = pure (.ofFailure f) := by
  have hcondition : ¬ (f.isMissingFile || f.isValue || f = .malformedConfiguration) = true := by
    simpa [Failure.IsTold, or_assoc] using h
  rw [Invocation.onLoaded, if_neg hcondition]

/-- Whatever needs settings loads them once, and goes on as they are. -/
lemma perform_of_layers? (h : i.layers? = some (config, options)) (s : Setting) (input : Bytes)
    (w : World) :
    perform s input i w =
      i.onLoaded s input ((Config.load s.temporary s.environment config options).exec w).1
        ((Config.load s.temporary s.environment config options).exec w).2 := by
  have hplain : ∀ work : Settings → StateM World Ending,
      (∀ settings, work settings = i.work s input settings) →
      (∀ isMissing message, i.objection isMissing message =
        .failed 3 (("Configuration error: " : Text) ++ message)) →
      withSettings s config options work w =
        i.onLoaded s input ((Config.load s.temporary s.environment config options).exec w).1
          ((Config.load s.temporary s.environment config options).exec w).2 := by
    intro work hwork hobjection
    rw [withSettings_apply]
    rcases ((Config.load s.temporary s.environment config options).exec w).1 with f | checked
    · rw [Invocation.onLoaded, hobjection]
    · cases checked with
      | valid settings => exact congrFun (hwork settings) _
      | invalid ps => rw [Invocation.onLoaded, hobjection]
  cases i with
  | help => cases h
  | version => cases h
  | validateConfig path =>
    cases h
    rw [perform, validateConfig_apply]
    rcases ((Config.load s.temporary s.environment (some path) []).exec w).1 with f | checked
    · cases hmissing : f.isMissingFile with
      | true =>
        rw [onLoaded_of_isTold (Or.inl hmissing), Invocation.objection, if_pos hmissing]
        simp only [hmissing, if_true]
        rfl
      | false =>
        simp only [Invocation.onLoaded, Invocation.objection, hmissing, Bool.false_or,
          Bool.false_eq_true, if_false]
        rfl
    · cases checked <;> rfl
  | serve o | indices language asJson o | call name args o | cacheClear languages o =>
    cases h
    rw [perform, withBoth, List.append_nil]
    exact hplain _ (fun _ => rfl) fun _ _ => rfl
  | tree path strict maxDepth o =>
    cases h
    exact hplain _ (fun _ => rfl) fun _ _ => rfl
  | languages config | cachePath language config =>
    cases h
    exact hplain _ (fun _ => rfl) fun _ _ => rfl

/-- None of the failures by which a file breaks loading is the user's interruption. -/
lemma ofFailure_of_breaks {budget : Nat} {files : FileSystem.State} {path : Path} {f : Failure}
    (h : Config.Breaks budget files path f) :
    Ending.ofFailure f = { code := 1, unexpected := some f } := by
  cases h with
  | slip _ _ _ hf => cases hf <;> rfl
  | shapeless _ _ _ hd => cases hd <;> rfl
  | _ => rfl

/-- A command that needs settings goes on with settings that were validated, or tells what is wrong
with the configuration: with the code three, or with the code one where the configuration is to be
validated and is there.  The exception are the configuration files that break loading: what is at the
path is no file or cannot be looked at, its document ends in a slip, or its data has no sections that
are named by texts.  With each of them every command ends with a failure that nobody expects,
whatever the environment and the options are. -/
theorem configuration_told (s : Setting) (args : List Text) (input : Bytes) {w₀ w : World}
    {i : Invocation} {config : Option Path} {options : Config.Mapping}
    (hread : (read args).exec w₀ = (.ok (.ok i), w))
    (hlayers : i.layers? = some (config, options)) :
    (∀ path f, config = some path → Config.Breaks w.host.stack.nodes w.files path f →
      (Config.load s.temporary s.environment config options).exec w = (.error f, w) ∧
        run s args input w₀ = ({ code := 1, unexpected := some f }, w)) ∧
    ((∀ path f, config = some path → ¬ Config.Breaks w.host.stack.nodes w.files path f) →
      (∃ settings,
        (Config.load s.temporary s.environment config options).exec w = (.ok (.valid settings), w) ∧
          run s args input w₀ =
            ((i.work s input settings w).1.final, (i.work s input settings w).2)) ∨
      (∃ ps,
        (Config.load s.temporary s.environment config options).exec w = (.ok (.invalid ps), w) ∧
          run s args input w₀ = ((i.objection false (Config.summary ps)).final, w)) ∨
      ∃ f : Failure, f.IsTold ∧
        (Config.load s.temporary s.environment config options).exec w = (.error f, w) ∧
          run s args input w₀ = ((i.objection f.isMissingFile f.message).final, w)) := by
  have hrun : ∀ x, (Config.load s.temporary s.environment config options).exec w = (x, w) →
      run s args input w₀ =
        ((i.onLoaded s input x w).1.final, (i.onLoaded s input x w).2) := by
    intro x hload
    rw [run_of_read hread, perform_of_layers? hlayers, hload]
  refine ⟨fun path f hpath hbreaks => ?_, fun hnot => ?_⟩
  · subst hpath
    have hload := Config.exec_load_of_breaks hbreaks s.temporary s.environment options
    refine ⟨hload, ?_⟩
    rw [hrun _ hload, onLoaded_of_not_isTold hbreaks.not_isTold, ofFailure_of_breaks hbreaks]
    rfl
  · have hcases : (∃ c, (Config.load s.temporary s.environment config options).exec w =
          (.ok c, w)) ∨
        ∃ f : Failure, (Config.load s.temporary s.environment config options).exec w =
          (.error f, w) ∧ f.IsTold := by
      cases config with
      | none => exact Or.inl (Config.exec_load_none s.temporary s.environment options w)
      | some path =>
        exact Config.exec_load_of_not_breaks (hnot path · rfl) s.temporary s.environment options
    rcases hcases with ⟨c, hload⟩ | ⟨f, hload, htold⟩
    · cases c with
      | valid settings => exact Or.inl ⟨settings, hload, hrun _ hload⟩
      | invalid ps => exact Or.inr (Or.inl ⟨ps, hload, hrun _ hload⟩)
    · refine Or.inr (Or.inr ⟨f, htold, hload, ?_⟩)
      rw [hrun _ hload, onLoaded_of_isTold htold]
      rfl

/-- The sources are not listed under a configuration in which the log is a number; the user is told
so. -/
theorem configuration_told_sample :
    (read ["languages", "-c", "c"]).exec misconfigured =
      (.ok (.ok (.languages (some (Path.ofText "c")))), misconfigured) ∧
    (run bareSetting ["languages", "-c", "c"] [] misconfigured).1.code = 3 ∧
    (run bareSetting ["languages", "-c", "c"] [] misconfigured).1.unexpected = none := by
  have hread : (read ["languages", "-c", "c"]).exec misconfigured =
      (.ok (.ok (.languages (some (Path.ofText "c")))), misconfigured) := by
    have hthere : Logged.IsThere (some "c") misconfigured := by
      rintro t ⟨⟩
      decide +kernel
    have hscan : scan [.help, .config] true ["-c", "c"] = .ok ⟨Logged.givenOf (some "c"), []⟩ :=
      Logged.scan_config rfl "c" []
    change (readLanguages ["-c", "c"]).exec misconfigured = _
    rw [readLanguages, Logged.exec_readCommand hscan hthere]
    rfl
  have hproblems : ((Config.load bareSetting.temporary bareSetting.environment
      (some (Path.ofText "c")) []).exec misconfigured).1.toOption.map Config.Checked.problems =
        some [⟨[.name "logging"], .notSection "LoggingConfig"⟩] := by
    decide +kernel
  obtain ⟨hbreaks, htold⟩ := configuration_told bareSetting ["languages", "-c", "c"] [] hread rfl
  have hnot : ∀ path f, some (Path.ofText "c") = some path →
      ¬ Config.Breaks misconfigured.host.stack.nodes misconfigured.files path f := by
    intro path f hpath h
    rw [(hbreaks path f hpath h).1] at hproblems
    cases hproblems
  refine ⟨hread, ?_⟩
  rcases htold hnot with
    ⟨settings, hload, -⟩ | ⟨ps, -, hrun⟩ | ⟨f, -, hload, -⟩
  · rw [hload] at hproblems
    cases hproblems
  · rw [hrun]
    exact ⟨rfl, rfl⟩
  · rw [hload] at hproblems
    cases hproblems

/-- A world whose only file is a configuration that is a list. -/
def listConfigured : World :=
  World.still (.directory [("c", .file (Utf8.encodeAll "- a"))]) fun _ => .interruption

/-- A configuration that is a list is a failure that nobody expects, where it is used and where it is
validated. -/
theorem configuration_list_breaks :
    (run bareSetting ["languages", "-c", "c"] [] listConfigured).1.unexpected =
        some .configurationList ∧
      (run bareSetting ["validate-config", "-c", "c"] [] listConfigured).1.unexpected =
        some .configurationList := by
  decide +kernel

end EditorDocs.CommandLine
