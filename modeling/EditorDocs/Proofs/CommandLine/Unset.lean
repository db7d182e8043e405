import EditorDocs.Proofs.CommandLine.Reading
import EditorDocs.Proofs.Config.Verbosity

/-!
# Options that are not given

A command that works with a log loads the same file under the same environment as the command that
validates it, and finds the same failure if it cannot be loaded.  But the number of times that the
console was asked to show more is an option that is always there, and zero counts as given.  So the
command runs under the configuration that was validated with the verbosity set to zero
(`run_unset`): that is the configuration itself only if its verbosity is zero or if it is invalid for
other reasons than the verbosity.  A section that is no mapping is among the problems that
disappear (`call_accepts_invalid`).
-/

namespace EditorDocs.CommandLine

open Config (Checked Quieted)

/-! ## Endings -/

/-- An ending with another code than zero does not go out with zero. -/
lemma code_final_ne {e : Ending} (h : e.code ≠ 0) : e.final.code ≠ 0 := by
  unfold Ending.final Ending.print
  split
  · exact Nat.one_ne_zero
  · exact h

/-- A failure that no command expects is an ending with another code than zero. -/
lemma code_ofFailure_ne (e : Failure) : (Ending.ofFailure e).code ≠ 0 := by
  unfold Ending.ofFailure
  split <;> exact Nat.one_ne_zero

/-- What is said of a configuration that was validated. -/
def verdict : Checked Settings → Ending
  | .valid settings => .done (validLines settings)
  | .invalid ps => .failed 1 (("Invalid configuration: " : Text) ++ Config.summary ps)

/-- What a command does with the settings that were checked: its work with a log, or nothing if they
are invalid. -/
def Logged.runUnder (c : Logged) (s : Setting) (input : Bytes) :
    Checked Settings → StateM World Ending
  | .valid settings => withLog s settings (c.work input settings)
  | .invalid ps => pure (.failed 3 (("Configuration error: " : Text) ++ Config.summary ps))

/-! ## Loading -/

/-- The options of a command where none is given. -/
lemma Logged.isUnset_data (c : Logged) : Config.IsUnset c.data := by
  cases c with
  | tree path => exact Or.inr rfl
  | _ => exact Or.inl rfl

/-- What a command does once its settings were loaded, or could not be. -/
lemma withSettings_apply (s : Setting) (config : Option Path) (options : Config.Mapping)
    (work : Settings → StateM World Ending) (w : World) :
    withSettings s config options work w =
      (match ((Config.load s.temporary s.environment config options).exec w).1 with
        | .ok (.valid settings) => work settings
        | .ok (.invalid ps) =>
          pure (.failed 3 (("Configuration error: " : Text) ++ Config.summary ps))
        | .error e =>
          pure (if e.isMissingFile || e.isValue || e = Failure.malformedConfiguration then
            .failed 3 (("Configuration error: " : Text) ++ e.message) else .ofFailure e))
        ((Config.load s.temporary s.environment config options).exec w).2 := rfl

/-- A command does its work with the settings that were loaded. -/
lemma withSettings_ok {s : Setting} {config : Option Path} {options : Config.Mapping}
    {w w' : World} {checked : Checked Settings}
    (h : (Config.load s.temporary s.environment config options).exec w = (.ok checked, w'))
    (c : Logged) (input : Bytes) :
    withSettings s config options (fun settings => withLog s settings (c.work input settings)) w =
      c.runUnder s input checked w' := by
  rw [withSettings_apply, h]
  cases checked <;> rfl

/-- A command that cannot load its settings ends with another code than zero. -/
lemma withSettings_error {s : Setting} {config : Option Path} {options : Config.Mapping}
    {w w' : World} {e : Failure}
    (h : (Config.load s.temporary s.environment config options).exec w = (.error e, w'))
    (work : Settings → StateM World Ending) :
    (withSettings s config options work w).1.code ≠ 0 := by
  rw [withSettings_apply, h]
  change (if _ then _ else _ : Ending).code ≠ 0
  split
  · exact (by decide : (3 : Nat) ≠ 0)
  · exact code_ofFailure_ne e

/-- A validation says what was found, or ends with another code than zero if there is nothing to be
validated. -/
lemma validateConfig_apply (s : Setting) (config : Path) (w : World) :
    validateConfig s config w =
      (match ((Config.load s.temporary s.environment (some config) []).exec w).1 with
        | .ok checked => verdict checked
        | .error e =>
          if e.isMissingFile then .failed 3 (("Error: " : Text) ++ e.message)
          else if e.isValue || e = Failure.malformedConfiguration then
            .failed 1 (("Invalid configuration: " : Text) ++ e.message)
          else .ofFailure e,
        ((Config.load s.temporary s.environment (some config) []).exec w).2) := by
  change (match ((Config.load s.temporary s.environment (some config) []).exec w).1 with
    | .ok (.valid settings) => pure (.done (validLines settings))
    | .ok (.invalid ps) =>
      pure (.failed 1 (("Invalid configuration: " : Text) ++ Config.summary ps))
    | .error e =>
      pure (if e.isMissingFile then .failed 3 (("Error: " : Text) ++ e.message)
        else if e.isValue || e = Failure.malformedConfiguration then
          .failed 1 (("Invalid configuration: " : Text) ++ e.message)
        else .ofFailure e) : StateM World Ending) _ = _
  rcases ((Config.load s.temporary s.environment (some config) []).exec w).1 with e | checked
  · rfl
  · cases checked <;> rfl

/-! ## Validation and use -/

/-- A command that is given its configuration file and no other option, and the validation of that
file, read the same.  If it cannot be loaded, neither of them goes through.  Otherwise the command
runs under what was validated, with the verbosity set to zero: it accepts the configuration if
nothing but the verbosity is wrong with it, and sees it as it was validated only if the verbosity is
zero or if it is invalid and the verbosity is not to blame. -/
theorem run_unset (s : Setting) (c : Logged) (input : Bytes) (file : Text) (w : World)
    (hc : c.IsPassable) (hfile : Logged.IsThere (some file) w) :
    ((∃ e w', (Config.load s.temporary s.environment (some (Path.ofText file)) []).exec w =
        (.error e, w')) ∧
      (run s ["validate-config", "-c", file] [] w).1.code ≠ 0 ∧
      (run s (c.line (some file)) input w).1.code ≠ 0) ∨
    ∃ validated used w',
      (Config.load s.temporary s.environment (some (Path.ofText file)) []).exec w =
        (.ok validated, w') ∧
      run s ["validate-config", "-c", file] [] w = ((verdict validated).final, w') ∧
      run s (c.line (some file)) input w =
        ((c.runUnder s input used w').1.final, (c.runUnder s input used w').2) ∧
      (∀ settings, validated = .valid settings → used = .valid (Config.quiet settings)) ∧
      ((∃ settings, used = .valid settings) ↔
        ∀ p ∈ validated.problems, p.aboutVerbosity = true) ∧
      (used = validated ↔ (∀ p ∈ validated.problems, p.aboutVerbosity = false) ∧
        ∀ settings, validated = .valid settings → settings.log.verbose = 0) := by
  have hrun := Logged.run_line hc hfile s input
  have hvalidate := run_of_read (Logged.read_validateConfig hfile) s []
  rcases Config.load_of_isUnset c.isUnset_data s.temporary s.environment
    (some (Path.ofText file)) w with ⟨e, w', hplain, hunset⟩ | ⟨validated, used, w', hplain, hunset, h⟩
  · refine Or.inl ⟨⟨e, w', hplain⟩, ?_, ?_⟩
    · -- every way in which the file cannot be loaded has its own code
      rw [hvalidate, perform, validateConfig_apply, hplain]
      refine code_final_ne ?_
      change (if _ then _ else if _ then _ else _ : Ending).code ≠ 0
      split
      · exact (by decide : (3 : Nat) ≠ 0)
      · split
        · exact Nat.one_ne_zero
        · exact code_ofFailure_ne e
    · rw [hrun]
      exact code_final_ne (withSettings_error hunset _)
  · refine Or.inr ⟨validated, used, w', hplain, ?_, ?_, h.valid, h.accepted_iff, h.eq_iff⟩
    · rw [hvalidate, perform, validateConfig_apply, hplain]
    · have hwork := withSettings_ok hunset c input
      rw [hrun, Option.map_some, hwork]

/-- A program in an environment without variables. -/
def bareSetting : Setting := ⟨Path.ofText "/tmp", {}, []⟩

/-- A world whose only file is a configuration in which the log is a number. -/
def misconfigured : World :=
  World.still (.directory [("c", .file (Utf8.encodeAll "logging: 5"))]) fun _ => .interruption

/-- A greeting. -/
def greetingCall : Logged := .call "Hello" ["a"]

/-- A configuration of which only the log is wrong is accepted for a greeting. -/
theorem run_unset_sample :
    greetingCall.IsPassable ∧ Logged.IsThere (some "c") misconfigured ∧
      ∃ settings w', run bareSetting (greetingCall.line (some "c")) [] misconfigured =
        ((greetingCall.runUnder bareSetting [] (.valid settings) w').1.final,
          (greetingCall.runUnder bareSetting [] (.valid settings) w').2) := by
  have hthere : Logged.IsThere (some "c") misconfigured := by
    rintro t ⟨⟩
    decide +kernel
  have hproblems : ((Config.load bareSetting.temporary bareSetting.environment
      (some (Path.ofText "c")) []).exec misconfigured).1.toOption.map Checked.problems =
        some [⟨[.name "logging"], .notSection "LoggingConfig"⟩] := by
    decide +kernel
  refine ⟨trivial, hthere, ?_⟩
  rcases run_unset bareSetting greetingCall [] "c" misconfigured trivial hthere with
    ⟨⟨e, w', hload⟩, -⟩ | ⟨validated, used, w', hload, -, hrun, -, haccepted, -⟩
  · rw [hload] at hproblems
    cases hproblems
  · rw [hload] at hproblems
    have hvalidated : validated.problems = _ := Option.some.inj hproblems
    obtain ⟨settings, rfl⟩ := haccepted.mpr (by
      rw [hvalidated]
      decide)
    exact ⟨settings, w', hrun⟩

/-- A configuration is invalid, and a command that is given it and no other option goes through. -/
theorem call_accepts_invalid :
    (run bareSetting ["validate-config", "-c", "c"] [] misconfigured).1.code = 1 ∧
      (run bareSetting (greetingCall.line (some "c")) [] misconfigured).1.code = 0 := by
  decide +kernel

end EditorDocs.CommandLine
