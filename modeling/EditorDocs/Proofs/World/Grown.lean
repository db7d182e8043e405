import EditorDocs.Proofs.FileSystem.Alike
import EditorDocs.Proofs.FileSystem.Children
import EditorDocs.Proofs.World.Files

/-!
# Files of which the log has grown

Reports make the file of the log longer and do nothing else to the files.  A path then shows what it
has shown, unless it leads to that file (`FileSystem.State.glance_of_grow`), and a directory is made in
the same way (`Files.exec_makePath_of_grow`).
-/

namespace EditorDocs

open FileSystem

/-- A change elsewhere than at the log can be made before the log grows. -/
lemma FileSystem.update_grow {log : Option Location} {loc : Location} (h : log ≠ some loc)
    (more : Bytes) (f : Location → Option Face) (entry : Option Face) :
    Function.update (grow log more f) loc entry = grow log more (Function.update f loc entry) := by
  funext loc'
  by_cases hloc : loc' = loc
  · rw [hloc, Function.update_self, grow_of_ne h, Function.update_self]
  · rw [Function.update_of_ne hloc, grow, grow, Function.update_of_ne hloc]

namespace FileSystem.State

variable {s t : State} {log : Option Location} {more : Bytes}

/-- Files of which the log has grown are like those before. -/
lemma Alike.of_grow (hhome : t.home = s.home) (hview : t.view = grow log more s.view) :
    s.Alike t :=
  ⟨hhome, frame_of_grow hview, fun loc => by rw [hview, grow_eq_none_iff]⟩

/-- A path that does not lead to the log shows the same when the log has grown. -/
theorem glance_of_grow (hhome : t.home = s.home) (hview : t.view = grow log more s.view)
    {m : Manner} {path : Text}
    (hlog : ∀ loc n, s.locate m path = .ok (.object loc n) → log ≠ some loc) :
    t.glance m path = s.glance m path := by
  have hresembles := (Alike.of_grow hhome hview).resembles m path
  unfold glance
  generalize hs : s.locate m path = x at hresembles
  generalize ht : t.locate m path = y at hresembles
  cases hresembles with
  | error e => rfl
  | vacancy parent name slashed => rfl
  | object loc n n' =>
    have hface := congrFun hview loc
    rw [grow_of_ne (hlog loc n hs), view_eq_of_find? (find?_of_object hs),
      view_eq_of_find? (find?_of_object ht)] at hface
    exact congrArg Except.ok (Option.some.inj hface)

end FileSystem.State

namespace Files

/-- A directory is made in the same way when the log has grown. -/
theorem exec_makePath_of_grow {p : Path} {w v : World} {x : Except Failure Unit} {s : State}
    {log : Option Location} {more : Bytes} (hmade : (makePath p).exec w = (x, w.withFiles s))
    (hhome : v.files.home = w.files.home) (hview : v.files.view = grow log more w.files.view) :
    ∃ t, (makePath p).exec v = (x, v.withFiles t) ∧ t.home = s.home ∧
      t.view = grow log more s.view := by
  cases hrefused : refusal? p.text with
  | some f =>
    have hw := exec_makePath_refused hrefused w
    rw [hmade, Prod.mk.injEq] at hw
    obtain rfl : s = w.files := congrArg World.files hw.2
    exact ⟨v.files, by rw [exec_makePath_refused hrefused, hw.1]; rfl, hhome, hview⟩
  | none =>
    have hpass := refusal?_eq_none_iff.mp hrefused
    obtain ⟨y, s', t, hw, hv, halike⟩ := exec_makePath_alike p (State.Alike.of_grow hhome hview)
    obtain ⟨_, s'', hway, hmakes, -⟩ := exec_makePath hpass w
    obtain ⟨_, t', htway, htmakes, -⟩ := exec_makePath hpass v
    rw [hmade, Prod.mk.injEq] at hw hway
    obtain rfl : s = s' := congrArg World.files hw.2
    obtain rfl : s = s'' := congrArg World.files hway.2
    rw [hv, Prod.mk.injEq] at htway
    obtain rfl : t = t' := congrArg World.files htway.2
    refine ⟨t, by rw [hv, hw.1], halike.home, funext fun loc => ?_⟩
    cases hloc : w.files.view loc with
    | some face =>
      -- what was there has stayed
      have hgrown : grow log more s.view loc = v.files.view loc := by
        rw [hview, grow, grow, hmakes.view_of_some hloc, hloc]
      rw [hgrown]
      cases hlocv : v.files.view loc with
      | some face' => exact htmakes.view_of_some hlocv
      | none =>
        rw [hview, grow_eq_none_iff, hloc] at hlocv
        cases hlocv
    | none =>
      -- what is new is a directory in both
      have hlocv : v.files.view loc = none := by rw [hview, grow_eq_none_iff, hloc]
      have habsent := halike.absent loc
      rcases hmakes.view loc with hsame | ⟨-, hdirectory⟩
      · rw [hloc] at hsame
        rw [habsent.mpr hsame, eq_comm, grow_eq_none_iff, hsame]
      · rcases htmakes.view loc with hsame | ⟨-, hdirectory'⟩
        · rw [hlocv] at hsame
          rw [habsent.mp hsame] at hdirectory
          cases hdirectory
        · rw [hdirectory', grow, hdirectory]
          split <;> rfl

end Files

end EditorDocs
