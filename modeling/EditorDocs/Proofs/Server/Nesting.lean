import EditorDocs.Proofs.Command.Results
import EditorDocs.Proofs.Server.Framing
import EditorDocs.Proofs.Tree.Image
import EditorDocs.Proofs.Tree.Reports

/-!
# Trees fit into responses

A tree that was built with a deepest level `limit` has at most `limit + 2` levels, each of which is two
containers, and the response around it is one more.  If so many containers can be written, a request
that has given a tree is answered with this tree, however deep the directory is
(`Server.respond_getFiles`).  With the settings that a configuration has by default this is so.
-/

namespace EditorDocs.Server

open Json (Value)

/-- The command for trees returns the image of the tree that is built. -/
lemma exec_getFiles {s : TreeSettings} {path : Text} {w w₁ : World} {tree : DirTree}
    {reports : List Skipped} (h : (s.build path).exec w = (.ok (tree, reports), w₁))
    (more : List Text) :
    (((Command.getFiles s).execute (path :: more)).exec w).1 = .ok tree.toJson := by
  have hexec := Action.exec_bind_ok (f := fun built : DirTree × List Skipped => do
    if !built.2.isEmpty then
      Command.report "GetFiles" .info "files.partial_tree"
        [("path", .string path), ("skipped", .int built.2.length)]
    pure built.1.toJson) h
  refine (congrArg Prod.fst hexec).trans ?_
  simp only
  split <;> rfl

/-- What the command for trees returns is the image of a tree that was built. -/
lemma exists_build_of_getFiles {s : TreeSettings} {args : List Text} {v : Value} {w w' : World}
    (h : ((Command.getFiles s).execute args).exec w = (.ok v, w')) :
    ∃ path tree reports w₁, (s.build path).exec w = (.ok (tree, reports), w₁) ∧ v = tree.toJson := by
  cases args with
  | nil => cases h
  | cons path more =>
    obtain ⟨⟨tree, reports⟩, w₁, hbuild, hrest⟩ := Action.of_bind h
    refine ⟨path, tree, reports, w₁, hbuild, ?_⟩
    simp only at hrest
    split at hrest
    · obtain ⟨u, w₂, -, htree⟩ := Action.of_bind hrest
      cases htree
      rfl
    · cases hrest
      rfl

/-- A response nests its result and its id one level deeper. -/
lemma nesting_okResponse (id v : Value) :
    (okResponse id v).nesting = max id.nesting v.nesting + 1 := by
  simp only [okResponse, Value.nesting, Json.nestingOfMembers]
  omega

/-- A response with a plain result is written if what it holds can be. -/
lemma fault?_okResponse {id v : Value} {budget : Nat} (hid : id.fault? budget = none)
    (hv : v.IsPlain) (hfits : v.nesting ≤ budget) :
    (okResponse id v).fault? (budget + 1) = none := by
  refine Json.faultMembers?_eq_none_iff.mpr fun m hm => ?_
  simp only [List.mem_cons, List.not_mem_nil, or_false] at hm
  rcases hm with rfl | rfl | rfl
  · exact hid
  · rfl
  · exact hv.fault?_eq_none hfits

/-- A payload whose command returns a value is responded to with this value. -/
lemma exec_handle_executes {r : Registry} {payload v : Value} {w : World} {method : Text}
    (h : Executes r payload w method (.ok v)) :
    ∃ w', (handle r payload).exec w = (.ok (okResponse (memberOrNull "id" payload) v), w') := by
  obtain ⟨hasks, hget, haccepts, hgives⟩ := h
  rename_i args c
  have hrequest : requestOf payload = .ok ⟨memberOrNull "id" payload, method, args⟩ :=
    requestOf_eq_ok_iff.mpr ⟨rfl, hasks⟩
  obtain ⟨w', hdispatch⟩ := r.exec_dispatch method args w
  rw [hget] at hdispatch
  simp only [Command.evaluate_of_accepts haccepts, hgives] at hdispatch
  obtain ⟨w'', hhandle, -⟩ := exec_handle_request hrequest hdispatch (by simp)
  exact ⟨w'', hhandle⟩

/-- A line that asks for a tree under an id that is no container is answered with the tree that it has
given. -/
def AnswersTrees (r : Registry) (budget : Nat) : Prop :=
  ∀ line payload, Json.readLine budget line.strip = .ok payload →
    (memberOrNull "id" payload).nesting = 0 →
    ∀ w v, Executes r payload w "GetFiles" (.ok v) →
      ∃ w', (respond r budget line).exec w =
        (.ok (some (Value.render .line (okResponse (memberOrNull "id" payload) v))), w')

/-- Requests for trees are answered with trees if trees of this height can be written. -/
lemma answersTrees {s : TreeSettings} {limit budget : Nat} (hmax : s.maxDepth = some limit)
    (hlimit : 2 * limit + 5 ≤ budget) {r : Registry}
    (hr : r.commands.get? ("GetFiles" : Text) = some (Command.getFiles s)) :
    AnswersTrees r budget := by
  intro line payload hread hscalar w v hx
  -- the value is the image of a tree, which is written within the limit
  have hfault : (okResponse (memberOrNull "id" payload) v).fault? budget = none := by
    obtain ⟨-, hget, -, hgives⟩ := hx
    cases hr.symm.trans hget
    obtain ⟨path, tree, reports, w₁, hbuild, rfl⟩ := exists_build_of_getFiles (Action.exec_eq hgives)
    have hheight := TreeSettings.height_of_build hmax hbuild
    obtain ⟨inner, rfl⟩ : ∃ inner, budget = inner + 1 := ⟨budget - 1, by omega⟩
    have hid := Json.Value.fault?_of_scalar hscalar (fault?_id (Json.fault?_of_readLine hread)) inner
    have hfits : tree.toJson.nesting ≤ inner := by
      rw [DirTree.nesting_toJson]
      omega
    exact fault?_okResponse hid tree.isPlain_toJson hfits
  obtain ⟨w₁, hhandle⟩ := exec_handle_executes hx
  refine ⟨w₁, ?_⟩
  have hencode : (encode budget (okResponse (memberOrNull "id" payload) v)).exec w₁ =
      (.ok (Value.render .line (okResponse (memberOrNull "id" payload) v)), w₁) := by
    rw [encode, hfault]
    rfl
  rw [exec_respond_of_not_blank r budget (isBlank_of_readLine hread), handleLine, hread]
  simp only [hhandle, hencode]

/-- The image of a tree that is built with a deepest level `limit` is nested at most `2 * limit + 4`
deep, and the response that holds it under an id that is no container one more.  If so much can be
written, no directory keeps a request that has given a tree from being answered with it.  With the
deepest level that holds by default this is so if 517 containers can be nested in a line. -/
theorem respond_getFiles (strict create : Bool) (limit : Nat) :
    let s : TreeSettings := ⟨strict, some limit, create⟩
    (∀ path w tree reports w', (s.build path).exec w = (.ok (tree, reports), w') →
      tree.toJson.nesting ≤ 2 * limit + 4 ∧
        ∀ id : Value, id.nesting = 0 → (okResponse id tree.toJson).nesting ≤ 2 * limit + 5) ∧
    (∀ budget, 2 * limit + 5 ≤ budget → ∀ r : Registry,
      r.commands.get? ("GetFiles" : Text) = some (Command.getFiles s) → AnswersTrees r budget) ∧
    ∀ budget, 517 ≤ budget → ∀ resolver,
      AnswersTrees (Registry.builtin resolver Settings.defaultTree) budget := by
  intro s
  have hdefault : Settings.defaultTree.maxDepth = some 256 := rfl
  refine ⟨fun path w tree reports w' hbuild => ?_,
    fun budget hlimit r hr => answersTrees rfl hlimit hr,
    fun budget hlimit resolver => answersTrees hdefault hlimit rfl⟩
  have hheight := TreeSettings.height_of_build (s := s) rfl hbuild
  have himage : tree.toJson.nesting ≤ 2 * limit + 4 := by
    rw [DirTree.nesting_toJson]
    omega
  refine ⟨himage, fun id hid => ?_⟩
  rw [nesting_okResponse, hid]
  omega

/-- A registry with the command for trees as it is by default. -/
def sampleFiles : Registry := ⟨[("GetFiles", Command.getFiles Settings.defaultTree)]⟩

/-- A request for the tree of the working directory. -/
def sampleListing : Text := "\x7b\"id\": 7, \"method\": \"GetFiles\", \"args\": [\".\"]\x7d"

/-- The request is answered with a tree. -/
theorem respond_getFiles_sample : ∃ (id : Value) (tree : DirTree) (w' : World),
    (respond sampleFiles 517 sampleListing).exec sampleWorld =
      (.ok (some (Value.render .line (okResponse id tree.toJson))), w') ∧
    (okResponse id tree.toJson).nesting ≤ 517 := by
  have hrequest : (Json.readLine 517 sampleListing.strip).toOption.map (fun payload =>
      ((requestOf payload).toOption.map (fun request => (request.method, request.args)),
        (memberOrNull "id" payload).nesting)) =
      some (some (("GetFiles" : Text), [("." : Text)]), 0) := by
    decide +kernel
  obtain ⟨payload, hread, hpayload⟩ := Option.map_eq_some_iff.mp hrequest
  obtain ⟨hcall, hscalar⟩ := Prod.mk.inj hpayload
  obtain ⟨⟨id, method, args⟩, hok, hsame⟩ := Option.map_eq_some_iff.mp hcall
  cases hsame
  have hasks : Asks payload "GetFiles" ["."] := (requestOf_eq_ok_iff.mp (Result.of_toOption hok)).2
  let w := Registry.dispatchedAt "GetFiles" ["."] sampleWorld
  have hpath : Files.IsPassable ("." : Text) := by
    unfold Files.IsPassable
    decide
  have hfew : ¬ (Settings.defaultTree.createMissing = true ∧
      Files.Lacks w.files w.host.stack.directories ".") := by
    decide
  have hbuild := TreeSettings.exec_build_lenient rfl hpath hfew
  have hexecutes : Executes sampleFiles payload sampleWorld "GetFiles" (.ok _) :=
    .intro hasks rfl rfl (exec_getFiles hbuild [])
  obtain ⟨hnesting, hanswers, -⟩ := respond_getFiles false true 256
  obtain ⟨w', hrespond⟩ := hanswers 517 (by decide) sampleFiles rfl _ payload
    (Result.of_toOption hread) hscalar sampleWorld _ hexecutes
  exact ⟨_, _, w', hrespond, (hnesting _ _ _ _ _ hbuild).2 _ hscalar⟩

end EditorDocs.Server
