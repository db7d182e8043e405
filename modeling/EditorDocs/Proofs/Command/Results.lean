import EditorDocs.Proofs.Command.Blind
import EditorDocs.Proofs.Json.Pretty
import EditorDocs.Proofs.World.Native

/-!
# What commands come to

The commands of an editor return texts, indices and trees, which are values without numbers and of
which the objects have distinct names, and they fail in kinds of the library
(`Builtin.comes_evaluate`).  None of these is among the kinds that a server gives to requests for
which no command is to blame (`Failure.IsNative.kind_notMem`).  So the outcome of a call by name
is of one of two kinds (`Builtin.isNative_dispatch`), and a call without one has failed natively or
has not found its command.
-/

namespace EditorDocs

open EditorDocs.Action

/-! ## Kinds -/

/-- The kinds that a server gives to requests for which no command is to blame. -/
def Server.kinds : List Text := ["INVALID_REQUEST", "UNKNOWN_COMMAND", "INTERNAL_ERROR"]

/-- The kinds of the library are none of a server's and hold no surrogates. -/
lemma Failure.IsNative.kind_notMem {e : Failure} (h : e.IsNative) :
    e.kind ∉ Server.kinds ∧ e.kind.IsScalar := by
  have herrno : ∀ errno : Errno, errno.kind ∉ Server.kinds ∧ errno.kind.IsScalar := by
    intro errno
    cases errno <;> decide
  cases e with
  | foreign family kind named message => exact h.elim
  | unknownCommand name available => exact h.elim
  | system e => exact herrno e.errno
  | _ => simp only [kind]; decide

/-! ## Fetching -/

/-- To take what was received as an index is native. -/
lemma Index.isNative_receive (r : Json.Reader) (source : Text) (payload : Bytes) :
    (Action.ofExcept (Index.receive r source payload)).IsNative := by
  refine isNative_ofExcept fun e he => ?_
  unfold Index.receive at he
  split at he
  · cases he
  · cases he
    exact trivial

namespace Sources

variable {s : Sources} {e : Failure}

/-- That a language has no source is a native failure. -/
lemma isNative_of_indexUrl {language : Text} (h : s.indexUrl language = .error e) :
    e.IsNative := by
  unfold indexUrl at h
  split at h
  · cases h
  · cases h
    exact trivial

/-- That a language has no slug is a native failure. -/
lemma isNative_of_slug {language : Text} (h : s.slug language = .error e) : e.IsNative := by
  unfold slug at h
  cases hurl : s.indexUrl language with
  | error e' =>
    rw [hurl] at h
    cases h
    exact isNative_of_indexUrl hurl
  | ok url =>
    rw [hurl] at h
    cases hpath : Url.path url with
    | error e' =>
      simp only [bind, Except.bind, hpath] at h
      cases h
      cases Command.isHostFault_of_path hpath <;> exact trivial
    | ok path =>
      simp only [bind, Except.bind, hpath] at h
      split at h
      · cases h
      · cases h
        exact trivial

/-- That a path names no document is a native failure. -/
lemma isNative_of_documentUrl {path : Text} (h : s.documentUrl path = .error e) : e.IsNative := by
  unfold documentUrl at h
  generalize (path.trimBoth (· = ('/' : CodePoint))).cut ('/' : CodePoint) = parts at h
  simp only at h
  split at h
  · cases h
    exact trivial
  · cases hslug : s.slug parts.1 with
    | error e' =>
      rw [hslug] at h
      cases h
      exact isNative_of_slug hslug
    | ok slug =>
      rw [hslug] at h
      cases h

end Sources

namespace Fetcher

/-- To fetch is native. -/
lemma isNative_get (url : Text) : (get url).IsNative := by
  refine (isNative_report _).bind fun _ => (isNative_request url).bind fun reply => ?_
  unfold body
  split
  · split
    · exact isNative_pure _
    · exact (isNative_report _).bind fun _ => isNative_throw trivial
  · exact (isNative_report _).bind fun _ => isNative_throw trivial
  · exact isNative_throw trivial
  · exact isNative_throw trivial
  · exact isNative_throw trivial

/-- To fetch an index is native. -/
lemma isNative_fetchIndex (f : Fetcher) (language : Text) : (f.fetchIndex language).IsNative := by
  have hurl : (Action.ofExcept (f.sources.indexUrl language)).IsNative :=
    isNative_ofExcept fun e he => Sources.isNative_of_indexUrl he
  refine hurl.bind fun url => isNative_reader.bind fun r => (isNative_get url).bind fun payload => ?_
  exact (Index.isNative_receive r url payload).bind fun index =>
    (isNative_report _).bind fun _ => isNative_pure index

/-- To fetch a document is native. -/
lemma isNative_fetchDocument (f : Fetcher) (path : Text) : (f.fetchDocument path).IsNative := by
  have hurl : (Action.ofExcept (f.sources.documentUrl path)).IsNative :=
    isNative_ofExcept fun e he => Sources.isNative_of_documentUrl he
  have htext : ∀ url content, (Action.ofExcept (documentText url content)).IsNative := by
    intro url content
    refine isNative_ofExcept fun e he => ?_
    unfold documentText at he
    split at he
    · cases he
    · cases he
      exact trivial
  refine hurl.bind fun url => (isNative_get url).bind fun content => ?_
  exact (htext url content).bind fun text => (isNative_report _).bind fun _ => isNative_pure text

end Fetcher

/-! ## Records -/

namespace Cache

/-- To read a record is native. -/
lemma isNative_read (c : Cache) (language : Text) : (c.read language).IsNative := by
  have hbytes : (readBytes (c.recordPath language).text).IsNative := by
    refine (Files.isNative_read _).tryCatch fun e he => ?_
    split
    · exact isNative_throw trivial
    · exact isNative_throw he
  refine isNative_reader.bind fun r => hbytes.bind fun bytes => ?_
  refine (Index.isNative_receive r _ bytes).bind fun index => ?_
  exact (isNative_report _).bind fun _ => isNative_pure index

/-- To give a temporary file the content of a record and move it is native. -/
lemma isNative_install (temporary : Text) (file : FileSystem.Location) (path : Path)
    (index : Index) : (install temporary file path index).IsNative := by
  have hmove : IsNative (do
      Files.storeText file index.render
      Files.replace temporary path.text) :=
    (Files.isNative_storeText file _).bind fun _ => Files.isNative_replace temporary _
  have hrefused : ∀ run, (throw (.unwritableText run) : Action Unit).IsNative :=
    fun run => isNative_throw trivial
  unfold install
  split
  · exact (hrefused _).bind fun _ => hmove
  · exact (isNative_pure ()).bind fun _ => hmove

/-- To write a record is native. -/
lemma isNative_write (c : Cache) (language : Text) (index : Index) :
    (c.write language index).IsNative := by
  unfold write
  refine (Files.isNative_makePath c.directory).bind fun _ => ?_
  refine (Files.isNative_createFresh c.directory _ _).bind fun created => ?_
  refine ((isNative_install _ _ _ _).tryCatch fun e he => ?_).bind fun _ => ?_
  · exact (Files.isNative_discard _).bind fun _ => isNative_throw he
  · exact (isNative_report _).bind fun _ => isNative_pure _

end Cache

/-- To resolve an index is native. -/
lemma Resolver.isNative_resolve (r : Resolver) (language : Text) : (r.resolve language).IsNative := by
  have hcached : (r.isCached language).IsNative := by
    refine (Files.isNative_exists? _).tryCatch fun e he => ?_
    split
    · exact isNative_throw trivial
    · exact isNative_throw he
  have hrecord : ∀ index, (r.record language index).IsNative := by
    intro index
    refine ((r.cache.isNative_write language index).bind fun _ => isNative_pure ()).tryCatch
      fun e he => ?_
    split
    · exact isNative_report _
    · exact isNative_throw he
  refine hcached.bind fun found => ?_
  cases found with
  | true => exact r.cache.isNative_read language
  | false =>
    exact (isNative_report _).bind fun _ => (r.fetcher.isNative_fetchIndex language).bind
      fun index => (hrecord index).bind fun _ => isNative_pure index

/-! ## Trees -/

/-- To build a tree is native. -/
lemma TreeSettings.isNative_build (s : TreeSettings) (path : Text) : (s.build path).IsNative := by
  have hprepare : (s.prepare path).IsNative := by
    unfold prepare
    split
    · have hmake : (makeMissing path).IsNative :=
        isNative_get.bind fun w => Files.isNative_makeDirectories _ path
      refine hmake.tryCatch fun e he => ?_
      split
      · exact isNative_report _
      · exact isNative_throw he
    · exact isNative_pure ()
  have hcollect : ∀ (skipped : List Skipped) (collected : Option (List Skipped)),
      (skipped.foldlM collect collected).IsNative := by
    intro skipped
    induction skipped with
    | nil => exact fun collected => isNative_pure collected
    | cons first rest ih =>
      exact fun collected => ((isNative_report _).bind fun _ => isNative_pure _).bind fun _ => ih _
  refine IsNative.bind (hprepare.bind fun _ => ?_) fun _ => isNative_pure _
  split
  · rename_i hrefused
    exact isNative_throw (Files.isNative_refusal hrefused)
  · refine isNative_get.bind fun w => ?_
    split
    · exact isNative_throw trivial
    · exact (hcollect _ _).bind fun _ => isNative_pure _

/-! ## Values -/

namespace Action

variable {α β : Type} {P : α → Prop}

/-- Whatever the world, what the action gives has the property. -/
def Gives (P : α → Prop) (a : Action α) : Prop := ∀ w w' x, a.exec w = (.ok x, w') → P x

/-- The action fails natively, and what it gives has the property. -/
structure Comes (P : α → Prop) (a : Action α) : Prop where
  /-- Its failures are native. -/
  native : a.IsNative
  /-- What it gives has the property. -/
  gives : Gives P a

/-- What is given at once has the property. -/
lemma comes_pure {x : α} (h : P x) : Comes P (pure x : Action α) := by
  refine ⟨isNative_pure x, fun w w' y hy => ?_⟩
  cases hy
  exact h

/-- An action that fails natively gives nothing. -/
lemma comes_throw {e : Failure} (h : e.IsNative) : Comes P (throw e : Action α) := by
  refine ⟨isNative_throw h, fun w w' y hy => ?_⟩
  cases hy

/-- What actions in a row give is given by the last one. -/
lemma IsNative.comes {a : Action β} {f : β → Action α} (h : a.IsNative)
    (hf : ∀ x, Comes P (f x)) : Comes P (a >>= f) := by
  refine ⟨h.bind fun x => (hf x).native, fun w w' y hy => ?_⟩
  obtain ⟨x, v, -, hx⟩ := of_bind hy
  exact (hf x).gives v w' y hx

end Action

/-- An index is a plain value. -/
lemma Index.isPlain_toJson (i : Index) : i.toJson.IsPlain := by
  have hentry : ∀ e : Entry, e.toJson.IsPlain := by
    intro e
    have hnames : (Table.keys [(("name" : Text), Json.Value.string e.name), ("path", .string e.path),
        ("type", .string e.kind)]).Nodup := by
      show ([("name" : Text), "path", "type"]).Nodup
      decide
    refine .object hnames fun m hm => ?_
    simp only [List.mem_cons, List.not_mem_nil, or_false] at hm
    rcases hm with rfl | rfl | rfl
    · exact .string e.name
    · exact .string e.path
    · exact .string e.kind
  refine .object (by simp [Table.keys]) fun m hm => ?_
  obtain rfl := List.mem_singleton.mp hm
  refine .list fun v hv => ?_
  obtain ⟨e, -, rfl⟩ := List.mem_map.mp hv
  exact hentry e

namespace DirTree

/-- The image of a directory is plain if those of its subdirectories are. -/
lemma isPlain_image {files : List FileSystem.Name} {dirs : List Json.Value}
    (h : ∀ v ∈ dirs, v.IsPlain) : (image files dirs).IsPlain := by
  have hnames : (Table.keys [(("files" : Text), Json.Value.list (files.map .string)),
      ("dirs", .list dirs)]).Nodup := by
    show ([("files" : Text), "dirs"]).Nodup
    decide
  refine .object hnames fun m hm => ?_
  simp only [List.mem_cons, List.not_mem_nil, or_false] at hm
  rcases hm with rfl | rfl
  · refine .list fun v hv => ?_
    obtain ⟨name, -, rfl⟩ := List.mem_map.mp hv
    exact .string name
  · exact .list h

/-- The images of the trees on a stack are plain if those that are there already are. -/
lemma isPlain_imagesAfter {tasks : List ImageTask} {done : List Json.Value}
    (h : ∀ v ∈ done, v.IsPlain) : ∀ v ∈ imagesAfter tasks done, v.IsPlain := by
  -- along the rounds of the stack: what is done stays plain in each of them
  induction tasks, done using imagesAfter.induct with
  | case1 done =>
    rw [imagesAfter]
    exact h
  | case2 files count tasks done ih =>
    have himage : (image files (done.take count)).IsPlain :=
      isPlain_image fun v hv => h v (List.mem_of_mem_take hv)
    rw [imagesAfter]
    exact ih (List.forall_mem_cons.mpr ⟨himage, fun v hv => h v (List.mem_of_mem_drop hv)⟩)
  | case3 files dirs tasks done ih =>
    rw [imagesAfter]
    exact ih h

/-- A tree is a plain value. -/
lemma isPlain_toJson (t : DirTree) : t.toJson.IsPlain := by
  have himages : ∀ v ∈ imagesAfter [.visit t] [], v.IsPlain := isPlain_imagesAfter nofun
  unfold toJson
  cases himage : imagesAfter [.visit t] [] with
  | nil => exact .null
  | cons v rest => exact himages v (by rw [himage]; exact List.mem_cons_self)

end DirTree

/-! ## Commands -/

namespace Builtin

open Command

variable {r : Resolver} {s : TreeSettings}

/-- A command of an editor returns a plain value, or fails natively. -/
lemma comes_evaluate (b : Builtin) (args : List Text) :
    ((b.command r s).evaluate args).Comes Json.Value.IsPlain := by
  have hrefuse : ∀ name args, (refuse name args).Comes Json.Value.IsPlain :=
    fun _ _ => comes_throw trivial
  by_cases haccepts : (b.command r s).accepts args.length = true
  swap
  · unfold evaluate
    rw [if_neg haccepts]
    exact comes_throw trivial
  rw [evaluate_of_accepts haccepts]
  cases b with
  | hello => exact comes_pure (.string _)
  | getIndices =>
    cases args with
    | nil => exact hrefuse _ _
    | cons language more =>
      exact (r.isNative_resolve language).comes fun index => comes_pure index.isPlain_toJson
  | getPath =>
    cases args with
    | nil => exact hrefuse _ _
    | cons path more =>
      exact (r.fetcher.isNative_fetchDocument path).comes fun text => comes_pure (.string text)
  | getFiles =>
    cases args with
    | nil => exact hrefuse _ _
    | cons path more =>
      refine (s.isNative_build path).comes fun built => ?_
      have htree : (pure built.1.toJson : Action Json.Value).Comes Json.Value.IsPlain :=
        comes_pure built.1.isPlain_toJson
      simp only
      split
      · exact (isNative_report _).comes fun _ => htree
      · exact htree
  | openFile =>
    cases args with
    | nil => exact hrefuse _ _
    | cons path more =>
      have hopen : (Command.openFile path).IsNative := by
        refine (Files.isNative_read path).bind fun bytes => ?_
        split
        · exact isNative_pure _
        · exact isNative_throw trivial
      exact hopen.comes fun text => comes_pure (.string text)
  | writeFile =>
    rcases args with _ | ⟨path, _ | ⟨content, more⟩⟩
    · exact hrefuse _ _
    · exact hrefuse _ _
    · have hwrite : (Command.writeFile path content).IsNative :=
        (Files.isNative_openForWriting true path).bind fun file =>
          Files.isNative_storeText file content
      exact hwrite.comes fun _ => comes_pure (.string _)

end Builtin

/-! ## Outcomes -/

/-- The outcome is a plain value or a native failure. -/
inductive Outcome.IsNative : Outcome → Prop where
  /-- A value was returned. -/
  | completed {v : Json.Value} (h : v.IsPlain) : IsNative (.completed v)
  /-- The command has failed. -/
  | failed {e : Failure} (h : e.IsNative) : IsNative (.ofFailure e)

/-- A call by name gives a native outcome, or fails natively, or there is no command of the name. -/
lemma Builtin.isNative_dispatch (r : Resolver) (s : TreeSettings) (name : Text) (args : List Text)
    (w : World) :
    ∃ x w', ((Registry.builtin r s).dispatch name args).exec w = (x, w') ∧
      (x = .error (.unknownCommand name (Registry.builtin r s).commands.keys) ∨
        (∃ outcome, x = .ok outcome ∧ outcome.IsNative) ∨ ∃ e, x = .error e ∧ e.IsNative) := by
  obtain ⟨w', hdispatch⟩ := (Registry.builtin r s).exec_dispatch name args w
  cases hget : (Registry.builtin r s).commands.get? name with
  | none =>
    rw [hget] at hdispatch
    exact ⟨_, w', hdispatch, Or.inl rfl⟩
  | some c =>
    have hfound : (Registry.builtin r s).get name = .ok c := by rw [Registry.get, hget]
    obtain ⟨b, rfl, -⟩ := Builtin.exists_of_get hfound
    rw [hget] at hdispatch
    rcases hexec : (((b.command r s).evaluate args).exec
      (Registry.dispatchedAt name args w)) with ⟨e | v, w''⟩
    · have hnative := (b.comes_evaluate args).native _ _ _ hexec
      cases hanswer : Command.isAnswer e with
      | true =>
        simp only [hexec, hanswer, if_true] at hdispatch
        exact ⟨_, w', hdispatch, Or.inr (Or.inl ⟨_, rfl, .failed hnative⟩)⟩
      | false =>
        simp only [hexec, hanswer, if_neg Bool.false_ne_true] at hdispatch
        exact ⟨_, w', hdispatch, Or.inr (Or.inr ⟨e, rfl, hnative⟩)⟩
    · have hplain := (b.comes_evaluate args).gives _ _ _ hexec
      simp only [hexec] at hdispatch
      exact ⟨_, w', hdispatch, Or.inr (Or.inl ⟨_, rfl, .completed hplain⟩)⟩

end EditorDocs
