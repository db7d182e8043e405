import EditorDocs.Command.Builtin
import EditorDocs.Proofs.Table
import EditorDocs.Proofs.World.Action
import Mathlib.Data.Finset.Card
import Mathlib.Data.List.Lex
import Mathlib.Tactic.Lemma

/-!
# What a registry shows after registrations

A registration is refused if its name is taken and it may not take the place of another command; then
the registry stays as it was.  So a registry is known by its history, the commands that were registered
with success, in order (`Registration.history`): each registration keeps that it is the table of its
history (`Registry.Records.after`), and so does every run of registrations (`Registry.Records.run`).

What the registry shows is then read off its history (`Registry.Shows`).  Under a name stands the
command that was registered last under it, the names are in the order in which they first came, and the
listing holds the command of every name once, with the names in strictly increasing order.
-/

namespace EditorDocs

/-! ## The order of names -/

/-- Code points of which neither is lower are the same. -/
lemma CodePoint.eq_of_not_lt {a b : CodePoint} (h : ¬ a.val < b.val) (h' : ¬ b.val < a.val) :
    a = b := by
  cases a
  cases b
  simp only [CodePoint.mk.injEq]
  exact le_antisymm (not_lt.mp h') (not_lt.mp h)

namespace Text

/-- The first text comes before the second one: where they first differ it has the lower code point, or
it ends there. -/
def Before (s t : Text) : Prop := List.Lex (fun a b : CodePoint => a.val < b.val) s t

/-- A text that comes before another one comes before all that this one comes before. -/
lemma Before.trans {s t u : Text} (h : s.Before t) (h' : t.Before u) : s.Before u := by
  induction h generalizing u with
  | nil => cases h' <;> exact .nil
  | cons _ ih =>
    cases h' with
    | rel hlt => exact .rel hlt
    | cons hrest => exact .cons (ih hrest)
  | rel hlt =>
    cases h' with
    | rel hlt' => exact .rel (hlt.trans hlt')
    | cons _ => exact .rel hlt

/-- Texts that are in order are the same, or the first one comes before the second. -/
lemma eq_or_before_of_le {s t : Text} (h : s.le t = true) : s = t ∨ s.Before t := by
  induction s generalizing t with
  | nil =>
    cases t with
    | nil => exact Or.inl rfl
    | cons b t => exact Or.inr .nil
  | cons a s ih =>
    cases t with
    | nil => cases h
    | cons b t =>
      rw [le] at h
      split at h
      · rename_i hlt
        exact Or.inr (.rel hlt)
      split at h
      · cases h
      · rename_i hlt hgt
        obtain rfl : a = b := CodePoint.eq_of_not_lt hlt hgt
        exact (ih h).imp (congrArg (a :: ·)) .cons

/-- Of texts that are not in order, the second one comes before the first. -/
lemma before_of_not_le {s t : Text} (h : s.le t = false) : t.Before s := by
  induction s generalizing t with
  | nil => cases t <;> cases h
  | cons a s ih =>
    cases t with
    | nil => exact .nil
    | cons b t =>
      rw [le] at h
      split at h
      · cases h
      split at h
      · rename_i hlt
        exact .rel hlt
      · rename_i hlt hgt
        obtain rfl : a = b := CodePoint.eq_of_not_lt hlt hgt
        exact .cons (ih h)

end Text

/-! ## Sorting by name -/

namespace Registry

/-- A command that is put in among others is there with them. -/
lemma insertByName_perm (c : Command) (cs : List Command) :
    (insertByName c cs).Perm (c :: cs) := by
  induction cs with
  | nil => exact List.Perm.refl _
  | cons d rest ih =>
    rw [insertByName]
    split
    · exact List.Perm.refl _
    · exact (ih.cons d).trans (List.Perm.swap c d rest)

/-- Sorting by name leaves the commands the same. -/
lemma sortByName_perm (cs : List Command) : (sortByName cs).Perm cs := by
  induction cs with
  | nil => exact List.Perm.refl _
  | cons c rest ih => exact (insertByName_perm c _).trans (ih.cons c)

/-- The names of the commands increase strictly. -/
def IsIncreasing (cs : List Command) : Prop := cs.Pairwise fun c d => c.name.Before d.name

/-- A command of a new name that is put in among commands in order leaves them in order. -/
lemma IsIncreasing.insertByName {c : Command} {cs : List Command} (hcs : IsIncreasing cs)
    (hnew : ∀ d ∈ cs, c.name ≠ d.name) : IsIncreasing (insertByName c cs) := by
  induction cs with
  | nil => exact List.pairwise_singleton _ _
  | cons d rest ih =>
    obtain ⟨hd, hrest⟩ := List.pairwise_cons.mp hcs
    rw [Registry.insertByName]
    cases hle : c.name.le d.name with
    | true =>
      have hbefore : c.name.Before d.name :=
        (Text.eq_or_before_of_le hle).resolve_left (hnew d List.mem_cons_self)
      rw [if_pos rfl]
      refine List.pairwise_cons.mpr ⟨fun e he => ?_, hcs⟩
      rcases List.mem_cons.mp he with rfl | he
      · exact hbefore
      · exact hbefore.trans (hd e he)
    | false =>
      rw [if_neg Bool.false_ne_true]
      have hinsert : IsIncreasing (Registry.insertByName c rest) :=
        ih hrest fun e he => hnew e (List.mem_cons_of_mem d he)
      refine List.pairwise_cons.mpr ⟨fun e he => ?_, hinsert⟩
      rcases List.mem_cons.mp ((insertByName_perm c rest).mem_iff.mp he) with rfl | he
      · exact Text.before_of_not_le hle
      · exact hd e he

/-- Commands of different names are in order once they are sorted. -/
lemma isIncreasing_sortByName {cs : List Command} (h : (cs.map Command.name).Nodup) :
    IsIncreasing (sortByName cs) := by
  induction cs with
  | nil => exact List.Pairwise.nil
  | cons c rest ih =>
    obtain ⟨hnew, hrest⟩ := List.nodup_cons.mp h
    refine (ih hrest).insertByName fun d hd hname => hnew ?_
    rw [hname]
    exact List.mem_map_of_mem ((sortByName_perm rest).mem_iff.mp hd)

end Registry

/-! ## Registrations -/

/-- A command that is registered, possibly in the place of another one. -/
structure Registration where
  /-- The command. -/
  command : Command
  /-- Whether it may take the place of another command of its name. -/
  replaces : Bool

namespace Registration

/-- After the commands `history` the registration is refused: its name is taken, and it may not take
the place of another command. -/
def IsRefused (history : List Command) (g : Registration) : Prop :=
  g.command.name ∈ history.map Command.name ∧ g.replaces = false

instance (history : List Command) (g : Registration) : Decidable (g.IsRefused history) :=
  inferInstanceAs (Decidable (_ ∧ _))

/-- The commands that have been registered with success when registrations follow those of the commands
`before`. -/
def history (before : List Command) (gs : List Registration) : List Command :=
  gs.foldl (fun cs g => if g.IsRefused cs then cs else cs ++ [g.command]) before

end Registration

namespace Registry

/-- The registry after a registration; one that is refused leaves it as it is. -/
def after (r : Registry) (g : Registration) : Registry :=
  match r.register g.command g.replaces with
  | .ok r' => r'
  | .error _ => r

/-- The registry after registrations, one after the other. -/
def run (r : Registry) (gs : List Registration) : Registry := gs.foldl after r

/-- The registry that registrations start from. -/
inductive Start where
  /-- There are no commands in it. -/
  | empty
  /-- The commands of an editor have been registered in it. -/
  | builtin (r : Resolver) (s : TreeSettings)

namespace Start

/-- The commands that have been registered at the start, in order. -/
def commands : Start → List Command
  | empty => []
  | builtin r s => Command.builtin r s

/-- The registry at the start. -/
def registry : Start → Registry
  | empty => Registry.empty
  | builtin r s => Registry.builtin r s

end Start

/-! ## The table of a history -/

/-- The registry holds the commands of a history, each under its name. -/
def Records (r : Registry) (history : List Command) : Prop :=
  r.commands = Table.ofPairs (history.map fun c => (c.name, c))

namespace Records

variable {r : Registry} {history : List Command}

/-- The names are those of the history, in the order in which they first came. -/
lemma keys_eq (h : r.Records history) :
    r.commands.keys = (history.map Command.name).eraseDups := by
  rw [h, Table.keys_ofPairs, List.map_map]
  rfl

/-- No name is there twice. -/
lemma nodup_keys (h : r.Records history) : r.commands.keys.Nodup := by
  rw [h]
  exact Table.nodup_keys_ofPairs _

/-- A name is there if it is one of the history. -/
lemma has_iff (h : r.Records history) (name : Text) :
    r.has name = true ↔ name ∈ history.map Command.name := by
  rw [has, Table.has_iff_mem_keys, h.keys_eq, List.mem_eraseDups]

/-- Under a name stands the last command of the history that has it. -/
lemma get?_eq (h : r.Records history) (name : Text) :
    r.commands.get? name = (history.filter fun c => c.name = name).getLast? := by
  rw [h]
  clear h
  induction history using List.reverseRecOn with
  | nil => rfl
  | append_singleton cs c ih =>
    rw [List.map_append, List.map_singleton, Table.ofPairs_concat, Table.get?_put, ih,
      List.filter_append]
    by_cases hname : c.name = name
    · simp [hname]
    · simp [hname]

/-- Every command stands under its own name. -/
lemma name_eq (h : r.Records history) {entry : Text × Command} (hentry : entry ∈ r.commands) :
    entry.1 = entry.2.name := by
  rw [h] at hentry
  obtain ⟨c, -, rfl⟩ := List.mem_map.mp (Table.mem_of_mem_ofPairs hentry)
  rfl

/-- The names of the commands are those under which they stand. -/
lemma map_name (h : r.Records history) :
    (r.commands.map Prod.snd).map Command.name = r.commands.keys := by
  rw [List.map_map, Table.keys]
  exact List.map_congr_left fun entry hentry => (h.name_eq hentry).symm

/-- A registration that is refused is a failure. -/
lemma register_refused (h : r.Records history) {g : Registration} (hg : g.IsRefused history) :
    r.register g.command g.replaces = .error (.duplicateCommand g.command.name) := by
  rw [register, (h.has_iff _).mpr hg.1, hg.2]
  rfl

/-- Any other registration puts the command under its name. -/
lemma register_accepted (h : r.Records history) {g : Registration} (hg : ¬ g.IsRefused history) :
    r.register g.command g.replaces = .ok ⟨r.commands.put g.command.name g.command⟩ := by
  rw [register, if_neg]
  intro htaken
  rw [Bool.and_eq_true, h.has_iff, Bool.not_eq_true'] at htaken
  exact hg htaken

/-- A registration adds its command to the history unless it is refused. -/
lemma after (h : r.Records history) (g : Registration) :
    (r.after g).Records (if g.IsRefused history then history else history ++ [g.command]) := by
  unfold Registry.after
  split
  · rename_i r' hr'
    have hg : ¬ g.IsRefused history := by
      intro hg
      rw [h.register_refused hg] at hr'
      cases hr'
    rw [h.register_accepted hg] at hr'
    cases hr'
    rw [if_neg hg, Records, List.map_append, List.map_singleton, Table.ofPairs_concat, ← h]
  · rename_i e he
    have hg : g.IsRefused history := by
      by_contra hg
      rw [h.register_accepted hg] at he
      cases he
    rw [if_pos hg]
    exact h

/-- Registrations leave the registry with their history. -/
lemma run (h : r.Records history) (gs : List Registration) :
    (r.run gs).Records (Registration.history history gs) := by
  induction gs generalizing r history with
  | nil => exact h
  | cons g gs ih => exact ih (h.after g)

end Records

/-- At the start the registry has the history of its commands. -/
lemma Start.records (start : Start) : start.registry.Records start.commands := by
  cases start with
  | empty => rfl
  | builtin r s =>
    refine (Table.ofPairs_eq_self ?_).symm
    change (["Hello", "GetIndices", "GetPath", "GetFiles", "OpenFile", "WriteFile"] :
      List Text).Nodup
    decide

/-! ## What is shown -/

/-- What a registry shows of a history. -/
structure Shows (r : Registry) (history : List Command) : Prop where
  /-- A registration is refused if its name is there and it may not take the place of another one. -/
  isRefused_iff : ∀ g : Registration,
    g.IsRefused history ↔ r.has g.command.name = true ∧ g.replaces = false
  /-- Then it fails, and the registry stays as it is. -/
  refused : ∀ g : Registration, g.IsRefused history →
    r.register g.command g.replaces = .error (.duplicateCommand g.command.name) ∧ r.after g = r
  /-- Otherwise it succeeds. -/
  accepted : ∀ g : Registration, ¬ g.IsRefused history →
    r.register g.command g.replaces = .ok (r.after g)
  /-- A name leads to the command that was registered last under it.  Where there is none, all names are
  told, in the order in which they first came. -/
  get : ∀ name, r.get name = match (history.filter fun c => c.name = name).getLast? with
    | some c => .ok c
    | none => .error (.unknownCommand name (history.map Command.name).eraseDups)
  /-- This command is the one that is called; where there is none, nothing is done. -/
  dispatch : ∀ name args, r.dispatch name args =
    match (history.filter fun c => c.name = name).getLast? with
    | some c => do
      report "command.dispatch" [("command", .string name), ("args", .int args.length)]
      c.call args
    | none => throw (.unknownCommand name (history.map Command.name).eraseDups)
  /-- A name is there if it leads to a command. -/
  has : ∀ name, r.has name = true ↔ ∃ c, r.get name = .ok c
  /-- The names in the listing increase strictly. -/
  increasing : IsIncreasing r.listAll
  /-- A command is in the listing if its name leads to it. -/
  listed : ∀ c, c ∈ r.listAll ↔ r.get c.name = .ok c
  /-- The count is the number of different names. -/
  count : r.count = (history.map Command.name).toFinset.card
  /-- The registry is shown with this number. -/
  shown : r.shown = ("<CommandRegistry(" : Text) ++
    Text.ofNat (history.map Command.name).toFinset.card ++ " commands)>"

namespace Records

variable {r : Registry} {history : List Command} (h : r.Records history)
include h

/-- A name leads to the last command of the history that has it. -/
lemma get_eq (name : Text) :
    r.get name = match (history.filter fun c => c.name = name).getLast? with
      | some c => .ok c
      | none => .error (.unknownCommand name (history.map Command.name).eraseDups) := by
  cases hlast : (history.filter fun c => c.name = name).getLast? with
  | none => simp only [get, h.get?_eq, h.keys_eq, hlast]
  | some c => simp only [get, h.get?_eq, hlast]

/-- This command is the one that is called. -/
lemma dispatch_eq (name : Text) (args : List Text) :
    r.dispatch name args = match (history.filter fun c => c.name = name).getLast? with
      | some c => do
        report "command.dispatch" [("command", .string name), ("args", .int args.length)]
        c.call args
      | none => throw (.unknownCommand name (history.map Command.name).eraseDups) := by
  rw [dispatch, h.get_eq]
  cases (history.filter fun c => c.name = name).getLast? <;> rfl

omit h in
/-- A name leads to a command if the command stands under it. -/
lemma get_eq_ok {name : Text} {c : Command} :
    r.get name = .ok c ↔ r.commands.get? name = some c := by
  rw [get]
  cases r.commands.get? name <;> simp

/-- The listing holds each command under whose own name it stands. -/
lemma mem_listAll_iff (c : Command) : c ∈ r.listAll ↔ r.get c.name = .ok c := by
  rw [listAll, (sortByName_perm _).mem_iff, get_eq_ok, List.mem_map]
  constructor
  · rintro ⟨⟨name, d⟩, hentry, rfl⟩
    have hname : name = d.name := h.name_eq hentry
    rw [← hname]
    exact Table.get?_of_mem h.nodup_keys hentry
  · intro hget
    exact ⟨(c.name, c), Table.mem_of_get? hget, rfl⟩

/-- The count is the number of different names. -/
lemma count_eq : r.count = (history.map Command.name).toFinset.card := by
  have hkeys : r.commands.keys.toFinset = (history.map Command.name).toFinset := by
    ext name
    rw [List.mem_toFinset, List.mem_toFinset, h.keys_eq, List.mem_eraseDups]
  rw [← hkeys, List.toFinset_card_of_nodup h.nodup_keys, Table.keys, List.length_map]
  rfl

/-- A registry shows its history. -/
lemma shows : r.Shows history where
  isRefused_iff g := and_congr_left fun _ => (h.has_iff _).symm
  refused g hg := by
    have hregister := h.register_refused hg
    exact ⟨hregister, by rw [Registry.after, hregister]⟩
  accepted g hg := by rw [Registry.after, h.register_accepted hg]
  get := h.get_eq
  dispatch := h.dispatch_eq
  has name := by
    simp only [get_eq_ok, has, Table.has, Option.isSome_iff_exists]
  increasing := isIncreasing_sortByName (by
    rw [h.map_name]
    exact h.nodup_keys)
  listed := h.mem_listAll_iff
  count := h.count_eq
  shown := by rw [Registry.shown, h.count_eq]

end Records

/-- The commands at the start are registered one after the other, without a failure.  After any further
registrations the registry shows the history of those that succeeded. -/
theorem run_shows (start : Start) (gs : List Registration) :
    start.commands.foldlM (fun r c => r.register c false) Registry.empty = .ok start.registry ∧
      (start.registry.run gs).Shows (Registration.history start.commands gs) := by
  refine ⟨?_, (start.records.run gs).shows⟩
  cases start with
  | empty => rfl
  | builtin r s => rfl

end Registry

end EditorDocs
