import EditorDocs.Table
import Mathlib.Data.List.Induction
import Mathlib.Tactic.Lemma

/-!
# What a table holds

A table with a value put under a key has this value there, and its other pairs are those that it had
(`Table.get?_put`, `Table.mem_of_mem_put`).  Its keys stay different (`Table.nodup_keys_put`), and then
each leads to its own value (`Table.get?_of_mem`).

A table that arises from pairs which are put one after the other has their keys in the order in which
they first come (`Table.keys_ofPairs`), and under each key the value that comes last
(`Table.get?_ofPairs_eq_some_iff`).
-/

namespace EditorDocs.Table

variable {κ α : Type} [DecidableEq κ]

/-! ## Values -/

/-- A value that is put under a key is found there, and other keys keep theirs. -/
lemma get?_put (key k : κ) (value : α) (t : Table κ α) :
    get? k (put key value t) = if key = k then some value else get? k t := by
  induction t with
  | nil => simp [put, get?]
  | cons e rest ih =>
    obtain ⟨k', v'⟩ := e
    by_cases h : k' = key
    · subst h
      by_cases hk : k' = k <;> simp [put, get?, hk]
    · by_cases hk : k' = k
      · subst hk
        simp [put, get?, h, Ne.symm h]
      · simp [put, get?, h, hk, ih]

/-- What is found under a key is in the table. -/
lemma mem_of_get? {t : Table κ α} {key : κ} {value : α} (h : t.get? key = some value) :
    (key, value) ∈ t := by
  induction t with
  | nil => cases h
  | cons entry rest ih =>
    obtain ⟨k, v⟩ := entry
    rw [get?] at h
    split at h
    · rename_i hk
      cases h
      rw [hk]
      exact List.mem_cons_self
    · exact List.mem_cons_of_mem _ (ih h)

/-- Among different keys each leads to its own value. -/
lemma get?_of_mem {t : Table κ α} (ht : t.keys.Nodup) {key : κ} {value : α}
    (h : (key, value) ∈ t) : t.get? key = some value := by
  induction t with
  | nil => cases h
  | cons entry rest ih =>
    obtain ⟨hnew, hrest⟩ := List.nodup_cons.mp ht
    rw [get?]
    rcases List.mem_cons.mp h with rfl | hmem
    · rw [if_pos rfl]
    · have hne : entry.1 ≠ key := by
        intro he
        have hkey : key ∈ keys rest := List.mem_map_of_mem (f := Prod.fst) hmem
        exact hnew (he ▸ hkey)
      rw [if_neg hne]
      exact ih hrest hmem

/-- A table holds the keys of its pairs. -/
lemma has_iff_mem_keys {t : Table κ α} {key : κ} : t.has key = true ↔ key ∈ t.keys := by
  induction t with
  | nil => simp [has, get?, keys]
  | cons entry rest ih =>
    obtain ⟨k, v⟩ := entry
    rw [has] at ih
    rw [has, get?, keys, List.map_cons, List.mem_cons, ← keys]
    by_cases hk : k = key
    · simp [hk]
    · rw [if_neg hk, ih]
      simp [Ne.symm hk]

/-! ## Putting -/

/-- A new key goes to the end. -/
lemma put_of_notMem {key : κ} (value : α) {t : Table κ α} (h : key ∉ t.keys) :
    put key value t = t ++ [(key, value)] := by
  induction t with
  | nil => rfl
  | cons e rest ih =>
    obtain ⟨k, v⟩ := e
    rw [keys, List.map_cons, List.mem_cons, not_or] at h
    rw [put, if_neg (Ne.symm h.1), ih h.2, List.cons_append]

/-- Pairs with new and distinct keys that are put one after the other stand at the end. -/
lemma foldl_put {pairs t : Table κ α} (h : (t ++ pairs).keys.Nodup) :
    pairs.foldl (fun t (k, v) => t.put k v) t = t ++ pairs := by
  induction pairs generalizing t with
  | nil => simp
  | cons e rest ih =>
    obtain ⟨k, v⟩ := e
    have hk : k ∉ t.keys := by
      rw [keys, List.map_append, List.map_cons] at h
      exact fun hm => (List.nodup_append.mp h).2.2 k hm k List.mem_cons_self rfl
    have hput : put k v t = t ++ [(k, v)] := put_of_notMem v hk
    simp only [List.foldl_cons, hput]
    rw [ih (by simpa using h), List.append_assoc, List.singleton_append]

/-- Pairs with distinct keys are a table as they are. -/
lemma ofPairs_eq_self {pairs : Table κ α} (h : pairs.keys.Nodup) : ofPairs pairs = pairs := by
  rw [ofPairs, foldl_put (by simpa using h), List.nil_append]

/-- A pair of a table in which a value was put is that value with its key, or was there. -/
lemma mem_of_mem_put {key : κ} {value : α} {t : Table κ α} {m : κ × α}
    (h : m ∈ t.put key value) : m ∈ t ∨ m = (key, value) := by
  induction t with
  | nil => exact Or.inr (List.mem_singleton.mp h)
  | cons e rest ih =>
    obtain ⟨k, v⟩ := e
    rw [put] at h
    split at h
    · rename_i hk
      subst hk
      rcases List.mem_cons.mp h with heq | hrest
      · exact Or.inr heq
      · exact Or.inl (List.mem_cons_of_mem _ hrest)
    · rcases List.mem_cons.mp h with heq | hrest
      · exact Or.inl (heq ▸ List.mem_cons_self)
      · rcases ih hrest with hrest | heq
        · exact Or.inl (List.mem_cons_of_mem _ hrest)
        · exact Or.inr heq

/-- A value that is put under a key that is there leaves the keys as they are. -/
lemma keys_put_of_mem {key : κ} (value : α) {t : Table κ α} (h : key ∈ t.keys) :
    (put key value t).keys = t.keys := by
  induction t with
  | nil => cases h
  | cons e rest ih =>
    obtain ⟨k, v⟩ := e
    rw [put]
    by_cases hk : k = key
    · rw [if_pos hk]
      rfl
    · have hrest : key ∈ keys rest := (List.mem_cons.mp h).resolve_left (Ne.symm hk)
      rw [if_neg hk]
      exact congrArg (k :: ·) (ih hrest)

/-- Keys stay different when a value is put. -/
lemma nodup_keys_put (key : κ) (value : α) {t : Table κ α} (h : t.keys.Nodup) :
    (put key value t).keys.Nodup := by
  by_cases hkey : key ∈ t.keys
  · rw [keys_put_of_mem value hkey]
    exact h
  · rw [put_of_notMem value hkey, keys, List.map_append]
    refine List.nodup_append.mpr ⟨h, by simp, fun k hmem k' hk' hsame => ?_⟩
    rw [List.map_singleton, List.mem_singleton] at hk'
    have hk : k = key := hsame.trans hk'
    exact hkey (hk ▸ hmem)

/-! ## Putting one after the other -/

/-- Among pairs with different keys that are put one after the other, each takes the place of what was
under its key. -/
lemma get?_foldl_put {pairs : Table κ α} (h : pairs.keys.Nodup) (t : Table κ α) (key : κ) :
    get? key (pairs.foldl (fun t (k, v) => t.put k v) t) = (pairs.get? key).or (t.get? key) := by
  induction pairs generalizing t with
  | nil => rfl
  | cons e rest ih =>
    obtain ⟨k, v⟩ := e
    obtain ⟨hnew, hrest⟩ := List.nodup_cons.mp h
    simp only [List.foldl_cons]
    rw [ih hrest, get?_put, get?]
    by_cases hk : k = key
    · subst hk
      have hnone : get? k rest = none := by
        by_contra hsome
        have hhas : has k rest = true := Option.isSome_iff_ne_none.mpr hsome
        exact hnew (has_iff_mem_keys.mp hhas)
      rw [if_pos rfl, if_pos rfl, hnone, Option.none_or, Option.some_or]
    · rw [if_neg hk, if_neg hk]

/-- Keys stay different when pairs are put. -/
lemma nodup_keys_foldl_put (pairs : Table κ α) {t : Table κ α} (h : t.keys.Nodup) :
    (pairs.foldl (fun t (k, v) => t.put k v) t).keys.Nodup := by
  induction pairs generalizing t with
  | nil => exact h
  | cons e rest ih => exact ih (nodup_keys_put e.1 e.2 h)

/-- A pair of a table in which pairs were put was there or is one of them. -/
lemma mem_of_mem_foldl_put {pairs t : Table κ α} {m : κ × α}
    (h : m ∈ pairs.foldl (fun t (k, v) => t.put k v) t) : m ∈ t ∨ m ∈ pairs := by
  induction pairs generalizing t with
  | nil => exact Or.inl h
  | cons e rest ih =>
    rcases ih h with hput | hrest
    · rcases mem_of_mem_put hput with ht | heq
      · exact Or.inl ht
      · exact Or.inr (heq ▸ List.mem_cons_self)
    · exact Or.inr (List.mem_cons_of_mem _ hrest)

/-! ## Keeping some keys -/

/-- A value that is put under a key that is kept is put into what is kept. -/
lemma filter_put {p : κ → Bool} {key : κ} (hkey : p key = true) (value : α) (t : Table κ α) :
    (t.put key value).filter (fun m => p m.1) = put key value (t.filter fun m => p m.1) := by
  induction t with
  | nil => simp [put, hkey]
  | cons entry rest ih =>
    obtain ⟨k, v⟩ := entry
    by_cases hk : k = key
    · subst hk
      simp [put, hkey]
    · by_cases hkept : p k = true <;> simp [put, hk, hkept, ih]

/-- And so are pairs that are put one after the other. -/
lemma filter_foldl_put {p : κ → Bool} {pairs : Table κ α} (hpairs : ∀ m ∈ pairs, p m.1 = true)
    (t : Table κ α) :
    (pairs.foldl (fun t (k, v) => t.put k v) t).filter (fun m => p m.1) =
      pairs.foldl (fun t (k, v) => put k v t) (t.filter fun m => p m.1) := by
  induction pairs generalizing t with
  | nil => rfl
  | cons e rest ih =>
    obtain ⟨hkey, hrest⟩ := List.forall_mem_cons.mp hpairs
    rw [List.foldl_cons, List.foldl_cons, ih hrest, filter_put hkey]

/-- What is under a key that is kept is found among what is kept. -/
lemma get?_filter {p : κ → Bool} {key : κ} (hkey : p key = true) (t : Table κ α) :
    get? key (t.filter fun m => p m.1) = get? key t := by
  induction t with
  | nil => rfl
  | cons entry rest ih =>
    obtain ⟨k, v⟩ := entry
    by_cases hk : k = key
    · subst hk
      simp [get?, hkey]
    · by_cases hkept : p k = true <;> simp [get?, hk, hkept, ih]

/-! ## Tables of pairs -/

/-- The last pair is put last. -/
lemma ofPairs_concat (pairs : List (κ × α)) (key : κ) (value : α) :
    ofPairs (pairs ++ [(key, value)]) = (ofPairs pairs).put key value := by
  rw [ofPairs, List.foldl_append]
  rfl

/-- The keys are different, whatever the pairs are. -/
lemma nodup_keys_ofPairs (pairs : List (κ × α)) : (ofPairs pairs).keys.Nodup :=
  nodup_keys_foldl_put pairs List.nodup_nil

/-- The keys stand in the order in which they first come. -/
lemma keys_ofPairs [BEq κ] [LawfulBEq κ] (pairs : List (κ × α)) :
    (ofPairs pairs).keys = (pairs.map Prod.fst).eraseDups := by
  induction pairs using List.reverseRecOn with
  | nil => rfl
  | append_singleton pairs e ih =>
    obtain ⟨key, value⟩ := e
    rw [ofPairs_concat, List.map_append, List.eraseDups_append, ← ih]
    by_cases hkey : key ∈ (ofPairs pairs).keys
    · have hmem : key ∈ pairs.map Prod.fst := by rwa [ih, List.mem_eraseDups] at hkey
      rw [keys_put_of_mem value hkey]
      simp [List.removeAll, hmem]
    · have hnew : key ∉ pairs.map Prod.fst := by rwa [ih, List.mem_eraseDups] at hkey
      have hremove : (List.map Prod.fst [(key, value)]).removeAll (pairs.map Prod.fst) = [key] := by
        simp [List.removeAll, hnew]
      rw [put_of_notMem value hkey, keys, List.map_append, hremove]
      rfl

/-- Pairs with one more behind them are parted at the last one or before it. -/
lemma concat_eq_append_cons_iff {β : Type} {pairs before after : List β} {last e : β} :
    pairs ++ [last] = before ++ e :: after ↔
      (pairs = before ∧ last = e ∧ after = []) ∨
        ∃ rest, after = rest ++ [last] ∧ pairs = before ++ e :: rest := by
  constructor
  · intro h
    rcases List.eq_nil_or_concat after with rfl | ⟨rest, last', rfl⟩
    · obtain ⟨rfl, hlast⟩ := List.append_inj' h rfl
      exact Or.inl ⟨rfl, List.head_eq_of_cons_eq hlast, rfl⟩
    · rw [List.concat_eq_append, ← List.cons_append, ← List.append_assoc] at h
      obtain ⟨rfl, hlast⟩ := List.append_inj' h rfl
      exact Or.inr ⟨rest, by rw [List.concat_eq_append, hlast], rfl⟩
  · rintro (⟨rfl, rfl, rfl⟩ | ⟨rest, rfl, rfl⟩)
    · rfl
    · simp

/-- Under a key stands the value that comes last with it. -/
lemma get?_ofPairs_eq_some_iff {pairs : List (κ × α)} {key : κ} {value : α} :
    (ofPairs pairs).get? key = some value ↔
      ∃ before after, pairs = before ++ (key, value) :: after ∧ ∀ e ∈ after, e.1 ≠ key := by
  induction pairs using List.reverseRecOn generalizing value with
  | nil => simp [ofPairs, get?]
  | append_singleton pairs e ih =>
    obtain ⟨k, v⟩ := e
    simp only [concat_eq_append_cons_iff]
    rw [ofPairs_concat, get?_put]
    by_cases hk : k = key
    · subst hk
      rw [if_pos rfl]
      constructor
      · rintro ⟨⟩
        exact ⟨pairs, [], Or.inl ⟨rfl, rfl, rfl⟩, List.forall_mem_nil _⟩
      · rintro ⟨before, after, ⟨-, hlast, -⟩ | ⟨rest, rfl, -⟩, hafter⟩
        · rw [(Prod.mk.inj hlast).2]
        · exact absurd rfl (hafter (k, v) (List.mem_append_right _ List.mem_cons_self))
    · rw [if_neg hk, ih]
      constructor
      · rintro ⟨before, after, rfl, hafter⟩
        refine ⟨before, after ++ [(k, v)], Or.inr ⟨after, rfl, rfl⟩, fun e he => ?_⟩
        rcases List.mem_append.mp he with he | he
        · exact hafter e he
        · rw [List.mem_singleton.mp he]
          exact hk
      · rintro ⟨before, after, ⟨-, hlast, -⟩ | ⟨rest, rfl, rfl⟩, hafter⟩
        · exact absurd (Prod.mk.inj hlast).1 hk
        · exact ⟨before, rest, rfl, fun e he => hafter e (List.mem_append_left _ he)⟩

/-- A pair of a table is one of those that were put. -/
lemma mem_of_mem_ofPairs {pairs : Table κ α} {m : κ × α} (h : m ∈ ofPairs pairs) :
    m ∈ pairs := by
  rcases mem_of_mem_foldl_put h with hnil | hmem
  · cases hnil
  · exact hmem

end EditorDocs.Table
