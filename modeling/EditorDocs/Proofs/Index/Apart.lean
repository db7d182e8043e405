import EditorDocs.Proofs.Index.Clearing
import EditorDocs.Proofs.Index.Local
import EditorDocs.Proofs.Index.Steady

/-!
# Languages do not interfere

Actions on the records of different languages are undisturbed by each other: what each gives and asks
for is the same as if the other had not happened (`Cache.IsLocal.sameIn`), and in either order they
leave the same files (`Cache.IsLocal.sameFiles`).  For writing, deleting and resolving
`Resolver.operations_apart` puts this together.

This needs that it makes no difference whether the directory of the records has been made already.
Otherwise the first record of any language may change what is found of another one
(`Resolver.operations_not_apart`).
-/

namespace EditorDocs

open FileSystem

/-- The action gives the same in both worlds, and asks for the same. -/
def Action.SameIn {α : Type} (a : Action α) (u v : World) : Prop :=
  (a.exec v).1 = (a.exec u).1 ∧
    ∃ urls, (a.exec u).2.requests = u.requests ++ urls ∧ (a.exec v).2.requests = v.requests ++ urls

/-- The files are the same in both worlds, but for that of the log. -/
structure World.SameFiles (u v : World) : Prop where
  /-- The working directory is the same. -/
  home : v.files.home = u.files.home
  /-- The log is the same. -/
  log : v.logFile? = u.logFile?
  /-- The same stands everywhere else than at the log. -/
  view : ∀ loc, u.logFile? ≠ some loc → v.files.view loc = u.files.view loc

namespace Cache

variable {c : Cache} {about : Text → Prop} {w u v : World} {d : Location} {language other : Text}
  {σ : Stock} {α β : Type}

/-! ## Local actions on different records -/

/-- Worlds with one stock have the same files. -/
lemma HasStock.sameFiles (hu : c.HasStock about w d u σ) (hv : c.HasStock about w d v σ) :
    World.SameFiles u v where
  home := hv.home.trans hu.home.symm
  log := hv.log.trans hu.log.symm
  view loc hloc := by
    rw [hu.log] at hloc
    obtain ⟨more, hmore⟩ := hu.view
    obtain ⟨more', hmore'⟩ := hv.view
    rw [hmore, hmore', grow_of_ne hloc, grow_of_ne hloc]

/-- A turn on one record leaves the others as they are. -/
lemma Stock.view_after_of_ne (σ : Stock) {loc loc' : Location} (h : loc' ≠ loc) (t : Turn α) :
    (σ.after loc t).view loc' = σ.view loc' := Function.update_of_ne h _ _

/-- Turns on different records lead to the same stock in either order. -/
lemma Stock.after_comm (σ : Stock) {loc loc' : Location} (h : loc ≠ loc') (t : Turn α) (t' : Turn β) :
    (σ.after loc t).after loc' t' = (σ.after loc' t').after loc t := by
  rw [after, after, after, after, Function.update_comm h, Bool.or_right_comm]

section Local

variable {a : Action α} {b : Action β} (ha : c.IsLocal about w d language a)
  (hb : c.IsLocal about w d other b) (hne : d ++ [entryName language] ≠ d ++ [entryName other])
  (hu : c.HasStock about w d u σ)
include ha hb hne hu

/-- An action on another record makes no difference to what an action comes to. -/
theorem IsLocal.sameIn : b.SameIn u (a.exec u).2 := by
  obtain ⟨turn, hturn⟩ := ha
  obtain ⟨turn', hturn'⟩ := hb
  obtain ⟨v, hv, -, hstock⟩ := hturn u σ hu
  obtain ⟨u', hu', hrequests, -⟩ := hturn' u σ hu
  obtain ⟨v', hv', hrequests', -⟩ := hturn' v _ hstock
  rw [Stock.view_after_of_ne _ hne.symm] at hv' hrequests'
  obtain rfl : (a.exec u).2 = v := congrArg Prod.snd hv
  refine ⟨?_, (turn' (σ.view (d ++ [entryName other]))).urls, ?_, ?_⟩
  · rw [hu', hv']
  · rw [hu']
    exact hrequests
  · rw [hv']
    exact hrequests'

/-- Actions on different records leave the same files in either order. -/
theorem IsLocal.sameFiles :
    World.SameFiles (b.exec (a.exec u).2).2 (a.exec (b.exec u).2).2 := by
  obtain ⟨turn, hturn⟩ := ha
  obtain ⟨turn', hturn'⟩ := hb
  obtain ⟨v, hv, -, hstock⟩ := hturn u σ hu
  obtain ⟨u', hu', -, hstock'⟩ := hturn' u σ hu
  obtain ⟨v', hv', -, hboth⟩ := hturn' v _ hstock
  obtain ⟨u'', hu'', -, hboth'⟩ := hturn u' _ hstock'
  rw [Stock.view_after_of_ne _ hne.symm, Stock.after_comm _ hne] at hboth
  rw [Stock.view_after_of_ne _ hne] at hboth'
  rw [hv, hu']
  simp only
  rw [hv', hu'']
  exact hboth.sameFiles hboth'

end Local

end Cache

/-! ## Writing, deleting and resolving -/

namespace Resolver

/-- An operation on the record of a language. -/
inductive Operates (r : Resolver) (language : Text) : {α : Type} → Action α → Prop where
  /-- An index is written as the record. -/
  | write (index : Index) : Operates r language (r.cache.write language index)
  /-- The record is deleted. -/
  | clear : Operates r language (r.cache.clear [language])
  /-- The index of the language is resolved. -/
  | resolve : Operates r language (r.resolve language)

variable {about : Text → Prop} {w : World} {language other : Text}

/-- The operations on a record are local. -/
lemma Operates.isLocal {r : Resolver} {d : Location} (site : r.cache.Site about w)
    (steady : r.cache.IsSteady about w) (hplace : r.cache.IsPlace w d) (hlanguage : about language)
    {α : Type} {a : Action α} (h : r.Operates language a) : r.cache.IsLocal about w d language a := by
  cases h with
  | write index => exact Cache.isLocal_write site steady hplace hlanguage index
  | clear => exact Cache.isLocal_clear site steady hplace hlanguage
  | resolve => exact isLocal_resolve site steady hplace hlanguage

/-- Operations on the records of different languages do not interfere.  After any operation on the one,
whether it succeeded or failed, the other record is found, read and resolved as if it had not happened;
and any operations on the two give the same in either order, ask for the same, and leave the same
files. -/
theorem operations_apart (r : Resolver) (about : Text → Prop) (w : World)
    (site : r.cache.Site about w) (steady : r.cache.IsSteady about w) (language other : Text)
    (hlanguage : about language) (hother : about other) (hne : language ≠ other) :
    (∀ (α : Type) (a : Action α), r.Operates language a →
      (r.cache.exists? other).SameIn w (a.exec w).2 ∧ (r.cache.read other).SameIn w (a.exec w).2 ∧
        (r.resolve other).SameIn w (a.exec w).2) ∧
    ∀ (α β : Type) (a : Action α) (b : Action β), r.Operates language a → r.Operates other b →
      b.SameIn w (a.exec w).2 ∧ a.SameIn w (b.exec w).2 ∧
        World.SameFiles (b.exec (a.exec w).2).2 (a.exec (b.exec w).2).2 := by
  obtain ⟨d, hplace⟩ := Cache.exists_isPlace site.proper w
  have hstart := Cache.HasStock.start site steady hplace
  have hentry := (site.simple language hlanguage).entry_ne (d := d) (site.simple other hother) hne
  constructor
  · intro α a ha
    have hlocal := ha.isLocal site steady hplace hlanguage
    exact ⟨hlocal.sameIn (Cache.isLocal_exists? site steady hplace hother) hentry hstart,
      hlocal.sameIn (Cache.isLocal_read site steady hplace hother) hentry hstart,
      hlocal.sameIn (isLocal_resolve site steady hplace hother) hentry hstart⟩
  · intro α β a b ha hb
    have ha' := ha.isLocal site steady hplace hlanguage
    have hb' := hb.isLocal site steady hplace hother
    exact ⟨ha'.sameIn hb' hentry hstart, hb'.sameIn ha' hentry.symm hstart,
      ha'.sameFiles hb' hentry hstart⟩

/-- Where nothing was recorded, there is room for the records of these languages, and it makes no
difference whether their directory has been made. -/
lemma sample_site {about : Text → Prop} (habout : ∀ language, about language →
      Cache.IsSimple language ∧ (World.still (.directory []) sampleRemote).files.glance .entry
        ((sample "cache" "js").cache.recordPath language).text = .error .noEntry) :
    (sample "cache" "js").cache.Site about (World.still (.directory []) sampleRemote) where
  sound := World.sound_still _ _
  named := isNamed_directory_iff.mpr (by simp [Table.keys])
  proper := Path.isProper_ofText _
  simple language h := (habout language h).1
  plain language h face hface := by
    rw [(habout language h).2] at hface
    cases hface
  unlogged language h loc n hlocate := by simp [World.still, World.logFile?]

/-- To write an index for one language makes no difference to another one that is resolved, although
its directory has to be made. -/
theorem operations_apart_sample :
    let w := World.still (.directory []) sampleRemote
    let r := sample "cache" "js"
    let written := r.cache.write "py" ⟨[]⟩
    (r.resolve "js").SameIn w (written.exec w).2 ∧
      World.SameFiles ((r.resolve "js").exec (written.exec w).2).2
        (written.exec ((r.resolve "js").exec w).2).2 := by
  intro w r written
  let about : Text → Prop := fun l => l = "py" ∨ l = "js"
  have hsite : r.cache.Site about w := sample_site (by
    rintro language (rfl | rfl)
    · exact ⟨⟨by decide, by decide, by decide⟩, rfl⟩
    · exact ⟨⟨by decide, by decide, by decide⟩, rfl⟩)
  have hsteady : r.cache.IsSteady about w := by
    refine Cache.isSteady_of_isName hsite ?_ ?_ (by decide) (show about "py" from Or.inl rfl) ?_
    · exact fun name hname => by cases hname
    · unfold Files.IsPassable
      decide
    · rintro language (rfl | rfl) <;> decide
  obtain ⟨-, hcommute⟩ := operations_apart r about w hsite hsteady "py" "js" (Or.inl rfl) (Or.inr rfl)
    (by decide)
  obtain ⟨hsame, -, hfiles⟩ := hcommute _ _ _ _ (.write ⟨[]⟩) .resolve
  exact ⟨hsame, hfiles⟩

/-- The first record of one language may make a difference to another one whose own is absent: if the
name of that is too long then this shows only once the directory has been made. -/
theorem operations_not_apart :
    let w := World.still (.directory []) sampleRemote
    let r := sample "cache" "js"
    let written := r.cache.write "py" ⟨[]⟩
    r.cache.Site (fun l => l = "py" ∨ l = Cache.sampleLong) w ∧
      ¬ (r.cache.exists? Cache.sampleLong).SameIn w (written.exec w).2 ∧
      ¬ (r.resolve Cache.sampleLong).SameIn w (written.exec w).2 := by
  intro w r written
  refine ⟨sample_site ?_, ?_, ?_⟩
  · rintro language (rfl | rfl)
    · exact ⟨⟨by decide, by decide, by decide⟩, rfl⟩
    · exact ⟨⟨by decide +kernel, by decide +kernel, by decide +kernel⟩, by decide +kernel⟩
  · rintro ⟨hsame, -⟩
    revert hsame
    decide +kernel
  · rintro ⟨hsame, -⟩
    revert hsame
    decide +kernel

end Resolver

end EditorDocs
