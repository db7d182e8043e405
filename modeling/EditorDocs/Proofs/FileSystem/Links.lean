import EditorDocs.Proofs.FileSystem.Operations

/-!
# Links that give way

A file can take the place of a symbolic link.  A path that leads to the link then leads to the file,
with one exception: if the path runs through the link on its way, the file cuts it off.  Whether it
does is decided without the link (`State.RunsThroughItsLink`), and `State.locate_of_link_replaced`
says what becomes of the path in both cases.
-/

namespace EditorDocs.FileSystem

/-- Names that lead to a link lead to an edge there once the link is taken away: either at their
end, or where they first ran through the link. -/
lemma Lands.cut {f : Location → Option Fixture} {m : Manner} {links : Nat} {loc cut : Location}
    {names : List Name} {target : Text} (h : Lands f m links loc names (.stop cut))
    (hcut : f cut = some (.link target))
    (htree : ∀ loc, f loc = some .directory → f loc.dropLast = some .directory)
    (hstart : names ≠ [] ∨ f loc = some .directory) :
    ∃ parent name rest, parent ++ [name] = cut ∧
      Lands (Function.update f cut none) m links loc names (.edge parent name rest) := by
  -- the directories are all still there
  have hkept : ∀ loc, f loc = some .directory →
      Function.update f cut none loc = some .directory := by
    intro loc hloc
    have hne : loc ≠ cut := by
      rintro rfl
      rw [hcut] at hloc
      cases hloc
    rw [Function.update_of_ne hne, hloc]
  generalize hl : Landing.stop cut = l at h
  induction h with
  | stop hloc =>
    cases hl
    rcases hstart with hne | hdirectory
    · exact absurd rfl hne
    · rw [hcut] at hdirectory
      cases hdirectory
  | off hloc => cases hl
  | edge hloc hpass hentry => cases hl
  | idle hloc hidle hrest ih =>
    obtain ⟨parent, name, rest, hparent, hlands⟩ := ih (Or.inr hloc) hl
    exact ⟨parent, name, rest, hparent, .idle (hkept _ hloc) hidle hlands⟩
  | up hloc hrest ih =>
    obtain ⟨parent, name, rest, hparent, hlands⟩ := ih (Or.inr (htree _ hloc)) hl
    exact ⟨parent, name, rest, hparent, .up (hkept _ hloc) hlands⟩
  | down hloc hpass hentry hrest ih =>
    obtain ⟨parent, name, rest, hparent, hlands⟩ := ih (Or.inr hentry) hl
    exact ⟨parent, name, rest, hparent, .down (hkept _ hloc) hpass (hkept _ hentry) hlands⟩
  | @link links loc name rest t hloc hpass hentry hlast =>
    cases hl
    exact ⟨loc, name, rest, rfl, .edge (hkept _ hloc) hpass (Function.update_self ..)⟩
  | @through links loc name rest t l hloc hpass hentry hfollowed hrest ih =>
    by_cases hhere : loc ++ [name] = cut
    · -- here the names run into the gap
      refine ⟨loc, name, rest, hhere, .edge (hkept _ hloc) hpass ?_⟩
      rw [hhere, Function.update_self]
    · have hnames : t.splitOn '/' ++ rest ≠ [] := by simp [Text.splitOn_ne_nil]
      obtain ⟨parent, name', rest', hparent, hlands⟩ := ih (Or.inl hnames) hl
      refine ⟨parent, name', rest', hparent, .through (hkept _ hloc) hpass ?_ hfollowed hlands⟩
      rw [Function.update_of_ne hhere, hentry]

namespace State

/-- A path that leads to a link has landed at the link. -/
lemma land_of_link {s : State} {m : Manner} {path : Text} {loc : Location} {target : Text}
    (h : s.locate m path = .ok (.object loc (.link target))) :
    land s.frame s.home m path = .ok (.stop loc) := by
  obtain ⟨l, hland, hsettles⟩ := locate_eq_ok_iff.mp h
  have hlink : s.frame loc = some (.link target) := by
    rw [frame_eq, find?_of_object h]
  have hfits := fits_of_land hland
  -- a link is a fixture, so that no path goes off one or has one at its edge
  cases hsettles with
  | stop _ => exact hland
  | off _ =>
    rw [Landing.Fits, hlink] at hfits
    cases hfits
  | file _ =>
    rw [Landing.Fits, hlink] at hfits
    cases hfits.2

/-- A path that leads to a link leads to an edge where the link was once that is gone. -/
lemma land_without_link {s : State} {path : Text} {loc : Location} {target : Text}
    (h : s.locate .entry path = .ok (.object loc (.link target))) :
    ∃ parent name rest, parent ++ [name] = loc ∧
      ∀ s' : State, s'.frame = Function.update s.frame loc none → s'.home = s.home →
        ∀ m, m = .entry ∨ m = .lookup →
          land s'.frame s'.home m path = .ok (.edge parent name rest) := by
  have hlink : s.frame loc = some (.link target) := by
    rw [frame_eq, find?_of_object h]
  obtain ⟨hne, hshort, hlands⟩ := land_eq_ok_iff.mp (land_of_link h)
  obtain ⟨parent, name, rest, hloc, hcut⟩ :=
    hlands.cut hlink (fun _ hd => frame_dropLast hd) (Or.inl (Text.splitOn_ne_nil _ _))
  refine ⟨parent, name, rest, hloc, ?_⟩
  intro s' hframe hhome
  -- the path is the same, so it lands at the edge in the new frame
  have hentry : land s'.frame s'.home .entry path = .ok (.edge parent name rest) := by
    rw [hframe, hhome]
    exact land_eq_ok_iff.mpr ⟨hne, hshort, hcut⟩
  have hlookup : land s'.frame s'.home .lookup path = .ok (.edge parent name rest) := by
    obtain ⟨-, -, hlands'⟩ := land_eq_ok_iff.mp hentry
    exact land_eq_ok_iff.mpr ⟨hne, hshort, hlands'.lookup (by simp)⟩
  rintro m (rfl | rfl)
  · exact hentry
  · exact hlookup

/-- The path leads to a symbolic link and runs through it on the way, so that without the link it
leads nowhere. -/
def RunsThroughItsLink (s : State) (path : Text) : Prop :=
  ∃ loc target, s.locate .entry path = .ok (.object loc (.link target)) ∧
    ∀ p, (s.remove loc).locate .entry path ≠ .ok p

/-- A path that leads to a link leads to a file that takes the place of the link, unless it ran
through the link: then the file is in its way. -/
theorem locate_of_link_replaced {s s' : State} {path : Text} {names : List Name} {name : Name}
    {loc : Location} {target : Text} {content : Bytes}
    (hpath : (canonical path).splitOn '/' = names ++ [name]) (hname : IsRegular name)
    (hframe : s'.frame = Function.update s.frame loc none) (hhome : s'.home = s.home)
    (hfile : s'.view loc = some (.file content))
    (h : s.locate .entry path = .ok (.object loc (.link target))) (m : Manner)
    (hm : m = .entry ∨ m = .lookup) :
    (¬ s.RunsThroughItsLink path → s'.locate m path = .ok (.object loc (.file content))) ∧
      (s.RunsThroughItsLink path → s'.locate m path = .error .notDirectory) := by
  obtain ⟨parent, n, rest, hloc, hland⟩ := land_without_link h
  have hlink := view_eq_of_find? (find?_of_object h)
  have hremove : (s.remove loc).view = Function.update s.view loc none :=
    view_remove (ne_nil_of_locate h (by simp [Node.face])) (by rw [hlink]; simp [Node.face])
  have hgone := hland (s.remove loc) (frame_of_view_update hremove) rfl .entry (Or.inl rfl)
  have hhere := hland s' hframe hhome m hm
  -- nothing but the end of the path can follow where the link was
  have hrest : rest.all List.isEmpty = true → rest = [] := by
    intro hall
    have hlast : ((canonical path).splitOn '/').getLast? = some name := by
      rw [hpath]
      exact List.getLast?_concat
    have hends := (land_eq_ok_iff.mp hgone).2.2.endsIn hlast hname
    exact (hends.eq_nil hname hall).1
  have habsent : Node.find? loc (s.remove loc).root = none := by
    apply find?_eq_none_of_view
    rw [hremove, Function.update_self]
  have hfind := find?_of_view_file hfile
  have hruns : s.RunsThroughItsLink path ↔ rest ≠ [] := by
    constructor
    · rintro ⟨loc', target', h', hnowhere⟩ rfl
      rw [h] at h'
      cases h'
      refine hnowhere (.vacancy parent n false) ?_
      rw [locate_of_landing hgone, settle, hloc, habsent]
      simp
    · intro hne
      refine ⟨loc, target, h, fun p hp => hne (hrest ?_)⟩
      rw [locate_of_landing hgone, settle, hloc, habsent] at hp
      simp only at hp
      split at hp
      · assumption
      · cases hp
  rw [hruns, locate_of_landing hhere, settle, hloc, hfind]
  constructor
  · intro hnil
    simp [not_not.mp hnil]
  · intro hne
    simp [hne]

end State

end EditorDocs.FileSystem
