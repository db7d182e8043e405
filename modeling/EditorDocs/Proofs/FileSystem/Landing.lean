import EditorDocs.Proofs.FileSystem.View
import EditorDocs.Proofs.Text.Split

/-!
# How far directories and links lead

A path is followed through directories and links only, so the frame of a file system decides how far
it leads: to a directory or a link, or to a name that is neither (`Landing`).

Names lead to a landing in steps, one for each name and one for each link (`Lands`), and
`land_eq_ok_iff` says that this is how a path lands.  What holds of a landing is shown by induction on
the steps: the frame lets the landing be where it is (`Lands.fits`), and names that end regularly lead
to their last name (`Lands.endsIn`).  The manners of following differ in a link at the end
(`Lands.lookup`, `Lands.exists_entry`) and in slashes behind a file, so that reading and writing lead
to the same files (`Lands.write`, `Lands.lookup_of_write`).
-/

namespace EditorDocs.FileSystem

/-! ## Landings -/

/-- How far directories and links lead. -/
inductive Landing where
  /-- To a directory, or to a link that is not replaced. -/
  | stop (location : Location)
  /-- From a directory to a name that is neither, before the names that remain. -/
  | edge (parent : Location) (name : Name) (rest : List Name)
  /-- Nowhere, since the start is neither. -/
  | off (location : Location) (rest : List Name)

/-- The location at which a landing looks for what stands there. -/
def Landing.target : Landing → Location
  | .stop loc => loc
  | .edge parent name _ => parent ++ [name]
  | .off loc _ => loc

/-- How far names lead from a location through a frame, which `onLink` decides for what stands behind
a symbolic link. -/
def landWith (f : Location → Option Fixture) (m : Manner)
    (onLink : Location → List Name → Except Errno Landing) (loc : Location) :
    List Name → Except Errno Landing
  | [] => match f loc with
    | some _ => .ok (.stop loc)
    | none => .ok (.off loc [])
  | name :: rest =>
    match f loc with
    | none => .ok (.off loc (name :: rest))
    | some .directory =>
      if name.isEmpty || name = dot then landWith f m onLink loc rest
      else if name = dotDot then landWith f m onLink loc.dropLast rest
      else if m.writes && !rest.isEmpty && rest.all List.isEmpty then .error .isDirectory
      else if nameLimit < byteLength name then .error .nameTooLong
      else match f (loc ++ [name]) with
        | none => .ok (.edge loc name rest)
        | some (.link target) =>
          if rest.isEmpty && !m.followsLast then .ok (.stop (loc ++ [name]))
          else onLink (if isRooted target then [] else loc) (target.splitOn '/' ++ rest)
        | some .directory => landWith f m onLink (loc ++ [name]) rest
    | some (.link _) => .error .notDirectory

/-- How far names lead from a location, with so many symbolic links on the way at most. -/
def landAfter (f : Location → Option Fixture) (m : Manner) :
    Nat → Location → List Name → Except Errno Landing
  | 0 => landWith f m fun _ _ => .error .tooManyLinks
  | links + 1 => landWith f m (landAfter f m links)

/-- How far a path leads through a frame. -/
def land (f : Location → Option Fixture) (home : Location) (m : Manner) (path : Text) :
    Except Errno Landing :=
  if path.isEmpty then .error .noEntry
  else if pathLimit < byteLength path then .error .nameTooLong
  else landAfter f m linkLimit (if isRooted path then [] else home) ((canonical path).splitOn '/')

/-! ## The steps of a landing -/

/-- Before the names that remain, the name can be looked up in a directory. -/
structure Passes (m : Manner) (name : Name) (rest : List Name) : Prop where
  /-- The name does not stay where it is. -/
  notIdle : ¬ (name.isEmpty || name = dot) = true
  /-- The name does not go up. -/
  notUp : name ≠ dotDot
  /-- It is no file to be written with slashes behind it. -/
  notSlashed : ¬ (m.writes && !rest.isEmpty && rest.all List.isEmpty) = true
  /-- The name is not too long. -/
  notLong : ¬ nameLimit < byteLength name

/-- Names lead from a location through a frame to a landing, with so many symbolic links on the way at
most. -/
inductive Lands (f : Location → Option Fixture) (m : Manner) :
    Nat → Location → List Name → Landing → Prop where
  /-- No name is left, at a directory or a link. -/
  | stop {links loc x} (hloc : f loc = some x) : Lands f m links loc [] (.stop loc)
  /-- There is neither a directory nor a link. -/
  | off {links loc names} (hloc : f loc = none) : Lands f m links loc names (.off loc names)
  /-- The name stays where it is. -/
  | idle {links loc name rest l} (hloc : f loc = some .directory)
      (hidle : (name.isEmpty || name = dot) = true) (hrest : Lands f m links loc rest l) :
      Lands f m links loc (name :: rest) l
  /-- The name goes up. -/
  | up {links loc rest l} (hloc : f loc = some .directory)
      (hrest : Lands f m links loc.dropLast rest l) : Lands f m links loc (dotDot :: rest) l
  /-- The name is neither that of a directory nor that of a link. -/
  | edge {links loc name rest} (hloc : f loc = some .directory) (hpass : Passes m name rest)
      (hentry : f (loc ++ [name]) = none) : Lands f m links loc (name :: rest) (.edge loc name rest)
  /-- The name is that of a directory. -/
  | down {links loc name rest l} (hloc : f loc = some .directory) (hpass : Passes m name rest)
      (hentry : f (loc ++ [name]) = some .directory)
      (hrest : Lands f m links (loc ++ [name]) rest l) : Lands f m links loc (name :: rest) l
  /-- The name is that of a link which is not replaced. -/
  | link {links loc name rest target} (hloc : f loc = some .directory) (hpass : Passes m name rest)
      (hentry : f (loc ++ [name]) = some (.link target))
      (hlast : (rest.isEmpty && !m.followsLast) = true) :
      Lands f m links loc (name :: rest) (.stop (loc ++ [name]))
  /-- The name is that of a link which is replaced. -/
  | through {links loc name rest target l} (hloc : f loc = some .directory)
      (hpass : Passes m name rest) (hentry : f (loc ++ [name]) = some (.link target))
      (hfollowed : ¬ (rest.isEmpty && !m.followsLast) = true)
      (hrest : Lands f m links (if isRooted target then [] else loc) (target.splitOn '/' ++ rest) l) :
      Lands f m (links + 1) loc (name :: rest) l

section Steps

variable {f : Location → Option Fixture} {m : Manner} {links : Nat} {loc : Location}
  {names : List Name} {l : Landing}

/-- Names that land have led there in steps, if it is so behind links. -/
lemma lands_of_landWith {onLink : Location → List Name → Except Errno Landing}
    (hlink : ∀ loc names, onLink loc names = .ok l → ∃ n, links = n + 1 ∧ Lands f m n loc names l)
    (h : landWith f m onLink loc names = .ok l) : Lands f m links loc names l := by
  induction names generalizing loc with
  | nil =>
    rw [landWith] at h
    cases hloc : f loc with
    | none =>
      simp only [hloc, Except.ok.injEq] at h
      subst h
      exact .off hloc
    | some x =>
      simp only [hloc, Except.ok.injEq] at h
      subst h
      exact .stop hloc
  | cons name rest ih =>
    rw [landWith] at h
    cases hloc : f loc with
    | none =>
      simp only [hloc, Except.ok.injEq] at h
      subst h
      exact .off hloc
    | some x =>
      cases x with
      | link target => simp [hloc] at h
      | directory =>
        simp only [hloc] at h
        split at h
        · rename_i hidle
          exact .idle hloc hidle (ih h)
        rename_i hidle
        split at h
        · rename_i hup
          subst hup
          exact .up hloc (ih h)
        rename_i hup
        split at h
        · cases h
        rename_i hslashed
        split at h
        · cases h
        rename_i hlong
        have hpass : Passes m name rest := ⟨hidle, hup, hslashed, hlong⟩
        cases hentry : f (loc ++ [name]) with
        | none =>
          simp only [hentry, Except.ok.injEq] at h
          subst h
          exact .edge hloc hpass hentry
        | some x =>
          cases x with
          | directory =>
            simp only [hentry] at h
            exact .down hloc hpass hentry (ih h)
          | link target =>
            simp only [hentry] at h
            split at h
            · rename_i hlast
              cases h
              exact .link hloc hpass hentry hlast
            · rename_i hfollowed
              obtain ⟨n, rfl, hrest⟩ := hlink _ _ h
              exact .through hloc hpass hentry hfollowed hrest

/-- Names that land have led there in steps. -/
lemma lands_of_landAfter (h : landAfter f m links loc names = .ok l) :
    Lands f m links loc names l := by
  induction links generalizing loc names with
  | zero => exact lands_of_landWith (fun _ _ he => by cases he) h
  | succ links ih => exact lands_of_landWith (fun _ _ hl => ⟨links, rfl, ih hl⟩) h

/-- How far names lead behind a link. -/
def landBehind (f : Location → Option Fixture) (m : Manner) :
    Nat → Location → List Name → Except Errno Landing
  | 0 => fun _ _ => .error .tooManyLinks
  | links + 1 => landAfter f m links

/-- With any number of links, names lead as far as directories do, and further behind a link. -/
lemma landAfter_eq_landWith (f : Location → Option Fixture) (m : Manner) (links : Nat) :
    landAfter f m links = landWith f m (landBehind f m links) := by
  cases links <;> rfl

/-- A name that can be looked up leads to what stands there. -/
lemma landWith_of_passes {onLink : Location → List Name → Except Errno Landing} {name : Name}
    {rest : List Name} (hloc : f loc = some .directory) (hpass : Passes m name rest) :
    landWith f m onLink loc (name :: rest) = match f (loc ++ [name]) with
      | none => .ok (.edge loc name rest)
      | some (.link target) =>
        if rest.isEmpty && !m.followsLast then .ok (.stop (loc ++ [name]))
        else onLink (if isRooted target then [] else loc) (target.splitOn '/' ++ rest)
      | some .directory => landWith f m onLink (loc ++ [name]) rest := by
  rw [landWith, hloc]
  simp only
  rw [if_neg hpass.notIdle, if_neg hpass.notUp, if_neg hpass.notSlashed, if_neg hpass.notLong]

/-- Names land where they lead in steps. -/
lemma Lands.landAfter_eq (h : Lands f m links loc names l) :
    landAfter f m links loc names = .ok l := by
  induction h with
  | stop hloc => rw [landAfter_eq_landWith, landWith, hloc]
  | @off links loc names hloc =>
    rw [landAfter_eq_landWith]
    cases names <;> rw [landWith, hloc]
  | idle hloc hidle hrest ih =>
    rw [landAfter_eq_landWith] at ih ⊢
    rw [landWith, hloc]
    simp only
    rw [if_pos hidle]
    exact ih
  | up hloc hrest ih =>
    rw [landAfter_eq_landWith] at ih ⊢
    rw [landWith, hloc]
    simp only
    rw [if_neg (by decide), if_pos trivial]
    exact ih
  | edge hloc hpass hentry => rw [landAfter_eq_landWith, landWith_of_passes hloc hpass, hentry]
  | down hloc hpass hentry hrest ih =>
    rw [landAfter_eq_landWith] at ih ⊢
    rw [landWith_of_passes hloc hpass, hentry]
    exact ih
  | link hloc hpass hentry hlast =>
    rw [landAfter_eq_landWith, landWith_of_passes hloc hpass, hentry]
    simp only [hlast, if_true]
  | through hloc hpass hentry hfollowed hrest ih =>
    rw [landAfter_eq_landWith, landWith_of_passes hloc hpass, hentry]
    simp only
    rw [if_neg hfollowed]
    exact ih

/-- A path lands where its names lead in steps. -/
theorem land_eq_ok_iff {home : Location} {path : Text} :
    land f home m path = .ok l ↔ path ≠ [] ∧ ¬ pathLimit < byteLength path ∧
      Lands f m linkLimit (if isRooted path then [] else home) ((canonical path).splitOn '/') l := by
  unfold land
  constructor
  · intro h
    split at h
    · cases h
    rename_i hempty
    split at h
    · cases h
    rename_i hlong
    exact ⟨by simpa using hempty, hlong, lands_of_landAfter h⟩
  · rintro ⟨hne, hshort, hlands⟩
    rw [if_neg (by simpa using hne), if_neg hshort]
    exact hlands.landAfter_eq

end Steps

/-! ## Where names can land -/

/-- The landing is where the frame lets it be. -/
def Landing.Fits (f : Location → Option Fixture) : Landing → Prop
  | .stop loc => f loc ≠ none
  | .edge parent name _ => f parent = some .directory ∧ f (parent ++ [name]) = none
  | .off loc _ => f loc = none

/-- Names land where the frame lets them. -/
lemma Lands.fits {f : Location → Option Fixture} {m : Manner} {links : Nat} {loc : Location}
    {names : List Name} {l : Landing} (h : Lands f m links loc names l) : l.Fits f := by
  induction h with
  | stop hloc => simp [Landing.Fits, hloc]
  | off hloc => exact hloc
  | edge hloc hpass hentry => exact ⟨hloc, hentry⟩
  | link hloc hpass hentry hlast => simp [Landing.Fits, hentry]
  | idle hloc hidle hrest ih => exact ih
  | up hloc hrest ih => exact ih
  | down hloc hpass hentry hrest ih => exact ih
  | through hloc hpass hentry hfollowed hrest ih => exact ih

/-- Names that lead anywhere but off their start lead from a directory. -/
lemma Lands.start {f : Location → Option Fixture} {m : Manner} {links : Nat} {loc : Location}
    {names : List Name} {l : Landing} (h : Lands f m links loc names l) (hnames : names ≠ [])
    (hoff : ∀ loc rest, l = .off loc rest → rest = []) : f loc = some .directory := by
  cases h with
  | stop hloc => exact absurd rfl hnames
  | off hloc => exact absurd (hoff _ _ rfl) hnames
  | _ => assumption

/-! ## The last name -/

/-- The name is that of an entry: it neither stays where it is nor goes up. -/
def IsRegular (name : Name) : Prop := name ≠ [] ∧ name ≠ dot ∧ name ≠ dotDot

/-- The landing is at the name, or before names that end with it. -/
def Landing.EndsIn (name : Name) : Landing → Prop
  | .stop loc => loc.getLast? = some name
  | .edge _ n rest => (rest = [] ∧ n = name) ∨ rest.getLast? = some name
  | .off _ rest => rest.getLast? = some name

/-- Only empty names can remain before a vacancy, so a regular name is that of the vacancy. -/
lemma Landing.EndsIn.eq_nil {parent : Location} {n name : Name} {rest : List Name}
    (h : (Landing.edge parent n rest).EndsIn name) (hname : IsRegular name)
    (hrest : rest.all List.isEmpty = true) : rest = [] ∧ n = name := by
  rcases h with hend | hend
  · exact hend
  · have hmem : name ∈ rest := List.mem_of_getLast? hend
    exact absurd (List.isEmpty_iff.mp (List.all_eq_true.mp hrest name hmem)) hname.1

/-- Names that end regularly lead to their last name. -/
lemma Lands.endsIn {f : Location → Option Fixture} {links : Nat} {loc : Location}
    {names : List Name} {l : Landing} {name : Name} (h : Lands f .entry links loc names l)
    (hlast : names.getLast? = some name) (hname : IsRegular name) : l.EndsIn name := by
  induction h with
  | stop hloc => cases hlast
  | off hloc => exact hlast
  | @idle links loc n rest l hloc hidle hrest ih =>
    cases rest with
    | nil =>
      obtain rfl : n = name := by simpa using hlast
      simp [hname.1, hname.2.1] at hidle
    | cons r rest => exact ih (by simpa using hlast)
  | @up links loc rest l hloc hrest ih =>
    cases rest with
    | nil =>
      cases hlast
      exact absurd rfl hname.2.2
    | cons r rest => exact ih (by simpa using hlast)
  | @edge links loc n rest hloc hpass hentry =>
    cases rest with
    | nil =>
      cases hlast
      exact Or.inl ⟨rfl, rfl⟩
    | cons r rest => exact Or.inr (by simpa using hlast)
  | @down links loc n rest l hloc hpass hentry hrest ih =>
    cases rest with
    | nil =>
      cases hlast
      cases hrest with
      | stop _ => exact List.getLast?_concat
      | off hnone =>
        rw [hentry] at hnone
        cases hnone
    | cons r rest => exact ih (by simpa using hlast)
  | @link links loc n rest target hloc hpass hentry hstop =>
    cases rest with
    | nil =>
      cases hlast
      exact List.getLast?_concat
    | cons r rest => cases hstop
  | @through links loc n rest target l hloc hpass hentry hfollowed hrest ih =>
    cases rest with
    | nil => exact absurd rfl hfollowed
    | cons r rest => exact ih (by simpa [List.getLast?_append] using hlast)

/-! ## The manner of following -/

section Manner

variable {f : Location → Option Fixture} {links : Nat} {loc : Location} {names : List Name}
  {l : Landing}

/-- A name that can be looked up in one manner of reading can be looked up in the other. -/
lemma Passes.of_reads {m m' : Manner} {name : Name} {rest rest' : List Name}
    (h : Passes m name rest) (hm' : m'.writes = false) : Passes m' name rest' :=
  ⟨h.notIdle, h.notUp, by simp [hm'], h.notLong⟩

/-- Names that lead to an entry which is no link lead there when they are looked up. -/
lemma Lands.lookup (h : Lands f .entry links loc names l)
    (hlink : ∀ loc target, l = .stop loc → f loc ≠ some (.link target)) :
    Lands f .lookup links loc names l := by
  induction h with
  | stop hloc => exact .stop hloc
  | off hloc => exact .off hloc
  | idle hloc hidle hrest ih => exact .idle hloc hidle (ih hlink)
  | up hloc hrest ih => exact .up hloc (ih hlink)
  | edge hloc hpass hentry => exact .edge hloc (hpass.of_reads rfl) hentry
  | down hloc hpass hentry hrest ih => exact .down hloc (hpass.of_reads rfl) hentry (ih hlink)
  | link hloc hpass hentry hlast => exact absurd hentry (hlink _ _ rfl)
  | through hloc hpass hentry hfollowed hrest ih =>
    exact .through hloc (hpass.of_reads rfl) hentry (by simp [Manner.lookup]) (ih hlink)

/-- Names that are looked up lead to the entry at their end, unless that is a link. -/
lemma Lands.exists_entry (h : Lands f .lookup links loc names l) :
    ∃ l', Lands f .entry links loc names l' ∧
      (l' = l ∨ ∃ loc target, l' = .stop loc ∧ f loc = some (.link target)) := by
  induction h with
  | stop hloc => exact ⟨_, .stop hloc, Or.inl rfl⟩
  | off hloc => exact ⟨_, .off hloc, Or.inl rfl⟩
  | idle hloc hidle hrest ih =>
    obtain ⟨l', hlands, hsame⟩ := ih
    exact ⟨l', .idle hloc hidle hlands, hsame⟩
  | up hloc hrest ih =>
    obtain ⟨l', hlands, hsame⟩ := ih
    exact ⟨l', .up hloc hlands, hsame⟩
  | edge hloc hpass hentry => exact ⟨_, .edge hloc (hpass.of_reads rfl) hentry, Or.inl rfl⟩
  | down hloc hpass hentry hrest ih =>
    obtain ⟨l', hlands, hsame⟩ := ih
    exact ⟨l', .down hloc (hpass.of_reads rfl) hentry hlands, hsame⟩
  | link hloc hpass hentry hlast => simp [Manner.lookup] at hlast
  | @through links loc name rest target l hloc hpass hentry hfollowed hrest ih =>
    cases hempty : rest.isEmpty with
    | true =>
      refine ⟨_, .link hloc (hpass.of_reads rfl) hentry ?_, Or.inr ⟨_, target, rfl, hentry⟩⟩
      simp [hempty, Manner.entry]
    | false =>
      obtain ⟨l', hlands, hsame⟩ := ih
      exact ⟨l', .through hloc (hpass.of_reads rfl) hentry (by simp [hempty]) hlands, hsame⟩

/-! ### Reading and writing -/

/-- No name remains behind the landing, which is no directory or link. -/
def Landing.EndsAtFile : Landing → Prop
  | .stop _ => False
  | .edge _ _ rest => rest = []
  | .off _ rest => rest = []

/-- A name that can be looked up is not empty. -/
lemma Passes.ne_nil {m : Manner} {name : Name} {rest : List Name} (h : Passes m name rest) :
    name ≠ [] := by
  rintro rfl
  exact h.notIdle rfl

/-- Only names of which the last is not empty lead to a file: an empty one asks for a directory. -/
lemma Lands.last_ne_nil {m : Manner} (h : Lands f m links loc names l) (hl : l.EndsAtFile)
    {name : Name} (hlast : names.getLast? = some name) : name ≠ [] := by
  induction h with
  | stop hloc => cases hl
  | off hloc =>
    cases hl
    cases hlast
  | link hloc hpass hentry hstop => cases hl
  | edge hloc hpass hentry =>
    cases hl
    cases hlast
    exact hpass.ne_nil
  | @idle links loc n rest l hloc hidle hrest ih =>
    cases rest with
    | nil =>
      cases hrest with
      | stop _ => cases hl
      | off hnone =>
        rw [hloc] at hnone
        cases hnone
    | cons r rest => exact ih hl (by simpa using hlast)
  | @up links loc rest l hloc hrest ih =>
    cases rest with
    | nil =>
      cases hlast
      decide
    | cons r rest => exact ih hl (by simpa using hlast)
  | @down links loc n rest l hloc hpass hentry hrest ih =>
    cases rest with
    | nil =>
      cases hlast
      exact hpass.ne_nil
    | cons r rest => exact ih hl (by simpa using hlast)
  | @through links loc n rest target l hloc hpass hentry hfollowed hrest ih =>
    cases rest with
    | nil =>
      cases hlast
      exact hpass.ne_nil
    | cons r rest => exact ih hl (by simpa [List.getLast?_append] using hlast)

/-- Before names of which the last is not empty, a name that can be looked up can be passed in every
manner. -/
lemma Passes.of_last {m m' : Manner} {name : Name} {rest : List Name} (h : Passes m name rest)
    (hlast : ∀ last, rest.getLast? = some last → last ≠ []) : Passes m' name rest := by
  refine ⟨h.notIdle, h.notUp, fun hslashed => ?_, h.notLong⟩
  simp only [Bool.and_eq_true] at hslashed
  obtain ⟨⟨-, hsome⟩, hempty⟩ := hslashed
  have hne : rest ≠ [] := by simpa using hsome
  have hend := List.getLast?_eq_some_getLast hne
  have hnil := List.all_eq_true.mp hempty _ (List.getLast_mem hne)
  exact hlast _ hend (List.isEmpty_iff.mp hnil)

/-- Names that lead to a file when they are looked up lead there when it is written. -/
lemma Lands.write (h : Lands f .lookup links loc names l) (hl : l.EndsAtFile) :
    Lands f .write links loc names l := by
  induction h with
  | stop hloc => exact .stop hloc
  | off hloc => exact .off hloc
  | idle hloc hidle hrest ih => exact .idle hloc hidle (ih hl)
  | up hloc hrest ih => exact .up hloc (ih hl)
  | edge hloc hpass hentry =>
    cases hl
    exact .edge hloc (hpass.of_last fun last hlast => by cases hlast) hentry
  | down hloc hpass hentry hrest ih =>
    exact .down hloc (hpass.of_last fun last => hrest.last_ne_nil hl) hentry (ih hl)
  | link hloc hpass hentry hlast => cases hl
  | @through links loc name rest target l hloc hpass hentry hfollowed hrest ih =>
    refine .through hloc (hpass.of_last fun last hlast => hrest.last_ne_nil hl ?_) hentry
      (by simp [Manner.write]) (ih hl)
    rw [List.getLast?_append, hlast]
    rfl

/-- Names that lead somewhere when a file is to be written lead there when they are looked up. -/
lemma Lands.lookup_of_write (h : Lands f .write links loc names l) :
    Lands f .lookup links loc names l := by
  induction h with
  | stop hloc => exact .stop hloc
  | off hloc => exact .off hloc
  | idle hloc hidle hrest ih => exact .idle hloc hidle ih
  | up hloc hrest ih => exact .up hloc ih
  | edge hloc hpass hentry => exact .edge hloc (hpass.of_reads rfl) hentry
  | down hloc hpass hentry hrest ih => exact .down hloc (hpass.of_reads rfl) hentry ih
  | link hloc hpass hentry hlast => simp [Manner.write] at hlast
  | through hloc hpass hentry hfollowed hrest ih =>
    exact .through hloc (hpass.of_reads rfl) hentry (by simp [Manner.lookup]) ih

/-- Where a file is to be written, names do not lead to a name with slashes behind it. -/
lemma Lands.notSlashed (h : Lands f .write links loc names l) {parent : Location} {name : Name}
    {rest : List Name} (hedge : l = .edge parent name rest)
    (hempty : rest.all List.isEmpty = true) : rest = [] := by
  induction h with
  | stop hloc => cases hedge
  | off hloc => cases hedge
  | link hloc hpass hentry hlast => cases hedge
  | edge hloc hpass hentry =>
    cases hedge
    by_contra hne
    have hsome : rest.isEmpty = false := by simpa using hne
    exact hpass.notSlashed (by rw [hempty, hsome]; rfl)
  | idle hloc hidle hrest ih => exact ih hedge
  | up hloc hrest ih => exact ih hedge
  | down hloc hpass hentry hrest ih => exact ih hedge
  | through hloc hpass hentry hfollowed hrest ih => exact ih hedge

end Manner

end EditorDocs.FileSystem
