import EditorDocs.Config.Problem
import EditorDocs.Config.Settings
import EditorDocs.Number.Reading
/-!
# Validation

From the data of a configuration to settings. Every setting has a reader that accepts the forms in
which the setting may be written; a setting that is absent has its default. A section reports the
problems of its settings in the order of the settings, and then the names that are no settings, in
the order in which they were given.
-/

namespace EditorDocs.Config

/-! ## Values -/

/-- The text of bytes or of a text, if it can be encoded. -/
def plainText? : Scalar → Option (Except Unit Text)
  | .text t => some (if t.any CodePoint.isSurrogate then .error () else .ok t)
  | .binary bytes => some (match Utf8.decode bytes with
    | .ok t => .ok t
    | .error _ => .error ())
  | _ => none

/-- Why a text or bytes cannot be read, when they hold no Unicode text. -/
def encodingCause (otherwise : Cause) : Data → Cause
  | .scalar (.text _) => .notUnicode
  | _ => otherwise

/-- A text, possibly given as bytes. -/
def readText : Data → Except Cause Text
  | .scalar (.text t) => .ok t
  | .scalar (.binary bytes) => match Utf8.decode bytes with
    | .ok t => .ok t
    | .error _ => .error .notUnicode
  | _ => .error .notText

/-- A path. -/
def readPath : Data → Except Cause Path
  | .scalar (.text t) => .ok (Path.ofText t)
  | _ => .error .notPath

/-- The number that a text spells: blanks around it count for nothing, and where there are none,
single underscores within it. -/
def numberOfText (t : Text) : Except Cause Binary64 :=
  match t.stripSpaces.toBinary64?.or (t.withoutSeparators.bind Text.toBinary64?) with
  | some x => .ok x
  | none => .error .unreadableNumber

/-- A number; truth values count as one and zero. -/
def readNumber (d : Data) : Except Cause Binary64 :=
  match d with
  | .scalar (.float x) => .ok x
  | .scalar (.bool b) => .ok (Binary64.ofInt (if b then 1 else 0))
  | .scalar (.int n) =>
    let x := Binary64.ofInt n
    if x.isFinite then .ok x else .error .notNumber
  | .scalar s => match plainText? s with
    | some (.ok t) => numberOfText t
    | some (.error _) => .error (encodingCause .unreadableNumber d)
    | none => .error .notNumber
  | _ => .error .notNumber

/-- A number above zero. -/
def readPositive (d : Data) : Except Cause Binary64 := do
  let x ← readNumber d
  if x.isPositive then pure x else .error .notPositive

/-- The integer that a number without fraction is, if it fits into 64 bits. -/
def integerOfNumber (x : Binary64) : Except Cause Int :=
  if x.isFinite then
    match x.toInt? with
    | some n => if isWord n ∧ n ≠ leastWord then .ok n else .error .integerTooLarge
    | none => .error .fractional
  else .error .notFinite

/-- The number of digits that an integer may have. -/
def integerTextLimit : Nat := 4300

/-- The digits before a point that is followed by zeros only, one at least. -/
def dropZeroFraction (t : Text) : Text :=
  match t.cut? ('.' : CodePoint) with
  | some (whole, fraction) =>
    if !fraction.isEmpty && fraction.all (· = ('0' : CodePoint)) then whole else t
  | none => t

/-- A digit that is not zero. -/
def isCounting (c : CodePoint) : Bool := 0x31 ≤ c.val && c.val ≤ 0x39

/-- What follows zeros and underscores: a digit or a minus sign. If nothing follows them, the last one
of them stays, which is `last` so far. -/
def afterZeros? (last : CodePoint) : Text → Option Text
  | [] => some [last]
  | c :: t =>
    if c = ('0' : CodePoint) || c = ('_' : CodePoint) then afterZeros? c t
    else if isCounting c || c = ('-' : CodePoint) then some (c :: t) else none

/-- The text without zeros in front. It has to begin with a digit. -/
def dropZeros? : Text → Option Text
  | [] => none
  | c :: t =>
    if c = ('0' : CodePoint) then afterZeros? c t
    else if isCounting c then some (c :: t) else none

/-- The value of digits of which the first is not zero, or of a zero alone. Too many digits are
refused whatever follows them. -/
def plainInteger (t : Text) : Except Cause Nat :=
  if integerTextLimit < (t.takeWhile CodePoint.isDigit).length then .error .integerTooLarge
  else match t with
    | [] => .error .unreadableInteger
    | c :: rest =>
      if (isCounting c && rest.all CodePoint.isDigit) || (c = ('0' : CodePoint) && rest.isEmpty) then
        .ok (Text.decimalValue t)
      else .error .unreadableInteger

/-- The integer that a text spells. Blanks around it, a plus sign, a fraction of zeros, zeros in front
and single underscores count for nothing; a minus sign may stand in front of everything, or behind
the zeros. -/
def integerOfText (t : Text) : Except Cause Int :=
  let (negative, size) := t.stripSpaces.splitSign
  match dropZeros? (dropZeroFraction size) with
  | none => .error .unreadableInteger
  | some digits =>
    match negative, (digits.withoutSeparators).getD digits with
    | true, digits => (plainInteger digits).map fun n => -(n : Int)
    | false, c :: digits =>
      if c = ('-' : CodePoint) then (plainInteger digits).map fun n => -(n : Int)
      else (plainInteger (c :: digits)).map Int.ofNat
    | false, [] => .error .unreadableInteger

/-- An integer; truth values count as one and zero. -/
def readInteger (d : Data) : Except Cause Int :=
  match d with
  | .scalar (.int n) => .ok n
  | .scalar (.bool b) => .ok (if b then 1 else 0)
  | .scalar (.float x) => integerOfNumber x
  | .scalar s => match plainText? s with
    | some (.ok t) => integerOfText t
    | some (.error _) => .error (encodingCause .unreadableInteger d)
    | none => .error .notInteger
  | _ => .error .notInteger

/-- A depth, or null for none. -/
def readDepth : Data → Except Cause (Option Nat)
  | .scalar .null => .ok none
  | d => do
    let n ← readInteger d
    if n < 0 then .error .negative else pure (some n.toNat)

/-- The spellings of truth. -/
def trueWords : List Text := ["1", "on", "t", "true", "y", "yes"]

/-- The spellings of falsehood. -/
def falseWords : List Text := ["0", "off", "f", "false", "n", "no"]

/-- A truth value: one of its spellings in any case, or zero or one. -/
def readBool (d : Data) : Except Cause Bool :=
  match d with
  | .scalar (.bool b) => .ok b
  | .scalar (.int n) =>
    if n = 0 then .ok false else if n = 1 then .ok true
    else if isWord n then .error .unreadableBool else .error .notBool
  | .scalar (.float x) => match integerOfNumber x with
    | .ok n => if n = 0 then .ok false else if n = 1 then .ok true else .error .unreadableBool
    | .error _ => .error .notBool
  | .scalar s => match plainText? s with
    | some (.ok t) =>
      let word := t.lowerAscii
      if trueWords.contains word then .ok true
      else if falseWords.contains word then .ok false else .error .unreadableBool
    | some (.error _) => .error (encodingCause .unreadableBool d)
    | none => .error .notBool
  | _ => .error .notBool

/-- The name of a level. -/
def readLevel : Data → Except Cause Level
  | .scalar (.text t) =>
    if t.any CodePoint.isSurrogate then .error .notUnicode
    else match Level.all.find? fun l => l.name = t with
      | some l => .ok l
      | none => .error .notLevel
  | _ => .error .notLevel

/-- A file, or null for none. -/
def readFile : Data → Except Cause (Option Path)
  | .scalar .null => .ok none
  | d => (readPath d).map some

/-! ## Sources -/

/-- A tag with its URL. -/
def readSource (key : Scalar) (d : Data) : Checked (Text × Text) :=
  let tag := Checked.within (.name "[key]") (Checked.ofExcept (readText (.scalar key)))
  Checked.within (Step.ofScalar key) (Prod.mk <$> tag <*> Checked.ofExcept (readText d))

/-- Tags with their URLs. -/
def readSourceList : Mapping → Checked (List (Text × Text))
  | [] => pure []
  | (key, d) :: rest => List.cons <$> readSource key d <*> readSourceList rest

/-- The sources, with tags in lower case. Tags that are the same text are one before that. -/
def readSources : Data → Checked (Table Text Text)
  | .mapping entries =>
    (readSourceList entries).map fun pairs => Sources.lowerTags (Table.ofPairs pairs)
  | _ => .invalid [⟨[], .notMapping⟩]

/-! ## Sections -/

/-- A setting of a section, or its default if it is absent. -/
def settingOr {α : Type} (m : Mapping) (name : String) (default : α)
    (check : Data → Checked α) : Checked α :=
  match Mapping.get? name m with
  | none => pure default
  | some d => Checked.within (.name name) (check d)

/-- A setting that is read by itself. -/
def scalarSetting {α : Type} (m : Mapping) (name : String) (default : α)
    (read : Data → Except Cause α) : Checked α :=
  settingOr m name default fun d => Checked.ofExcept (read d)

/-- The problem with a name that is none of the settings `known`. -/
def strayName? (known : List String) : Scalar → Option Problem
  | .text t =>
    if known.any fun name => Text.ofString name = t then none
    else some ⟨[.name t], .unknownSetting⟩
  | key => some ⟨[Step.ofScalar key], .nameNotText⟩

/-- The problems with the names that are none of the settings `known`. -/
def strayNames (known : List String) (m : Mapping) : List Problem :=
  m.filterMap fun (key, _) => strayName? known key

/-- A name of the mapping holds surrogates. -/
def hasSurrogateName (m : Mapping) : Bool := m.any fun (key, _) => match key with
  | .text t => t.any CodePoint.isSurrogate
  | _ => false

/-- A section with its settings. No name may be other than `known`, and where names cannot be
encoded nothing else is reported. -/
def readSection {α : Type} (known : List String) (settings : Mapping → Checked α) (m : Mapping) :
    Checked α :=
  if hasSurrogateName m then .invalid [⟨[], .notUnicode⟩]
  else (settings m).also (strayNames known m)

/-- A section of a configuration, which has to be a mapping. -/
def readSectionData {α : Type} (wanted : String) (read : Mapping → Checked α) : Data → Checked α
  | .mapping m => read m
  | _ => .invalid [⟨[], .notSection wanted⟩]

/-- The settings of the documentation indices. -/
def readDocs (temporary : Path) : Mapping → Checked DocsSettings :=
  let default := Settings.defaultDocs temporary
  readSection ["cache_dir", "sources", "documents_base_url", "timeout"] fun m =>
    DocsSettings.mk
      <$> scalarSetting m "cache_dir" default.cacheDir readPath
      <*> settingOr m "sources" default.urls readSources
      <*> scalarSetting m "documents_base_url" default.base
        (fun d => (readText d).map Sources.dropEndSlashes)
      <*> scalarSetting m "timeout" default.timeout readPositive

/-- The settings of directory trees. -/
def readTree : Mapping → Checked TreeSettings :=
  let default := Settings.defaultTree
  readSection ["strict", "max_depth", "create_missing"] fun m =>
    TreeSettings.mk
      <$> scalarSetting m "strict" default.strict readBool
      <*> scalarSetting m "max_depth" default.maxDepth readDepth
      <*> scalarSetting m "create_missing" default.createMissing readBool

/-- The settings of the log. -/
def readLog : Mapping → Checked LogSettings :=
  let default := Settings.defaultLog
  readSection ["level", "file", "verbose"] fun m =>
    LogSettings.mk
      <$> scalarSetting m "level" default.level readLevel
      <*> scalarSetting m "file" default.file readFile
      <*> scalarSetting m "verbose" default.verbose readInteger

/-- The settings that a configuration makes, records being kept in the directory `temporary` of the
host unless the configuration says otherwise. -/
def validate (temporary : Path) : Mapping → Checked Settings :=
  readSection ["docs", "tree", "logging"] fun m =>
    Settings.mk
      <$> settingOr m "docs" (Settings.defaultDocs temporary)
        (readSectionData "DocsConfig" (readDocs temporary))
      <*> settingOr m "tree" Settings.defaultTree (readSectionData "TreeConfig" readTree)
      <*> settingOr m "logging" Settings.defaultLog (readSectionData "LoggingConfig" readLog)

end EditorDocs.Config
