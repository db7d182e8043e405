import EditorDocs.Source.Host
/-!
# The path of a URL

Of a URL only the path matters here: what is left when the scheme, the host, the fragment, the
query and the parameters of the last segment have been cut off. Blanks and control characters in
front are dropped first, and then tabs and line ends, wherever they stand.
-/

namespace EditorDocs.Url

/-- The character may stand in a scheme after its first letter. -/
def isSchemeChar (c : CodePoint) : Bool :=
  c.isLetter || c.isDigit || c.val = 0x2B || c.val = 0x2D || c.val = 0x2E

/-- The scheme, if the text begins with one, and what follows its colon. -/
def splitScheme (t : Text) : Option Text × Text :=
  match t.cut? (':' : CodePoint) with
  | some (c :: rest, after) =>
    if c.isLetter && rest.all isSchemeChar then (some (c :: rest), after) else (none, t)
  | _ => (none, t)

/-- A slash, question mark or number sign, which ends the host. -/
def endsHost (c : CodePoint) : Bool := c.val = 0x2F || c.val = 0x3F || c.val = 0x23

/-- The host, if two slashes announce one, and what follows it. -/
def splitHost (t : Text) : Text × Text :=
  match t with
  | a :: b :: rest =>
    if a = ('/' : CodePoint) ∧ b = ('/' : CodePoint) then
      (rest.takeWhile fun c => !endsHost c, rest.dropWhile fun c => !endsHost c)
    else ([], t)
  | _ => ([], t)

/-- The schemes whose last segment may carry parameters; no scheme counts as one of them. -/
def parameterSchemes : List Text :=
  (["ftp", "hdl", "prospero", "http", "imap", "https", "shttp", "rtsp", "rtsps", "rtspu", "sip",
    "sips", "mms", "sftp", "tel"] : List String).map Text.ofString

/-- The text without the parameters of its last segment. -/
def dropParameters (t : Text) : Text :=
  let last : Text := (t.reverse.takeWhile fun c => c != ('/' : CodePoint)).reverse
  let before := t.take (t.length - last.length)
  before ++ (Text.cut ';' last).1

/-- An ASCII letter in lower case; other characters unchanged. -/
def lowerAscii (c : CodePoint) : CodePoint :=
  if 0x41 ≤ c.val && c.val ≤ 0x5A then CodePoint.ofNat (c.val + 0x20) else c

/-- The path of a URL. -/
def path (url : Text) : Except Failure Text :=
  let url := url.dropWhile fun c => c.val ≤ 0x20
  let url := url.filter fun c => c.val != 0x09 && c.val != 0x0A && c.val != 0x0D
  let (scheme, rest) := splitScheme url
  let (host, rest) := splitHost rest
  match Host.fault? host with
  | some f => .error f
  | none =>
    let rest := (Text.cut '#' rest).1
    let rest := (Text.cut '?' rest).1
    let carries := match scheme with
      | none => true
      | some s => parameterSchemes.contains (s.map lowerAscii)
    .ok (if carries then dropParameters rest else rest)

/-- The segments of a path that are not empty. -/
def segments (path : Text) : List Text :=
  (path.splitOn ('/' : CodePoint)).filter fun s => !s.isEmpty

end EditorDocs.Url
