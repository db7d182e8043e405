import EditorDocs.Source.Url
import EditorDocs.Table
import EditorDocs.Text.Lowercase
/-!
# Documentation sources

A source table says for each language tag where its index is found, and where the documents of all
languages lie. Tags are compared in lower case. The slug of a language, which leads to its
documents, is the segment of the index URL before `index.json`.
-/

namespace EditorDocs

/-- Where the indices and the documents of the languages are found. -/
structure Sources where
  /-- The index URL of each tag in lower case, in the order in which the tags first came. -/
  urls : Table Text Text
  /-- What the URL of every document begins with, without slashes at its end. -/
  base : Text
  deriving DecidableEq

namespace Sources

/-- The text without slashes at its end. -/
def dropEndSlashes (t : Text) : Text := t.dropEndWhile (· = ('/' : CodePoint))

/-- The tags in lower case with their URLs: of tags that become equal the first gives the place and
the last the URL. -/
def lowerTags (urls : List (Text × Text)) : Table Text Text :=
  Table.ofPairs (urls.map fun (tag, url) => (tag.lower, url))

/-- The table of the given tags and URLs. -/
def ofList (urls : List (Text × Text)) (base : Text) : Sources :=
  ⟨lowerTags urls, dropEndSlashes base⟩

/-- The sources that are used unless a configuration names others. -/
def defaultUrls : List (Text × Text) :=
  ([("js", "https://documents.devdocs.io/javascript/index.json"),
    ("cpp", "https://documents.devdocs.io/cpp/index.json"),
    ("c", "https://documents.devdocs.io/c/index.json"),
    ("py", "https://documents.devdocs.io/python~3.12/index.json"),
    ("rs", "https://documents.devdocs.io/rust/index.json"),
    ("lua", "https://documents.devdocs.io/lua/index.json")] : List (String × String)).map
    fun (tag, url) => (Text.ofString tag, Text.ofString url)

/-- What document URLs begin with unless a configuration says otherwise. -/
def defaultBase : Text := "https://documents.devdocs.io"

/-- The tags of the table. -/
def languages (s : Sources) : List Text := s.urls.keys

/-- The tags of the table with their URLs. -/
def items (s : Sources) : List (Text × Text) := s.urls

/-- The number of tags. -/
def size (s : Sources) : Nat := s.urls.length

/-- The table has a source for the language, in whatever case it is spelled. -/
def has (s : Sources) (language : Text) : Bool := s.urls.has language.lower

/-- The URL of the index of a language. -/
def indexUrl (s : Sources) (language : Text) : Except Failure Text :=
  match s.urls.get? language.lower with
  | some url => .ok url
  | none => .error (.unsupportedLanguage language)

/-- The segment of a language's index URL that leads to its documents. -/
def slug (s : Sources) (language : Text) : Except Failure Text := do
  let segments := Url.segments (← Url.path (← s.indexUrl language))
  let isFile := match segments.getLast? with
    | some last => last.endsWith ".json"
    | none => false
  match (if isFile then segments.dropLast else segments).getLast? with
  | some segment => pure segment
  | none => .error (.unsupportedLanguage language)

/-- The name of the document of an entry: without the fragment, and with `.html` at its end. -/
def documentName (entry : Text) : Text :=
  let name := (Text.cut '#' entry).1
  if name.endsWith ".html" then name else name ++ ".html"

/-- The URL of the document that a path `<language>/<entry>` names. -/
def documentUrl (s : Sources) (path : Text) : Except Failure Text := do
  let (language, entry) := (path.trimBoth (· = ('/' : CodePoint))).cut ('/' : CodePoint)
  if entry.isEmpty then
    .error (.documentation
      (("document path must look like <language>/<entry>, got " : Text) ++ path.quoted))
  else
    let slug ← s.slug language
    pure (s.base ++ "/" ++ slug ++ "/" ++ documentName entry)

end Sources

end EditorDocs
