import EditorDocs.FileSystem.Errno
import EditorDocs.Text.Utf8
/-!
# Failures

Everything that can end an operation of the library early. A failure is a cause; its wording and
the name of its kind, which hosts see, are functions of the cause.

The kinds fall into classes that the callers tell apart: failures of the documentation index and of
the command boundary, failed file operations, text that is not UTF-8, and the rest. A command that is
not of the library can fail in a kind of its own, which belongs to one of these classes.
-/

namespace EditorDocs

/-- The class of a kind that is not of the library. -/
inductive Failure.Family where
  /-- It concerns the documentation index or a directory listing. -/
  | documentation
  /-- It is a failed file operation. -/
  | system
  /-- It is bytes that are not UTF-8. -/
  | undecodable
  /-- It is a wrong number of arguments, namely so many. -/
  | argumentCount (got : Nat)
  /-- It is nothing that the callers know. -/
  | other
  deriving DecidableEq

/-- The cause of a failure. -/
inductive Failure where
  /-- No documentation source is configured for the language. -/
  | unsupportedLanguage (language : Text)
  /-- The record of a language is there and cannot be read. -/
  | unreadableRecord (path reason : Text)
  /-- What was received from a source is not what it should be. -/
  | malformed (source reason : Text)
  /-- A request failed, or was answered with a status that is no success. -/
  | remote (url reason : Text) (status : Option Nat)
  /-- A directory cannot be listed. -/
  | unlistable (path reason : Text)
  /-- A documentation request that makes no sense, in its own words. -/
  | documentation (message : Text)
  /-- A file operation failed. -/
  | system (e : SystemError)
  /-- Bytes that should be UTF-8 are not. -/
  | undecodable (m : Utf8.Malformed)
  /-- Text that should go out as UTF-8 holds surrogates. -/
  | unencodable (u : Utf8.Unencodable)
  /-- A path holds a NUL. -/
  | embeddedNul
  /-- The host of a URL has a bracket without its partner or in a wrong place. -/
  | unbalancedHost
  /-- What stands in brackets in the host of a URL is no address. -/
  | noAddress (t : Text)
  /-- An address of version four stands in brackets. -/
  | bracketedAddress
  /-- An address in brackets that claims to be of a later version does not have the form of one. -/
  | malformedLaterAddress
  /-- The host of a URL holds characters that stand for delimiters. -/
  | ambiguousHost (host : Text)
  /-- An integer has too many digits. -/
  | longInteger (digits : Nat)
  /-- Values are nested too deeply. -/
  | tooDeep
  /-- A date names a day that there is not, in the words of the calendar. -/
  | value (message : Text)
  /-- The URL is one that the client does not accept. -/
  | invalidUrl (message : Text)
  /-- Cookies of one name are in conflict. -/
  | cookieConflict (message : Text)
  /-- The user interrupted the program. -/
  | interrupted
  /-- There is no configuration file at the path. -/
  | missingConfiguration (path : Text)
  /-- A configuration file is not the markup that it should be. -/
  | malformedConfiguration
  /-- A configuration is a list, or its sections are not all named by texts. -/
  | configurationList
  /-- A configuration is a single value. -/
  | configurationScalar
  /-- A word in a configuration is no truth value. -/
  | unknownWord (word : Text)
  /-- A number in a configuration has no characters. -/
  | emptyNumber
  /-- A point in time in a configuration does not have the form of one. -/
  | unreadableInstant
  /-- The number of a character in a configuration is out of all range. -/
  | characterNumber
  /-- A number in a configuration has a place that no floating point number reaches. -/
  | hugeNumber
  /-- A point in time in a configuration is written as a mapping. -/
  | instantOfMapping
  /-- A command was called with a wrong number of arguments. -/
  | argumentCount (name expected : Text) (got : Nat)
  /-- No command has the name; the names of all commands follow. -/
  | unknownCommand (name : Text) (available : List Text)
  /-- A command of this name is registered already. -/
  | duplicateCommand (name : Text)
  /-- A command failed in its own words. -/
  | command (message : Text)
  /-- A file operation of a command failed in its own words. -/
  | commandSystem (message : Text)
  /-- A command failed while running, in its own words. -/
  | runtime (message : Text)
  /-- A result cannot be printed as JSON. -/
  | unprintable
  /-- A text of an index cannot be written as JSON because it holds surrogates. -/
  | unwritableText (u : Utf8.Unencodable)
  /-- A value of a record has a name that no value can have. -/
  | reservedName
  /-- A value of a record stands where the log keeps its own. -/
  | falseRecord
  /-- The stack or the exception of a record is no text. -/
  | shapelessBlock
  /-- A value has no form as JSON. -/
  | formless
  /-- A command failed in a kind and in words of its own. -/
  | foreign (family : Failure.Family) (kind : Text) (named : kind ≠ []) (message : Text)
  deriving DecidableEq

namespace Failure

/-- The name of the kind of a failure. -/
def kind : Failure → Text
  | .unsupportedLanguage _ => "UnsupportedLanguageError"
  | .unreadableRecord _ _ => "CacheReadError"
  | .malformed _ _ => "DecodeError"
  | .remote _ _ _ => "RemoteFetchError"
  | .unlistable _ _ => "DirectoryListingError"
  | .documentation _ => "DocNavError"
  | .system e => e.errno.kind
  | .undecodable _ => "UnicodeDecodeError"
  | .unencodable _ => "UnicodeEncodeError"
  | .embeddedNul | .unbalancedHost | .noAddress _ | .bracketedAddress | .malformedLaterAddress
  | .ambiguousHost _ | .longInteger _ | .value _ => "ValueError"
  | .tooDeep => "RecursionError"
  | .invalidUrl _ => "InvalidURL"
  | .cookieConflict _ => "CookieConflict"
  | .interrupted => "KeyboardInterrupt"
  | .missingConfiguration _ => "FileNotFoundError"
  | .malformedConfiguration => "YAMLError"
  | .configurationList | .instantOfMapping | .reservedName | .shapelessBlock
  | .formless => "TypeError"
  | .configurationScalar | .unreadableInstant | .falseRecord => "AttributeError"
  | .unknownWord _ => "KeyError"
  | .emptyNumber => "IndexError"
  | .characterNumber | .hugeNumber => "OverflowError"
  | .argumentCount _ _ _ => "ArgumentCountError"
  | .unknownCommand _ _ => "CommandNotFoundError"
  | .duplicateCommand _ => "DuplicateCommandError"
  | .command _ => "CommandError"
  | .commandSystem _ => "OSError"
  | .runtime _ => "RuntimeError"
  | .unprintable | .unwritableText _ => "PydanticSerializationError"
  | .foreign _ kind _ _ => kind

/-- The wording of a failure. -/
def message : Failure → Text
  | .unsupportedLanguage language => "unsupported language: " ++ language
  | .unreadableRecord path reason =>
    ("failed to read cached file " : Text) ++ path ++ ": " ++ reason
  | .malformed source reason => ("failed to decode " : Text) ++ source ++ ": " ++ reason
  | .remote url reason _ => ("HTTP GET " : Text) ++ url ++ " failed: " ++ reason
  | .unlistable path reason => ("cannot list directory " : Text) ++ path ++ ": " ++ reason
  | .documentation m | .value m | .invalidUrl m | .cookieConflict m | .command m
  | .commandSystem m | .runtime m | .foreign _ _ _ m => m
  | .system e => e.message
  | .undecodable m => m.message
  | .unencodable u => u.message
  | .embeddedNul => "embedded null byte"
  | .unbalancedHost => "Invalid IPv6 URL"
  | .noAddress t => t.quoted ++ " does not appear to be an IPv4 or IPv6 address"
  | .bracketedAddress => "An IPv4 address cannot be in brackets"
  | .malformedLaterAddress => "IPvFuture address is invalid"
  | .ambiguousHost host => ("netloc '" : Text) ++ host ++
      "' contains invalid characters under NFKC normalization"
  | .unprintable => "Error serializing to JSON"
  | .unwritableText u => ("Error serializing to JSON: UnicodeEncodeError: " : Text) ++ u.message
  | .longInteger digits =>
    ("Exceeds the limit (4300 digits) for integer string conversion: value has " : Text) ++
      Text.ofNat digits ++ " digits; use sys.set_int_max_str_digits() to increase the limit"
  | .tooDeep => "maximum recursion depth exceeded"
  | .interrupted => []
  | .missingConfiguration path => ("Archivo de configuración no encontrado: " : Text) ++ path
  | .malformedConfiguration => "the configuration cannot be read"
  | .configurationList => "the configuration is not a mapping of sections"
  | .configurationScalar => "the configuration is a single value"
  | .unreadableInstant => "the point in time cannot be read"
  | .unknownWord word => word.quoted
  | .emptyNumber => "string index out of range"
  | .characterNumber => "Python int too large to convert to C int"
  | .hugeNumber => "int too large to convert to float"
  | .instantOfMapping => "the point in time is a mapping"
  | .reservedName => "the name cannot be given a value"
  | .falseRecord => "the value is no record"
  | .shapelessBlock => "the value is no text"
  | .formless => "Object of type set is not JSON serializable"
  | .argumentCount name expected got =>
    name ++ ": expected " ++ expected ++ ", got " ++ Text.ofNat got
  | .unknownCommand name available =>
    ("Command '" : Text) ++ name ++ "' not found. Available commands: " ++
      (if available.isEmpty then ("(none)" : Text) else Text.join ", " available)
  | .duplicateCommand name =>
    ("Command '" : Text) ++ name ++
      "' is already registered. Use allow_override=True to overwrite."

/-- The failure concerns the documentation index or a directory listing. -/
def isDocumentation : Failure → Bool
  | .unsupportedLanguage _ | .unreadableRecord _ _ | .malformed _ _ | .remote _ _ _
  | .unlistable _ _ | .documentation _ | .foreign .documentation _ _ _ => true
  | _ => false

/-- The failure is a failed file operation. -/
def isSystem : Failure → Bool
  | .system _ | .commandSystem _ | .foreign .system _ _ _ => true
  | _ => false

/-- The failure is bytes that are not UTF-8. -/
def isUndecodable : Failure → Bool
  | .undecodable _ | .foreign .undecodable _ _ _ => true
  | _ => false

/-- The failure is a value that cannot be what it should be. -/
def isValue : Failure → Bool
  | .undecodable _ | .unencodable _ | .embeddedNul | .unbalancedHost | .noAddress _
  | .bracketedAddress | .malformedLaterAddress | .ambiguousHost _ | .longInteger _ | .value _
  | .unprintable | .unwritableText _ | .foreign .undecodable _ _ _ => true
  | _ => false

/-- The failure is a wrong number of arguments. -/
def isArgumentCount : Failure → Bool
  | .argumentCount _ _ _ | .foreign (.argumentCount _) _ _ _ => true
  | _ => false

/-- The failure is that a file is missing. -/
def isMissingFile : Failure → Bool
  | .missingConfiguration _ => true
  | .system e => e.errno = .noEntry
  | _ => false

end Failure

end EditorDocs
