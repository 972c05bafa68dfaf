import DocComments.Files.Entry
import DocComments.Syntax.Language

/-!
# Source files

The language of a file is told by its extension. A source file is read as a whole, unless it is too
large, looks binary or is not UTF-8.
-/

set_option autoImplicit false

namespace DocComments

/-- The language of a file. Letters of the extension count in either case. -/
def Language.ofPath? (p : Path) : Option Language := do
  let extension ← p.extension?
  ofExtension? (String.ofList (Text.toLower extension))

inductive ReadError where
  | io (path : Path) (error : FileError)
  | tooLarge (path : Path) (size limit : Nat)
  | binary (path : Path)
  | notUtf8 (path : Path) (offset : Nat)
  deriving DecidableEq, Repr

def ReadError.message : ReadError → String
  | io path error => "I/O error on " ++ String.ofList path ++ ": " ++ error.message
  | tooLarge path size limit =>
    "File too large: " ++ String.ofList path ++ " (" ++ toString size ++ " bytes, limit " ++
      toString limit ++ ")"
  | binary path => "Binary file skipped: " ++ String.ofList path
  | notUtf8 path offset =>
    "Not valid UTF-8: " ++ String.ofList path ++ " (first invalid byte at offset " ++
      toString offset ++ ")"

namespace Source

/-- How many bytes in front are looked at for zeros. -/
def sniffed : Nat := 8192

def isBinary (bytes : ByteArray) : Bool := (bytes.data.toList.take sniffed).contains 0

/-- The text of a source file of at most `limit` bytes, given what its path denotes. -/
def ofEntry (path : Path) (limit : Nat) (found : Except FileError FileEntry) :
    Except ReadError Text :=
  match found with
  | .error e => .error (.io path e)
  | .ok entry =>
    if limit < entry.size then .error (.tooLarge path entry.size limit)
    else
      match entry with
      | .directory _ => .error (.io path .isDirectory)
      | .file bytes =>
        if isBinary bytes then .error (.binary path)
        else (Utf8.decode bytes).mapError fun offset => .notUtf8 path offset

end Source

end DocComments
