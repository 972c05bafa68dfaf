import DocComments.Files.Path
import DocComments.Text.Utf8

/-!
# Directory trees

The part of a file system that a program sees below its working directory. `locate` follows a path
and gives the names of the directories that lead to what it denotes, so that two paths denote the
same file when they lead to the same names. Paths and names have a largest size in bytes, and a path
with a zero in it is no path to the system.
-/

set_option autoImplicit false

namespace DocComments

inductive FileEntry where
  | file (bytes : ByteArray)
  | directory (entries : List (Text × FileEntry))

/-- Why a path leads nowhere, or why a file there cannot be used. -/
inductive FileError where
  | notFound
  | notDirectory
  | isDirectory
  /-- a name or the whole path has too many bytes -/
  | nameTooLong
  /-- the path has a zero in it -/
  | zeroInside
  deriving DecidableEq, Repr

/-- The text that the system has for an error. -/
def FileError.message : FileError → String
  | notFound => "No such file or directory (os error 2)"
  | notDirectory => "Not a directory (os error 20)"
  | isDirectory => "Is a directory (os error 21)"
  | nameTooLong => "File name too long (os error 36)"
  | zeroInside => "file name contained an unexpected NUL byte"

namespace FileEntry

def isDirectory : FileEntry → Bool
  | directory _ => true
  | file _ => false

def child? (e : FileEntry) (name : Text) : Option FileEntry :=
  match e with
  | directory entries => entries.lookup name
  | file _ => none

def at? (e : FileEntry) : List Text → Option FileEntry
  | [] => some e
  | name :: names => (e.child? name).bind fun d => d.at? names

/-! ## Following paths -/

def nameLimit : Nat := 255

def pathLimit : Nat := 4095

def isTooLong (piece : Text) : Bool := nameLimit < Text.byteSize piece

/-- The error of a path that leads nowhere, whatever there is. What is outside of the tree is not
found. -/
def fault? (p : Path) : Option FileError :=
  if p.contains '\x00' then some .zeroInside
  else if p = [] then some .notFound
  else if pathLimit < Text.byteSize p then some .nameTooLong
  else if p.isAbsolute then
    match p.components with
    | _ :: .entry name :: _ => some (if isTooLong name then .nameTooLong else .notFound)
    | _ => some .notFound
  else none

/-- Follows the pieces of a path from the directory that the names `here` lead to. -/
def locateFrom (top : FileEntry) (here : List Text) : List Text → Except FileError (List Text)
  | [] => .ok here
  | piece :: rest =>
    if (top.at? here).any isDirectory then
      if piece = [] ∨ piece = ['.'] then locateFrom top here rest
      else if piece = ['.', '.'] then
        if here = [] then .error .notFound else locateFrom top here.dropLast rest
      else if isTooLong piece then .error .nameTooLong
      else if (top.at? (here ++ [piece])).isSome then locateFrom top (here ++ [piece]) rest
      else .error .notFound
    else .error .notDirectory

/-- The names that lead to what a path denotes. -/
def locate (top : FileEntry) (p : Path) : Except FileError (List Text) :=
  match fault? p with
  | some e => .error e
  | none => locateFrom top [] (Path.pieces p)

def find (top : FileEntry) (p : Path) : Except FileError FileEntry :=
  match locate top p with
  | .ok names => (top.at? names).elim (.error .notFound) .ok
  | .error e => .error e

/-- What an entry is listed with as its size. -/
def size : FileEntry → Nat
  | file bytes => bytes.size
  | directory _ => 4096

def read (top : FileEntry) (p : Path) : Except FileError ByteArray :=
  match find top p with
  | .ok (file bytes) => .ok bytes
  | .ok (directory _) => .error .isDirectory
  | .error e => .error e

/-! ## Changing trees -/

/-- The entries with one under a name put in the place of the one that was there. -/
def putEntry (name : Text) (e : FileEntry) : List (Text × FileEntry) → List (Text × FileEntry)
  | [] => [(name, e)]
  | (other, old) :: more =>
    if other = name then (name, e) :: more else (other, old) :: putEntry name e more

/-- The tree with an entry put where some names lead, and the directories on the way. -/
def put (new : FileEntry) : List Text → FileEntry → FileEntry
  | [], _ => new
  | name :: names, e =>
    let entries := match e with
      | directory entries => entries
      | file _ => []
    directory (putEntry name (put new names ((entries.lookup name).getD (directory []))) entries)

def drop : List Text → FileEntry → FileEntry
  | [], e => e
  | [name], directory entries => directory (entries.filter fun entry => entry.1 ≠ name)
  | name :: names, directory entries =>
    match entries.lookup name with
    | some e => directory (putEntry name (drop names e) entries)
    | none => directory entries
  | _, file bytes => file bytes

def remove (top : FileEntry) (p : Path) : FileEntry :=
  match locate top p with
  | .ok names => drop names top
  | .error _ => top

/-- The tree with new bytes in the file that a path denotes. The file need not be there, its
directory has to. -/
def write (top : FileEntry) (p : Path) (bytes : ByteArray) : Except FileError FileEntry :=
  let pieces := Path.pieces p
  match fault? p with
  | some e => .error e
  | none =>
    match locateFrom top [] pieces.dropLast with
    | .error e => .error e
    | .ok names =>
      let last := pieces.getLastD []
      if !(top.at? names).any isDirectory then .error .notDirectory
      else if last = [] ∨ last = ['.'] ∨ last = ['.', '.'] then .error .isDirectory
      else if isTooLong last then .error .nameTooLong
      else if (top.at? (names ++ [last])).any isDirectory then .error .isDirectory
      else .ok (put (file bytes) (names ++ [last]) top)

/-! ## Listing -/

mutual

/-- The files of a tree, as the names that lead to them, in the directories that `enter` accepts by
name. -/
def filesBelow (enter : Text → Bool) : FileEntry → List (List Text)
  | file _ => [[]]
  | directory entries => filesIn enter entries

def filesIn (enter : Text → Bool) : List (Text × FileEntry) → List (List Text)
  | [] => []
  | (name, file _) :: more => [name] :: filesIn enter more
  | (name, directory entries) :: more =>
    (if enter name then (filesIn enter entries).map (name :: ·) else []) ++ filesIn enter more

end

end FileEntry

end DocComments
