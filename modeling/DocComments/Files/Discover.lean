import DocComments.Files.Glob
import DocComments.Files.Source

/-!
# Discovery

The source files that some inputs name: files themselves, and directories with everything below
them except in directories that hold no sources of their own. The result is sorted and names each
path once.
-/

set_option autoImplicit false

namespace DocComments

structure BadGlob where
  glob : Text
  error : GlobError
  deriving DecidableEq, Repr

def BadGlob.message (e : BadGlob) : String :=
  let glob := String.ofList e.glob
  "Invalid glob pattern " ++ glob ++ ": error parsing glob '" ++ glob ++ "': " ++ e.error.message

/-- The glob is nested too deeply, which ends the program. -/
def BadGlob.isTooDeep (e : BadGlob) : Bool := e.error == .tooDeep

namespace Discover

/-- The names of directories with files that are made or fetched, not written. -/
def skippedNames : List String :=
  ["node_modules", ".git", "target", "dist", "bin", "obj", "__pycache__"]

/-- A directory of this name is not entered: it is hidden or holds no sources. -/
def isSkipped (name : Text) : Bool :=
  name.head? == some '.' || skippedNames.contains (String.ofList name)

/-- A file that was found: its path, and its path inside the directory it was looked for in. -/
structure Found where
  path : Path
  inside : Path
  deriving DecidableEq, Repr

def Found.below (directory : Path) (names : List Text) : Found :=
  ⟨names.foldl Path.join directory, names.foldl Path.join []⟩

/-- A directory below one that was named is entered if its path is not too long. -/
def isEntered (directory : Path) (names : List Text) : Bool :=
  names.length < 2 ||
    Text.byteSize (Found.below directory names.dropLast).path ≤ FileEntry.pathLimit

/-- What an input names. An input that does not exist names nothing. -/
def ofInput (top : FileEntry) (input : Path) : List Found :=
  match top.find input with
  | .ok (.file _) => [⟨input, input⟩]
  | .ok (.directory entries) =>
    ((FileEntry.filesIn (fun name => !isSkipped name) entries).filter (isEntered input)).map
      (Found.below input)
  | .error _ => []

/-- The file is written in a known language, and the glob describes one of its paths. -/
def accepts (glob : Option (List GlobPiece)) (f : Found) : Bool :=
  (Language.ofPath? f.path).isSome &&
    glob.all fun pieces => Glob.accepts pieces f.inside || Glob.accepts pieces f.path

/-- The paths without those that are the same as the one in front. -/
def dedup : List Path → List Path
  | [] => []
  | [p] => [p]
  | p :: q :: rest => if p.same q then dedup (p :: rest) else p :: dedup (q :: rest)
termination_by paths => paths.length

def sorted (paths : List Path) : List Path :=
  dedup (paths.mergeSort fun p q => p.order q != .gt)

def files (top : FileEntry) (inputs : List Path) (glob : Option (List GlobPiece)) : List Path :=
  sorted (((inputs.flatMap (ofInput top)).filter (accepts glob)).map Found.path)

end Discover

/-- The source files that inputs name and a glob describes. -/
def discover (top : FileEntry) (inputs : List Path) (glob : Option Text) :
    Except BadGlob (List Path) :=
  match glob with
  | none => .ok (Discover.files top inputs none)
  | some g =>
    match Glob.read g with
    | .ok pieces => .ok (Discover.files top inputs (some pieces))
    | .error e => .error ⟨g, e⟩

end DocComments
