import DocComments.Text.Basic

/-!
# Paths

A path is the text that names a file. Slashes divide it into components; two slashes in a row and
dots in between do not count, a dot in front does. Paths are compared component by component, so
that different texts can name the same path.
-/

set_option autoImplicit false

namespace DocComments

/-- The text that names a file, as a user or a walk spells it. -/
abbrev Path := Text

namespace Path

inductive Component where
  /-- the top of the file system -/
  | root
  /-- the working directory -/
  | here
  /-- the directory above -/
  | up
  /-- an entry of a directory -/
  | entry (name : Text)
  deriving DecidableEq, Repr

def pieces : Text → List Text
  | [] => [[]]
  | '/' :: rest => [] :: pieces rest
  | c :: rest =>
    match pieces rest with
    | [] => [[c]]
    | first :: more => (c :: first) :: more

def isAbsolute (p : Path) : Bool := p.head? == some '/'

/-- What a piece stands for behind another one. -/
def step? (piece : Text) : Option Component :=
  if piece = [] ∨ piece = ['.'] then none
  else if piece = ['.', '.'] then some .up
  else some (.entry piece)

def components (p : Path) : List Component :=
  match pieces p with
  | [] => []
  | first :: more =>
    let rest := more.filterMap step?
    if isAbsolute p then .root :: rest
    else if first = ['.'] then .here :: rest
    else (step? first).toList ++ rest

/-- Two texts name the same path. -/
def same (p q : Path) : Bool := p.components == q.components

/-! ## Order -/

namespace Component

/-- The place of a component in the order of kinds of components. -/
def rank : Component → Nat
  | root => 0
  | here => 1
  | up => 2
  | entry _ => 3

def text : Component → Text
  | entry name => name
  | _ => []

end Component

def compareText : Text → Text → Ordering
  | [], [] => .eq
  | [], _ :: _ => .lt
  | _ :: _, [] => .gt
  | a :: s, b :: t => (compare a.toNat b.toNat).then (compareText s t)

def compareComponent (a b : Component) : Ordering :=
  (compare a.rank b.rank).then (compareText a.text b.text)

/-- The order of lists of components, the first difference deciding. -/
def compareComponents : List Component → List Component → Ordering
  | [], [] => .eq
  | [], _ :: _ => .lt
  | _ :: _, [] => .gt
  | a :: p, b :: q => (compareComponent a b).then (compareComponents p q)

def order (p q : Path) : Ordering := compareComponents p.components q.components

/-! ## Parts -/

/-- The last component, if it is an entry. -/
def fileName? (p : Path) : Option Text :=
  match p.components.getLast? with
  | some (.entry name) => some name
  | _ => none

/-- What stands behind the last dot of a file name, unless that dot comes first. -/
def extension? (p : Path) : Option Text := do
  let name ← fileName? p
  let back := name.reverse.takeWhile (· != '.')
  if back.length + 1 < name.length then some back.reverse else none

/-- A path inside a directory. An absolute path stays what it is. -/
def join (directory p : Path) : Path :=
  if isAbsolute p then p
  else if directory = [] ∨ directory.getLast? = some '/' then directory ++ p
  else directory ++ '/' :: p

end Path

end DocComments
