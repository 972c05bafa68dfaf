import DocComments.Program
import DocComments.Syntax.Written

/-!
# Checkouts

A checkout is a directory of files with the parses of their texts, described by one line of JSON:
the paths of the files, and for each text that was parsed its language, the text and its tree. The
program is run on it as a function, and the files that it changed are found by comparing.
-/

set_option autoImplicit false

namespace DocComments

/-- The files below the working directory, and the texts that were parsed. -/
structure Checkout where
  files : List Path
  parses : List Parse

namespace Checkout

def read? (line : Text) : Option Checkout := do
  let fields ← (← WrittenJson.read? line).record? ["files", "parses"]
  match fields with
  | [some files, some parses] =>
    some ⟨← (← files.list?).mapM (·.text?), ← (← parses.list?).mapM Parse.ofWritten?⟩
  | _ => none

/-- The names on a path that leads downwards. -/
def names (p : Path) : List Text := (Path.pieces p).filter fun piece => (Path.step? piece).isSome

def contents (files : List (Path × ByteArray)) : FileEntry :=
  files.foldl (fun top file => FileEntry.put (.file file.2) (names file.1) top) (.directory [])

def write (p : Path) (t : Text) (top : FileEntry) : Except FileError Unit × FileEntry :=
  match top.write p (Utf8.encode t) with
  | .ok changed => (.ok (), changed)
  | .error e => (.error e, top)

/-- The program on a checkout. No model can be asked from here. -/
def host (c : Checkout) (env : Environment) : Host FileEntry where
  environment := env
  working := ['.']
  tree := id
  write := write
  tokenizer := .estimate
  parse := Parse.treeOf c.parses
  send _ s := (none, s)

/-- The files with other bytes than before. -/
def changes (c : Checkout) (before after : FileEntry) : List (Path × ByteArray) :=
  c.files.filterMap fun p =>
    match before.read p, after.read p with
    | .ok old, .ok new => if old.data = new.data then none else some (p, new)
    | _, _ => none

end Checkout

end DocComments
