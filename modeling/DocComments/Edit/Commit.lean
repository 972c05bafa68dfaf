import DocComments.Edit.Changeset
import DocComments.Diff.Unified

/-!
# Commits

A commit carries out the edits of a changeset from the last to the first, so that the ranges of
those that remain stay valid, and reports where each of them stands in the text before.
-/

set_option autoImplicit false

namespace DocComments

/-- An edit that was carried out. Lines and columns count from one, columns in characters. -/
structure EditLocation where
  line : Nat
  column : Nat
  replaced : Text
  replacement : Text
  deriving DecidableEq, Repr

structure Commit where
  content : Text
  modified : Text
  /-- the edits in the order in which they stand in the text -/
  edits : List EditLocation
  /-- the unified diff of the two texts -/
  diff : Text
  deriving DecidableEq, Repr

inductive CommitError where
  | badEdit (error : EditError)
  /-- the diff of the two texts has no text form -/
  | noDiff
  deriving DecidableEq, Repr

namespace Commit

def unchanged (content : Text) : Commit := ⟨content, content, [], []⟩

def count (c : Commit) : Nat := c.edits.length

def isChanged (c : Commit) : Bool := 0 < c.count && c.content != c.modified

def locationLine (e : EditLocation) : Text :=
  ("L" ++ toString e.line ++ ":" ++ toString e.column ++ " ").toList ++
    Text.trim (Text.firstLine e.replacement) ++ ['\n']

def display (c : Commit) (path : Option String) : Text :=
  (match path with
    | some p => ("// EDIT: " ++ p ++ "\n").toList
    | none => []) ++
  ("// Replacements: " ++ toString c.count ++ "\n").toList ++
  if c.count = 0 then "[No edits staged]\n".toList
  else "\n// Changes:\n".toList ++ c.edits.flatMap locationLine ++ "\n// Diff:\n".toList ++ c.diff

end Commit

namespace Edit

def apply (e : Edit) (t : Text) : Text :=
  Text.takeBytes e.range.start t ++ e.replacement ++ Text.dropBytes e.range.stop t

def location (content : Text) (e : Edit) : EditLocation :=
  let before := Text.takeBytes e.range.start content
  { line := Text.lineBreaks before + 1
    column := (Text.lastLine before).length + 1
    replaced := e.range.slice content
    replacement := e.replacement }

end Edit

namespace Changeset

/-- Edits from the last to the first; of edits that begin at the same place the one staged first
comes first. -/
def backward (edits : List Edit) : List Edit :=
  edits.mergeSort fun a b => b.range.start ≤ a.range.start

/-- The text after all edits, carried out one after the other. -/
def applyAll (edits : List Edit) (content : Text) : Text :=
  edits.foldl (fun t e => e.apply t) content

/-- Carries out the staged edits. The first range in staging order that does not fit the text is
an error, and so is a diff without a text form. -/
def commit (c : Changeset) (content : Text) : Except CommitError Commit :=
  match c.edits.find? fun e => !e.range.fits content with
  | some e => .error (.badEdit (.outOfBounds e.range (Text.byteSize content)))
  | none =>
    if c.edits.isEmpty then .ok (Commit.unchanged content)
    else
      let edits := backward c.edits
      let modified := applyAll edits content
      match Diff.unified? content modified with
      | none => .error .noDiff
      | some diff => .ok ⟨content, modified, (edits.map (Edit.location content)).reverse, diff⟩

end Changeset

end DocComments
