import DocComments.Diff.Tidy

/-!
# Unified diffs

The text form of a diff: hunks of changed lines with three unchanged lines around them, each under
a header that counts lines from one. A line that has no line break gets one. Where tidying has left
blocks out of order, a hunk can end in front of the line where it begins; such a hunk has no header,
and the diff has no text form.
-/

set_option autoImplicit false

namespace DocComments

namespace Diff

/-- The number of unchanged lines shown around changes. -/
def context : Nat := 3

/-! ## Hunks -/

/-- Keeps only the last lines of equal lines that come first. -/
def trimFirst : List Block → List Block
  | b :: blocks =>
    if b.tag = .equal then
      let off := b.oldCount - context
      (b.down off).shrink off :: blocks
    else b :: blocks
  | [] => []

/-- Keeps only the first lines of equal lines that come last. -/
def trimLast : List Block → List Block
  | [] => []
  | [b] => if b.tag = .equal then [b.shrink (b.oldCount - context)] else [b]
  | b :: blocks => b :: trimLast blocks

def hunkOf (blocks : List Block) : List (List Block) :=
  match blocks with
  | [] => []
  | [b] => if b.tag = .equal then [] else [blocks]
  | _ => [blocks]

/-- Splits blocks where many equal lines separate changes. `current` is the hunk read so far. -/
def splitHunks (current : List Block) : List Block → List (List Block)
  | [] => hunkOf current
  | b :: blocks =>
    if b.tag = .equal ∧ 2 * context < b.oldCount then
      let head : Block := { b with oldCount := context, newCount := context }
      let tail : Block := { b.down (b.oldCount - context) with
        oldCount := context, newCount := context }
      (current ++ [head]) :: splitHunks [tail] blocks
    else splitHunks (current ++ [b]) blocks

def hunks (blocks : List Block) : List (List Block) := splitHunks [] (trimLast (trimFirst blocks))

/-! ## Text -/

/-- A line behind its sign, with a line break at the end in any case. -/
def signedLine (sign : Char) (line : Text) : Text :=
  match line.getLast? with
  | some '\n' | some '\r' => sign :: line
  | _ => sign :: line ++ ['\n']

def signedLines (sign : Char) (lines : Array Text) (start count : Nat) : Text :=
  ((lines.toList.drop start).take count).flatMap (signedLine sign)

def blockText (old new : Array Text) (b : Block) : Text :=
  if b.tag = .equal then signedLines ' ' old b.oldStart b.oldCount
  else signedLines '-' old b.oldStart b.oldCount ++ signedLines '+' new b.newStart b.newCount

/-- The lines from one to another as a header shows them: the first line and their number. -/
def span? (start stop : Nat) : Option String :=
  if start ≤ stop then some (toString (start + 1) ++ "," ++ toString (stop - start)) else none

theorem span?_eq_none_iff {start stop : Nat} : span? start stop = none ↔ stop < start := by
  unfold span?
  split <;> simp <;> omega

def header? (first last : Block) : Option String := do
  let old ← span? first.oldStart (last.oldStart + last.oldCount)
  let new ← span? first.newStart (last.newStart + last.newCount)
  return "@@ -" ++ old ++ " +" ++ new ++ " @@\n"

def hunkText? (old new : Array Text) (hunk : List Block) : Option Text :=
  match hunk.head?, hunk.getLast? with
  | some first, some last =>
    (header? first last).map fun header => header.toList ++ hunk.flatMap (blockText old new)
  | _, _ => some []

/-- The unified diff of two texts, empty if they do not differ. -/
def unified? (before after : Text) : Option Text :=
  let old := (fullLines before).toArray
  let new := (fullLines after).toArray
  ((hunks (blocks old new)).mapM (hunkText? old new)).map List.flatten

def underName (path : String) : Text → Text
  | [] => []
  | diff => ("--- a/" ++ path ++ "\n+++ b/" ++ path ++ "\n").toList ++ diff

end Diff

end DocComments
