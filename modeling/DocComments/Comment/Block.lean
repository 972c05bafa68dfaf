import DocComments.Comment.Fence

/-!
# Block comments

Comments between `/**` and `*/`. Plain text becomes the lines of a new block, behind stars in one
column; a reply that is a block already has its lines moved into that column.
-/

set_option autoImplicit false

namespace DocComments

namespace BlockComment

def opening : Text := ['/', '*', '*']

def closing : Text := ['*', '/']

def isBlock (t : Text) : Bool :=
  match opening.isPrefixOf? t with
  | some rest => closing.isSuffixOf rest
  | none => false

/-- The text with a backslash inside everything that would end the comment. -/
def escapeClosing : Text → Text
  | [] => []
  | '*' :: '/' :: rest => '*' :: '\\' :: '/' :: escapeClosing rest
  | c :: rest => c :: escapeClosing rest

def starLine (line : Text) : Text :=
  match Text.trimEnd line with
  | [] => [' ', '*']
  | line => [' ', '*', ' '] ++ line

def ofPlain (t : Text) : Text :=
  Text.joinLines ([opening] ++ (Text.lines (escapeClosing t)).map starLine ++ [' ' :: closing])

/-- A line of a block behind the first one, moved into the column of the stars. -/
def alignLine (line : Text) : Text :=
  match Text.trim line with
  | [] => [' ', '*']
  | '*' :: rest => ' ' :: '*' :: rest
  | line => [' ', '*', ' '] ++ line

/-- A block with its lines moved into the column of the stars. -/
def realign (block : Text) : Text :=
  match Text.lines block with
  | [] => []
  | first :: more => Text.joinLines (Text.trim first :: more.map alignLine)

def render (raw : Text) : Text :=
  let t := Fence.strip raw
  if isBlock t then realign t else ofPlain t

end BlockComment

end DocComments
