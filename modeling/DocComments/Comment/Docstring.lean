import DocComments.Comment.Fence
import DocComments.Text.Offset

/-!
# Docstrings

Comments that are string literals in triple quotation marks. A reply that is such a literal
already is unwrapped first. Lines behind the first lose the indentation that they share.
-/

set_option autoImplicit false

namespace DocComments

namespace Docstring

def double : Text := ['"', '"', '"']

def single : Text := ['\'', '\'', '\'']

/-- The letters that may stand in front of a literal, in the order in which they are tried. -/
def markers : List Text := [[], ['r'], ['R'], ['u'], ['U']]

/-- A triple-quoted literal: the letter in front and the text between the quotation marks. -/
structure Literal where
  marker : Text
  body : Text
  deriving DecidableEq, Repr

/-- The text between two triple marks if the whole text is one literal in these marks. -/
def bodyIn? (quote t : Text) : Option Text := do
  let body ← quote.isSuffixOf? (← quote.isPrefixOf? t)
  if Text.occursIn quote body then none else some body

/-- The literal that a text is, if it is exactly one. -/
def literal? (t : Text) : Option Literal :=
  markers.findSome? fun marker => do
    let rest ← marker.isPrefixOf? t
    let body ← bodyIn? double rest <|> bodyIn? single rest
    return ⟨marker, body⟩

/-- The bytes of the blanks in front of a line. -/
def indentOf (line : Text) : Nat := Text.byteSize (line.takeWhile Text.isBlank)

/-- The smallest indentation of lines that are not blank, or zero. -/
def margin (lines : List Text) : Nat :=
  ((lines.filter fun line => !Text.allBlank line).map indentOf).min?.getD 0

/-- A line without the first `n` bytes, or without its blanks in front where these bytes cannot be
cut off. No blanks are left at the end. -/
def cutMargin (n : Nat) (line : Text) : Text :=
  Text.trimEnd (if Text.isBoundary n line then Text.dropBytes n line else Text.trimStart line)

/-- The text with its lines behind the first moved left by the indentation that they share. -/
def dedent (t : Text) : Text :=
  match Text.lines t with
  | [] => []
  | first :: more => Text.joinLines (first :: more.map (cutMargin (margin more)))

/-- The text with a backslash in front of each quotation mark of three in a row. -/
def escapeQuotes : Text → Text
  | [] => []
  | '"' :: '"' :: '"' :: rest => '\\' :: '"' :: '\\' :: '"' :: '\\' :: '"' :: escapeQuotes rest
  | c :: rest => c :: escapeQuotes rest

/-- The text with a blank behind a character that would change the closing quotation marks. -/
def guardEnd (t : Text) : Text :=
  match t.getLast? with
  | some '"' | some '\\' => t ++ [' ']
  | _ => t

/-- A body between its quotation marks. The closing ones stand on a line of their own behind a
body of several lines. -/
def quoted (marker body : Text) : Text :=
  marker ++ double ++ body ++ (if body.contains '\n' then ['\n'] else []) ++ double

def wrap (t : Text) : Text := quoted [] (guardEnd (escapeQuotes (dedent (Text.trim t))))

/-- Text as a raw literal, in which backslashes stand for themselves. -/
def wrapRaw (t : Text) : Text := quoted ['r'] (guardEnd (dedent (Text.trim t)))

/-- The literal has to stay raw: it is raw, its body has backslashes in it, and no three quotation
marks in a row. -/
def Literal.staysRaw (l : Literal) : Bool :=
  (l.marker == ['r'] || l.marker == ['R']) && l.body.contains '\\' &&
    !Text.occursIn double l.body

def render (raw : Text) : Text :=
  let t := Fence.strip raw
  match literal? t with
  | some l => if l.staysRaw then wrapRaw l.body else wrap l.body
  | none => wrap t

end Docstring

end DocComments
