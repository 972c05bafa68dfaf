import DocComments.Text.Offset

/-!
# YAML: values, tokens and places

A document of YAML is a scalar, a sequence or a mapping. A value may have a name, and an alias
stands for the value that has its name. The text of a document is first cut into tokens, of which
some stand for indentation. This file holds values and tokens, and the places in a text that the
cut depends on.
-/

set_option autoImplicit false

namespace DocComments

/-! ## Values -/

/-- What a value says about its type: the bytes of a name. -/
abbrev Yaml.Tag := List UInt8

inductive Yaml.Style where
  /-- without quotes; such a scalar can also mean a number or nothing -/
  | plain
  /-- in quotes, single or double -/
  | quoted
  /-- in a block whose line breaks are kept -/
  | literal
  /-- in a block whose lines are joined -/
  | folded
  deriving DecidableEq, Repr

inductive Yaml where
  | scalar (tag : Option Yaml.Tag) (style : Yaml.Style) (text : Text)
  | sequence (items : List Yaml)
  | mapping (entries : List (Yaml × Yaml))
  /-- the value whose name has this number -/
  | reference (number : Nat)

namespace Yaml

/-- The value of what is not written. -/
def missing : Yaml := scalar none .plain []

/-- A document: its value, and the values in it that have a name, by the number of the name. -/
structure Document where
  root : Yaml
  named : List (Nat × Yaml)

/-- The value itself in place of an alias. -/
def Document.resolve (d : Document) : Yaml → Yaml
  | reference number => (d.named.lookup number).getD missing
  | v => v

/-! ## Tokens -/

inductive WrittenTag where
  /-- the tag in full -/
  | full (tag : Tag)
  /-- a handle, which stands for the beginning of the tag, and the rest of it -/
  | short (handle : Text) (rest : Tag)
  deriving DecidableEq, Repr

inductive Token where
  /-- the version of the format that the document is written in -/
  | version (major minor : Nat)
  /-- the beginning of tags that a handle stands for -/
  | handle (name : Text) (beginning : Tag)
  | documentStart
  | documentEnd
  /-- a sequence or a mapping begins that is told by its indentation -/
  | blockSequence
  | blockMapping
  | blockEnd
  /-- brackets and braces -/
  | flowSequence
  | flowSequenceEnd
  | flowMapping
  | flowMappingEnd
  /-- the dash in front of an item -/
  | item
  /-- the comma behind an item -/
  | comma
  | key
  | value
  | anchor (name : Text)
  | reference (name : Text)
  | tag (written : WrittenTag)
  | scalar (style : Style) (text : Text)
  deriving DecidableEq, Repr

/-! ## Characters -/

def isAllowed (c : Char) : Bool :=
  let n := c.toNat
  n == 0x09 || n == 0x0A || n == 0x0D || (0x20 ≤ n && n ≤ 0x7E) || n == 0x85 ||
    (0xA0 ≤ n && n ≤ 0xFFFD) || 0x10000 ≤ n

/-- The mark in front of a line, which is read like a blank there. -/
def byteOrderMark : Char := '\ufeff'

def isSpace (c : Char) : Bool := c == ' ' || c == '\t'

/-- A character of the names of anchors, handles and directives. -/
def isNameChar (c : Char) : Bool := c.isAlphanum || c == '_' || c == '-'

/-- What a character that breaks lines stands for in a scalar. -/
def breakText? (c : Char) : Option Text :=
  if c = '\n' ∨ c = '\r' ∨ c = '\u0085' then some ['\n']
  else if c = '\u2028' ∨ c = '\u2029' then some [c]
  else none

def isBreak (c : Char) : Bool := (breakText? c).isSome

/-- A blank, a line break or the end comes next. -/
def endsWord (t : Text) : Bool := t.head?.all fun c => isSpace c || isBreak c

/-- The first line break taken off, with the number of its bytes. -/
def takeBreak? : Text → Option (Text × Nat × Text)
  | '\r' :: '\n' :: rest => some (['\n'], 2, rest)
  | c :: rest => (breakText? c).map fun b => (b, c.utf8Size, rest)
  | [] => none

/-! ## Places -/

/-- A place in a text. Lines and columns count from zero; a column is a character and the index
counts bytes. -/
structure Place where
  line : Nat
  column : Nat
  index : Nat
  deriving DecidableEq, Repr

namespace Place

def past (p : Place) (t : Text) : Place :=
  { p with column := p.column + t.length, index := p.index + Text.byteSize t }

/-- The start of the next line, behind a line break of `n` bytes. -/
def down (p : Place) (n : Nat) : Place := ⟨p.line + 1, 0, p.index + n⟩

end Place

def atMark (p : Place) (t : Text) : Bool :=
  p.column == 0 && (t.take 3 == ['-', '-', '-'] || t.take 3 == ['.', '.', '.']) &&
    endsWord (t.drop 3)

/-- Leaves the line, if nothing but blanks and a comment is left of it. -/
def leaveLine? (p : Place) (t : Text) : Option (Place × Text) :=
  let blanks := t.takeWhile isSpace
  let rest := t.drop blanks.length
  let comment := if rest.head? = some '#' then rest.takeWhile fun c => !isBreak c else []
  let p := p.past (blanks ++ comment)
  match rest.drop comment.length with
  | [] => some (p, [])
  | rest => (takeBreak? rest).map fun (_, n, rest) => (p.down n, rest)

end Yaml

end DocComments
