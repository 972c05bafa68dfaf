import DocComments.Decimal.Read
import DocComments.Yaml.Basic

/-!
# YAML scalars

Scalars without quotes, in quotes, and in blocks of lines. In the first two, a single line break
between words is a blank and more of them are line breaks less the first.
-/

set_option autoImplicit false

namespace DocComments

namespace Yaml

/-- What stands between two words of a scalar. -/
inductive Gap where
  /-- blanks within a line, perhaps none -/
  | blanks (read : Text)
  /-- a line break and those behind it -/
  | breaks (first more : Text)
  deriving DecidableEq, Repr

namespace Gap

def none : Gap := blanks []

def hasBreak : Gap → Bool
  | blanks _ => false
  | breaks _ _ => true

def isSome : Gap → Bool
  | blanks read => !read.isEmpty
  | breaks _ _ => true

/-- One more blank. Blanks at the start of lines do not count. -/
def addBlank (c : Char) : Gap → Gap
  | blanks read => blanks (read ++ [c])
  | breaks first more => breaks first more

/-- One more line break. Blanks in front of it do not count. -/
def addBreak (b : Text) : Gap → Gap
  | blanks _ => breaks b []
  | breaks first more => breaks first (more ++ b)

def text : Gap → Text
  | blanks read => read
  | breaks first more =>
    if first = ['\n'] then (if more = [] then [' '] else more) else first ++ more

end Gap

/-- A scalar that was read: its text, the place behind it and what follows there. -/
structure Scanned where
  text : Text
  /-- the scalar was left behind a line break -/
  broken : Bool
  place : Place
  rest : Text

/-! ## Scalars without quotes -/

/-- The characters that have a meaning of their own in brackets and braces. -/
def isFlowMark (c : Char) : Bool := c == ',' || c == '[' || c == ']' || c == '{' || c == '}'

def endsPlain (flow : Bool) (c : Char) (rest : Text) : Bool :=
  (c == ':' && endsWord rest) || (flow && isFlowMark c)

/-- Reads a scalar without quotes. In a block its lines have to be indented by `depth`. `read` is
what was read, the last character first. -/
def plain (flow : Bool) (depth : Nat) (p : Place) (read : Text) (gap : Gap) : Text → Option Scanned
  | [] => some ⟨read.reverse, gap.hasBreak, p, []⟩
  | '\r' :: '\n' :: rest => plain flow depth (p.down 2) read (gap.addBreak ['\n']) rest
  | c :: rest =>
    if isSpace c then
      if gap.hasBreak && p.column < depth && c == '\t' then none
      else plain flow depth (p.past [c]) read (gap.addBlank c) rest
    else
      match breakText? c with
      | some b => plain flow depth (p.down c.utf8Size) read (gap.addBreak b) rest
      | none =>
        if (gap.hasBreak && ((!flow && p.column < depth) || atMark p (c :: rest))) ||
            (gap.isSome && c == '#') then
          some ⟨read.reverse, gap.hasBreak, p, c :: rest⟩
        else if flow && c == ':' && rest.head?.any (fun d => isFlowMark d || d == '?') then none
        else if endsPlain flow c rest then some ⟨read.reverse, gap.hasBreak, p, c :: rest⟩
        else plain flow depth (p.past [c]) (c :: gap.text.reverse ++ read) .none rest

/-! ## Scalars in quotes -/

/-- The character that a letter behind a backslash stands for. -/
def escapes : List (Char × Char) :=
  [('0', '\x00'), ('a', '\x07'), ('b', '\x08'), ('t', '\t'), ('\t', '\t'), ('n', '\n'),
    ('v', '\x0b'), ('f', '\x0c'), ('r', '\r'), ('e', '\x1b'), (' ', ' '), ('"', '"'), ('/', '/'),
    ('\\', '\\'), ('N', '\u0085'), ('_', '\u00a0'), ('L', '\u2028'), ('P', '\u2029')]

/-- The number of digits behind a letter that announces the number of a character. -/
def escapeDigits? (c : Char) : Option Nat :=
  if c = 'x' then some 2 else if c = 'u' then some 4 else if c = 'U' then some 8 else none

def charOf? (n : Nat) : Option Char := if n.isValidChar then some (Char.ofNat n) else none

/-- Reads a scalar behind its opening quote. `read` is what was read, the last character first. -/
def quoted (double : Bool) (p : Place) (read : Text) (gap : Gap) (t : Text) : Option Scanned :=
  match t with
  | [] => none
  | '\r' :: '\n' :: rest => quoted double (p.down 2) read (gap.addBreak ['\n']) rest
  | c :: rest =>
    if isSpace c then quoted double (p.past [c]) read (gap.addBlank c) rest
    else
      match breakText? c with
      | some b => quoted double (p.down c.utf8Size) read (gap.addBreak b) rest
      | none =>
        let read := gap.text.reverse ++ read
        if atMark p (c :: rest) then none
        else if double then
          if c = '"' then some ⟨read.reverse, false, p.past [c], rest⟩
          else if c = '\\' then
            match rest with
            | [] => none
            | '\r' :: '\n' :: rest => quoted double (p.down 3) read (.breaks [] []) rest
            | e :: rest =>
              if isBreak e then quoted double (p.down (1 + e.utf8Size)) read (.breaks [] []) rest
              else
                match escapeDigits? e with
                | some n =>
                  if rest.length < n then none
                  else
                    match (Decimal.digits? 16 (rest.take n)).bind charOf? with
                    | some d =>
                      quoted double (p.past (c :: e :: rest.take n)) (d :: read) .none (rest.drop n)
                    | none => none
                | none =>
                  match escapes.lookup e with
                  | some d => quoted double (p.past [c, e]) (d :: read) .none rest
                  | none => none
          else quoted double (p.past [c]) (c :: read) .none rest
        else if c = '\'' then
          match rest with
          | '\'' :: rest => quoted double (p.past ['\'', '\'']) ('\'' :: read) .none rest
          | _ => some ⟨read.reverse, false, p.past [c], rest⟩
        else quoted double (p.past [c]) (c :: read) .none rest
termination_by t.length
decreasing_by all_goals grind

/-! ## Scalars in blocks of lines -/

/-- What becomes of the line breaks at the end of a block. -/
inductive Chomp where
  /-- one of them stays -/
  | clip
  /-- none of them stays -/
  | strip
  /-- all of them stay -/
  | keep
  deriving DecidableEq, Repr

def chompOf? (c : Char) : Option Chomp :=
  if c = '-' then some .strip else if c = '+' then some .keep else none

/-- The value of a digit that gives an indentation. Zero does not. -/
def indentDigit? (c : Char) : Option Nat :=
  if '1' ≤ c ∧ c ≤ '9' then some (c.toNat - 48) else none

/-- The marks behind the head of a block: how it ends and how far it is indented, in either order,
and what stands behind them. -/
def blockMarks (t : Text) : Chomp × Option Nat × Text :=
  match t with
  | [] => (.clip, none, [])
  | a :: rest =>
    match chompOf? a with
    | some chomp =>
      match rest with
      | b :: more =>
        match indentDigit? b with
        | some n => (chomp, some n, more)
        | none => (chomp, none, rest)
      | [] => (chomp, none, [])
    | none =>
      match indentDigit? a with
      | some n =>
        match rest with
        | b :: more =>
          match chompOf? b with
          | some chomp => (chomp, some n, more)
          | none => (.clip, some n, rest)
        | [] => (.clip, some n, [])
      | none => (.clip, none, t)

/-- Skips the blanks that indent lines, and empty lines; `breaks` are their breaks. The result has
the greatest indentation seen. -/
def skipIndent (indent : Option Nat) (widest : Nat) (breaks : Text) (p : Place) :
    Text → Option (Text × Nat × Place × Text)
  | [] => some (breaks, max widest p.column, p, [])
  | '\r' :: '\n' :: rest =>
    skipIndent indent (max widest p.column) (breaks ++ ['\n']) (p.down 2) rest
  | c :: rest =>
    let inside := indent.all (p.column < ·)
    if c = ' ' ∧ inside then skipIndent indent widest breaks (p.past [c]) rest
    else if c = '\t' ∧ inside then none
    else
      match breakText? c with
      | some b => skipIndent indent (max widest p.column) (breaks ++ b) (p.down c.utf8Size) rest
      | none => some (breaks, max widest p.column, p, c :: rest)

/-- Reads the lines of a block. `read` is what was read, the last character first; `last` is the
break of the line in front and `breaks` are those of empty lines behind it; `spaced` tells that the
line in front begins with a blank. -/
def blockLines (folded : Bool) (chomp : Chomp) (indent : Nat) :
    Nat → Place → Text → Text → Text → Bool → Text → Option Scanned
  | 0, _, _, _, _, _, _ => none
  | fuel + 1, p, read, last, breaks, spaced, t =>
    if p.column = indent ∧ t ≠ [] then
      let spacedHere := t.head?.any isSpace
      let between :=
        if folded ∧ last = ['\n'] ∧ !spaced ∧ !spacedHere then
          (if breaks = [] then [' '] else breaks)
        else last ++ breaks
      let line := t.takeWhile fun c => !isBreak c
      let p := p.past line
      let (last, p, rest) :=
        match takeBreak? (t.drop line.length) with
        | some (b, n, rest) => (b, p.down n, rest)
        | none => ([], p, [])
      match skipIndent (some indent) 0 [] p rest with
      | none => none
      | some (breaks, _, p, rest) =>
        blockLines folded chomp indent fuel p ((between ++ line).reverse ++ read) last breaks
          spacedHere rest
    else
      let ending := match chomp with
        | .strip => []
        | .clip => last
        | .keep => last ++ breaks
      some ⟨read.reverse ++ ending, false, p, t⟩

/-- Reads a block behind its head. The lines of the surrounding block are indented by less than
`depth`. -/
def block (folded : Bool) (depth : Nat) (p : Place) (t : Text) : Option Scanned :=
  let (chomp, increment, rest) := blockMarks t
  match leaveLine? (p.past (t.take (t.length - rest.length))) rest with
  | none => none
  | some (p, rest) =>
    let indent := increment.map fun n => depth - 1 + n
    match skipIndent indent 0 [] p rest with
    | none => none
    | some (breaks, widest, p, rest) =>
      let indent := indent.getD (max (max widest depth) 1)
      blockLines folded chomp indent (rest.length + 1) p [] [] breaks false rest

end Yaml

end DocComments
