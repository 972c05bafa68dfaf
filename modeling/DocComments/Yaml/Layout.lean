import DocComments.Yaml.Scalar
import DocComments.Yaml.Tag

/-!
# The layout of YAML

Cuts a document into tokens. Indentation becomes tokens for the start and the end of sequences and
mappings. A mapping shows only at the colon behind its first key, so every place where a key could
begin is kept until its line ends, and the tokens in front of the key are put in afterwards.
-/

set_option autoImplicit false

namespace DocComments

namespace Yaml

/-- A place where a key may have begun. -/
structure Candidate where
  /-- the indentation asks for a key here -/
  required : Bool
  /-- the number of tokens in front of it -/
  tokens : Nat
  place : Place

/-- What has been cut, and what it means for what follows. -/
structure Layout where
  place : Place
  rest : Text
  /-- the tokens, the last one first -/
  tokens : List Token
  /-- how many brackets and braces are open -/
  flow : Nat
  /-- one more than the column of the innermost block, or zero outside of blocks -/
  depth : Nat
  /-- the same of the blocks around it, the innermost first -/
  outer : List Nat
  /-- a key may begin here -/
  keyAllowed : Bool
  /-- the candidates, one for each open bracket and one outside, the innermost first -/
  candidates : List (Option Candidate)

namespace Layout

def start (t : Text) : Layout := ⟨⟨0, 0, 0⟩, t, [], 0, 0, [], true, [none]⟩

def emit (s : Layout) (t : Token) : Layout := { s with tokens := t :: s.tokens }

def insert (s : Layout) (n : Nat) (t : Token) : Layout :=
  let back := s.tokens.length - n
  { s with tokens := s.tokens.take back ++ t :: s.tokens.drop back }

def skip (s : Layout) (n : Nat) : Layout :=
  { s with place := s.place.past (s.rest.take n), rest := s.rest.drop n }

def behind (s : Layout) (r : Scanned) : Layout := { s with place := r.place, rest := r.rest }

/-! ## Keys that may have begun -/

/-- Forgets the innermost candidate. A required one must not be forgotten. -/
def forget (s : Layout) : Option Layout :=
  match s.candidates with
  | some c :: more => if c.required then none else some { s with candidates := none :: more }
  | _ => some s

def remember (s : Layout) : Option Layout :=
  if s.keyAllowed then do
    let s ← s.forget
    let required := s.flow == 0 && s.depth == s.place.column + 1
    let here := some ⟨required, s.tokens.length, s.place⟩
    return { s with candidates := here :: s.candidates.tail }
  else some s

/-- How many bytes a key may reach. -/
def keyReach : Nat := 1024

/-- The candidate is still one: a key ends on its line and is not too long. -/
def isFresh (s : Layout) (c : Candidate) : Bool :=
  s.place.line ≤ c.place.line && s.place.index ≤ c.place.index + keyReach

def forgetStale (s : Layout) : Option Layout :=
  if s.candidates.any fun c => c.any fun c => c.required && !s.isFresh c then none
  else some { s with candidates := s.candidates.map fun c => c.filter s.isFresh }

/-! ## Blocks -/

/-- Opens a block if the column is further right than the innermost one. -/
def indentTo (s : Layout) (column : Nat) (t : Token) (tokens : Nat) : Layout :=
  if s.flow = 0 ∧ s.depth < column + 1 then
    { s.insert tokens t with depth := column + 1, outer := s.depth :: s.outer }
  else s

/-- Closes the blocks that are deeper than `depth`. -/
def closeTo (depth current : Nat) (tokens : List Token) : List Nat → Nat × List Nat × List Token
  | [] => (current, [], tokens)
  | d :: outer =>
    if depth < current then closeTo depth d (.blockEnd :: tokens) outer
    else (current, d :: outer, tokens)

/-- Closes the blocks that are deeper than `depth`, outside of brackets. -/
def dedentTo (s : Layout) (depth : Nat) : Layout :=
  if s.flow = 0 then
    let (depth, outer, tokens) := closeTo depth s.depth s.tokens s.outer
    { s with depth := depth, outer := outer, tokens := tokens }
  else s

/-! ## Blanks and comments -/

/-- Skips blanks, comments and line breaks. A line break outside of brackets allows a key behind it,
and where a key is allowed a tab is not skipped. A byte order mark is skipped at the start of a
line. -/
def skipBlanks (flow comment : Bool) (keyAllowed : Bool) (p : Place) : Text → Bool × Place × Text
  | [] => (keyAllowed, p, [])
  | '\r' :: '\n' :: rest => skipBlanks flow false (!flow || keyAllowed) (p.down 2) rest
  | c :: rest =>
    if isBreak c then skipBlanks flow false (!flow || keyAllowed) (p.down c.utf8Size) rest
    else if comment || c == '#' then skipBlanks flow true keyAllowed (p.past [c]) rest
    else if c == ' ' || (c == '\t' && (flow || !keyAllowed)) ||
        (c == byteOrderMark && p.column == 0) then
      skipBlanks flow false keyAllowed (p.past [c]) rest
    else (keyAllowed, p, c :: rest)

def advance (s : Layout) : Layout :=
  let (keyAllowed, place, rest) := skipBlanks (s.flow != 0) false s.keyAllowed s.place s.rest
  { s with keyAllowed := keyAllowed, place := place, rest := rest }

/-! ## Tokens -/

def openFlow (s : Layout) (t : Token) : Option Layout := do
  let s ← s.remember
  return { (s.skip 1).emit t with
    flow := s.flow + 1, keyAllowed := true, candidates := none :: s.candidates }

def closeFlow (s : Layout) (t : Token) : Option Layout := do
  let s ← s.forget
  let candidates := if s.flow = 0 then s.candidates else s.candidates.tail
  return { (s.skip 1).emit t with
    flow := s.flow - 1, keyAllowed := false, candidates := candidates }

def comma (s : Layout) : Option Layout := do
  let s ← s.forget
  return { (s.skip 1).emit .comma with keyAllowed := true }

def item (s : Layout) : Option Layout := do
  if s.flow = 0 ∧ !s.keyAllowed then none
  else
    let s ← (s.indentTo s.place.column .blockSequence s.tokens.length).forget
    return { (s.skip 1).emit .item with keyAllowed := true }

def explicitKey (s : Layout) : Option Layout := do
  if s.flow = 0 ∧ !s.keyAllowed then none
  else
    let s ← (s.indentTo s.place.column .blockMapping s.tokens.length).forget
    return { (s.skip 1).emit .key with keyAllowed := s.flow == 0 }

def value (s : Layout) : Option Layout :=
  match s.candidates with
  | some c :: more =>
    -- the key began at the candidate, and so does the mapping if it is further right
    let s := (s.insert c.tokens .key).indentTo c.place.column .blockMapping c.tokens
    some { (s.skip 1).emit .value with keyAllowed := false, candidates := none :: more }
  | _ =>
    if s.flow = 0 ∧ !s.keyAllowed then none
    else
      let s := s.indentTo s.place.column .blockMapping s.tokens.length
      some { (s.skip 1).emit .value with keyAllowed := s.flow == 0 }

def anchorName? (rest : Text) : Option Text :=
  let name := rest.takeWhile isNameChar
  let more := rest.drop name.length
  if name ≠ [] ∧ (endsWord more ∨ more.head?.any (fun c => "?:,]\x7d%@\x60".toList.contains c)) then
    some name
  else none

/-- An anchor, or the use of one. -/
def named (s : Layout) (t : Text → Token) : Option Layout := do
  let s ← s.remember
  let name ← anchorName? (s.rest.drop 1)
  return { (s.skip (name.length + 1)).emit (t name) with keyAllowed := false }

def tag (s : Layout) : Option Layout := do
  let s ← s.remember
  let (written, more) ← writtenTag? (s.rest.drop 1)
  if endsWord more || (s.flow != 0 && more.head? == some ',') then
    return { (s.skip (s.rest.length - more.length)).emit (.tag written) with keyAllowed := false }
  else none

def quotedScalar (s : Layout) (double : Bool) : Option Layout := do
  let s ← s.remember
  let r ← quoted double (s.place.past (s.rest.take 1)) [] .none (s.rest.drop 1)
  return { (s.behind r).emit (.scalar .quoted r.text) with keyAllowed := false }

def blockScalar (s : Layout) (folded : Bool) : Option Layout := do
  let s ← s.forget
  let r ← block folded s.depth (s.place.past (s.rest.take 1)) (s.rest.drop 1)
  let style := if folded then Style.folded else .literal
  return { (s.behind r).emit (.scalar style r.text) with keyAllowed := true }

def plainScalar (s : Layout) : Option Layout := do
  let s ← s.remember
  let r ← plain (s.flow != 0) s.depth s.place [] .none s.rest
  return { (s.behind r).emit (.scalar .plain r.text) with keyAllowed := r.broken }

def directive (s : Layout) : Option Layout := do
  let s ← (s.dedentTo 0).forget
  let (token, more) ← directive? (s.rest.drop 1)
  let s := s.skip (s.rest.length - more.length)
  let (place, rest) ← leaveLine? s.place s.rest
  return { s.emit token with place := place, rest := rest, keyAllowed := false }

def mark (s : Layout) (t : Token) : Option Layout := do
  let s ← (s.dedentTo 0).forget
  return { (s.skip 3).emit t with keyAllowed := false }

/-- The characters that begin something else than a scalar without quotes. -/
def indicators : Text := "-?:,[]\x7b\x7d#&*!|>'\"%@\x60".toList

def startsPlain (flow : Bool) (c : Char) (rest : Text) : Bool :=
  !(isSpace c || isBreak c || indicators.contains c) || (c == '-' && !rest.head?.any isSpace) ||
    (!flow && (c == '?' || c == ':') && !endsWord rest)

def token (s : Layout) (c : Char) (rest : Text) : Option Layout :=
  let flow := s.flow != 0
  if s.place.column = 0 ∧ c = '%' then s.directive
  else if atMark s.place (c :: rest) then
    s.mark (if c = '-' then .documentStart else .documentEnd)
  else if c = '[' then s.openFlow .flowSequence
  else if c = '\x7b' then s.openFlow .flowMapping
  else if c = ']' then s.closeFlow .flowSequenceEnd
  else if c = '\x7d' then s.closeFlow .flowMappingEnd
  else if c = ',' then s.comma
  else if c = '-' ∧ endsWord rest then s.item
  else if c = '?' ∧ (flow ∨ endsWord rest) then s.explicitKey
  else if c = ':' ∧ (flow ∨ endsWord rest) then s.value
  else if c = '*' then s.named .reference
  else if c = '&' then s.named .anchor
  else if c = '!' then s.tag
  else if c = '|' ∧ !flow then s.blockScalar false
  else if c = '>' ∧ !flow then s.blockScalar true
  else if c = '\'' then s.quotedScalar false
  else if c = '"' then s.quotedScalar true
  else if startsPlain flow c rest then s.plainScalar
  else none

/-- Cuts the rest while fuel lasts. Every token takes a character at least. -/
def cut : Nat → Layout → Option (List Token)
  | 0, _ => none
  | fuel + 1, s => do
    let s ← s.advance.forgetStale
    let s := s.dedentTo (s.place.column + 1)
    match s.rest with
    | [] =>
      let s ← (s.dedentTo 0).forget
      return s.tokens.reverse
    | c :: rest => cut fuel (← s.token c rest)

end Layout

def tokens? (t : Text) : Option (List Token) :=
  if t.all isAllowed then Layout.cut (t.length + 1) (.start t) else none

end Yaml

end DocComments
