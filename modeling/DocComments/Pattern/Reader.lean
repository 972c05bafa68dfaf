import DocComments.Decimal.Read
import DocComments.Pattern.Network

/-!
# Reading patterns

The written form of patterns: literals, `.`, classes, groups, alternatives, repetitions, anchors
and the flags `i`, `m`, `s` and `U`. Reading takes the text from the left and gives up at the first
fault. `Pattern.read?` gives the meaning of a text, and `Pattern.isValid` asks besides that the
networks of the pattern are not too large.
-/

set_option autoImplicit false

namespace DocComments

namespace Pattern

structure Flags where
  /-- letters match in any case -/
  anyCase : Bool := false
  /-- the anchors of a text hold at every line -/
  multiLine : Bool := false
  /-- a dot matches line feeds as well -/
  dotAll : Bool := false
  /-- repetitions are lazy unless a question mark is behind them -/
  lazyFirst : Bool := false
  deriving DecidableEq, Repr

/-! ## Numbers -/

/-- The character of a code point, surrogates excluded. -/
def charOf? (n : Nat) : Option Char :=
  if h : n.isValidChar then some (Char.ofNatAux n h) else none

/-- A code point in hexadecimal, either `size` digits or any number of digits in braces. -/
def readHex (size : Nat) : Text → Option (Char × Text)
  | '{' :: rest =>
    match rest.dropWhile (· != '}') with
    | '}' :: after => do
      let n ← Decimal.digits? 16 (rest.takeWhile (· != '}'))
      return (← charOf? n, after)
    | _ => none
  | cs =>
    if cs.length < size then none
    else do
      let n ← Decimal.digits? 16 (cs.take size)
      return (← charOf? n, cs.drop size)

/-- A decimal number with blanks around it, below 2^32. -/
def readCount (cs : Text) : Option (Option Nat × Text) :=
  let cs := Text.trimStart cs
  let digits := cs.takeWhile Char.isDigit
  let rest := Text.trimStart (cs.dropWhile Char.isDigit)
  match Decimal.digits? 10 digits with
  | none => some (none, rest)
  | some n => if n < 4294967296 then some (some n, rest) else none

def readCounts (cs : Text) : Option ((Nat × Option Nat) × Text) := do
  if cs.isEmpty then none
  else
    let (least, rest) ← readCount cs
    match rest with
    | '}' :: rest => let n ← least; return ((n, some n), rest)
    | ',' :: '}' :: rest => return ((← least, none), rest)
    | ',' :: rest =>
      let least ← least
      let (most, rest) ← readCount rest
      let most ← most
      match rest with
      | '}' :: rest => if least ≤ most then return ((least, some most), rest) else none
      | _ => none
    | _ => none

/-! ## Escapes -/

inductive Escape where
  | literal (c : Char)
  | cls (c : CharClass)
  | anchor (a : Anchor)

/-- The anchors written as a word in braces behind `\b`. -/
def bracedEdges : List (String × Anchor) :=
  [("start\x7d", .wordStart), ("end\x7d", .wordEnd), ("start-half\x7d", .noWordBefore),
    ("end-half\x7d", .noWordAfter)]

def readEscape : Text → Option (Escape × Text)
  | [] => none
  | c :: rest =>
    match c with
    | 'd' => some (.cls .digit, rest)
    | 'D' => some (.cls (.complement .digit), rest)
    | 's' => some (.cls .blank, rest)
    | 'S' => some (.cls (.complement .blank), rest)
    | 'w' => some (.cls .word, rest)
    | 'W' => some (.cls (.complement .word), rest)
    | 'a' => some (.literal '\x07', rest)
    | 'f' => some (.literal '\x0c', rest)
    | 't' => some (.literal '\t', rest)
    | 'n' => some (.literal '\n', rest)
    | 'r' => some (.literal '\r', rest)
    | 'v' => some (.literal '\x0b', rest)
    | 'A' => some (.anchor .textStart, rest)
    | 'z' => some (.anchor .textEnd, rest)
    | 'b' =>
      match rest with
      | '{' :: inside =>
        match bracedEdges.find? fun (word, _) => word.toList.isPrefixOf inside with
        | some (word, edge) => some (.anchor edge, inside.drop word.length)
        | none =>
          -- what looks like a word is an unknown one; anything else may be a repetition
          if inside.head?.any fun d => d.isAlpha || d == '-' then none
          else some (.anchor .wordEdge, rest)
      | _ => some (.anchor .wordEdge, rest)
    | 'B' => some (.anchor .noWordEdge, rest)
    | '<' => some (.anchor .wordStart, rest)
    | '>' => some (.anchor .wordEnd, rest)
    | 'x' => (readHex 2 rest).map fun (d, after) => (.literal d, after)
    | 'u' => (readHex 4 rest).map fun (d, after) => (.literal d, after)
    | 'U' => (readHex 8 rest).map fun (d, after) => (.literal d, after)
    | c => if c.toNat < 128 && !c.isAlphanum then some (.literal c, rest) else none

/-! ## Classes -/

inductive ClassJoin where
  | intersection
  | difference
  | symmetricDifference

def ClassJoin.apply (a b : CharClass) : ClassJoin → CharClass
  | intersection => .both a b
  | difference => .both a (.complement b)
  | symmetricDifference => .either (.both a (.complement b)) (.both b (.complement a))

/-- The classes with a name in `[:` and `:]`. -/
def asciiClasses : List (String × List (Nat × Nat)) :=
  [("alnum", [(48, 57), (65, 90), (97, 122)]), ("alpha", [(65, 90), (97, 122)]),
    ("ascii", [(0, 127)]), ("blank", [(9, 9), (32, 32)]), ("cntrl", [(0, 31), (127, 127)]),
    ("digit", [(48, 57)]), ("graph", [(33, 126)]), ("lower", [(97, 122)]),
    ("print", [(32, 126)]), ("punct", [(33, 47), (58, 64), (91, 96), (123, 126)]),
    ("space", [(9, 13), (32, 32)]), ("upper", [(65, 90)]),
    ("word", [(48, 57), (65, 90), (95, 95), (97, 122)]), ("xdigit", [(48, 57), (65, 70), (97, 102)])]

def ofRanges (ranges : List (Nat × Nat)) : CharClass :=
  ranges.foldr (fun (first, last) rest => .either (.range first last) rest) .empty

def withFlags (flags : Flags) (cls : CharClass) : CharClass :=
  if flags.anyCase then .anyCase cls else cls

/-- The class or what is not in it. Letter case is settled first. -/
def withSign (flags : Flags) (negated : Bool) (cls : CharClass) : CharClass :=
  if negated then .complement (withFlags flags cls) else withFlags flags cls

def readAsciiClass (flags : Flags) : Text → Option (CharClass × Text)
  | ':' :: rest =>
    let negated := rest.head? == some '^'
    let inside := if negated then rest.drop 1 else rest
    match inside.dropWhile (· != ':') with
    | ':' :: ']' :: after =>
      (asciiClasses.lookup (String.ofList (inside.takeWhile (· != ':')))).map fun ranges =>
        (withSign flags negated (ofRanges ranges), after)
    | _ => none
  | _ => none

def readClassItem : Text → Option (Escape × Text)
  | [] => none
  | '\\' :: rest =>
    match readEscape rest with
    | some (.anchor _, _) => none
    | other => other
  | c :: rest => some (.literal c, rest)

def readClassRange (cs : Text) : Option (CharClass × Text) := do
  let (item, rest) ← readClassItem cs
  match rest with
  | [] => none
  | '-' :: ']' :: _ | '-' :: '-' :: _ => finish item rest
  | '-' :: after =>
    let (other, rest) ← readClassItem after
    match item, other with
    | .literal a, .literal b => if a ≤ b then some (.range a.toNat b.toNat, rest) else none
    | _, _ => none
  | _ => finish item rest
where
  finish (item : Escape) (rest : Text) : Option (CharClass × Text) :=
    match item with
    | .literal c => some (.single c, rest)
    | .cls c => some (c, rest)
    | .anchor _ => none

/-- What has been read inside brackets: the class that it makes up, the number of its pieces and how
deeply the deepest of them is nested. -/
structure Members where
  cls : CharClass
  pieces : Nat
  deepest : Nat

namespace Members

def none : Members := ⟨.empty, 0, 0⟩

def add (m : Members) (cls : CharClass) (depth : Nat) : Members :=
  ⟨.either m.cls cls, m.pieces + 1, max m.deepest depth⟩

/-- How deeply the pieces are nested. Several pieces are a level of their own. -/
def depth (m : Members) : Nat := if m.pieces < 2 then m.deepest else m.deepest + 1

end Members

/-- A class in front of an operator, how deeply it is nested, and the operator. -/
structure Operand where
  cls : CharClass
  depth : Nat
  join : ClassJoin

/-- The class of some members and of what stands in front of them, and how deeply it is nested. -/
def joined (flags : Flags) (left : Option Operand) (members : Members) : CharClass × Nat :=
  match left with
  | none => (members.cls, members.depth)
  | some a =>
    (a.join.apply (withFlags flags a.cls) (withFlags flags members.cls),
      max a.depth members.depth + 1)

def operand (flags : Flags) (left : Option Operand) (members : Members) (join : ClassJoin) :
    Operand :=
  let (cls, depth) := joined flags left members
  ⟨cls, depth, join⟩

/-- Literal dashes directly behind the opening of a class. -/
def readDashes (members : Members) : Text → Members × Text
  | '-' :: rest => readDashes (members.add (.single '-') 0) rest
  | cs => (members, cs)

/-- The opening of a class, read behind its bracket: whether it is negated, its first members, and
the rest. -/
def readClassOpening (cs : Text) : Bool × Members × Text :=
  let (negated, cs) := match cs with
    | '^' :: rest => (true, rest)
    | cs => (false, cs)
  match readDashes .none cs with
  | (⟨cls, 0, deepest⟩, ']' :: rest) => (negated, (Members.mk cls 0 deepest).add (.single ']') 0, rest)
  | (members, cs) => (negated, members, cs)

/-- Members of a class up to its closing bracket: the class and how deeply it is nested. `left` is
what an operator waits to be joined with, `members` what has been read since. -/
def readMembers : Nat → Flags → Option Operand → Members → Text → Option ((CharClass × Nat) × Text)
  | 0, _, _, _, _ => none
  | _ + 1, _, _, _, [] => none
  | fuel + 1, flags, left, members, '[' :: rest =>
    match readAsciiClass flags rest with
    | some (cls, after) => readMembers fuel flags left (members.add cls 0) after
    | none =>
      let (negated, first, inside) := readClassOpening rest
      match readMembers fuel flags none first inside with
      | some ((cls, depth), after) =>
        readMembers fuel flags left (members.add (withSign flags negated cls) (depth + 1)) after
      | none => none
  | _ + 1, flags, left, members, ']' :: rest => some (joined flags left members, rest)
  | fuel + 1, flags, left, members, '&' :: '&' :: rest =>
    readMembers fuel flags (some (operand flags left members .intersection)) .none rest
  | fuel + 1, flags, left, members, '-' :: '-' :: rest =>
    readMembers fuel flags (some (operand flags left members .difference)) .none rest
  | fuel + 1, flags, left, members, '~' :: '~' :: rest =>
    readMembers fuel flags (some (operand flags left members .symmetricDifference)) .none rest
  | fuel + 1, flags, left, members, cs =>
    match readClassRange cs with
    | some (cls, rest) => readMembers fuel flags left (members.add cls 0) rest
    | none => none

def readClass (flags : Flags) (cs : Text) : Option (Expr × Text) :=
  let (negated, first, inside) := readClassOpening cs
  (readMembers (inside.length + 1) flags none first inside).map fun ((cls, depth), rest) =>
    (.one (withSign flags negated cls) (depth + 1), rest)

/-! ## Groups -/

inductive Opening where
  /-- new flags for the rest of the group -/
  | flags (f : Flags)
  /-- a group with flags of its own, which may be one whose match is remembered -/
  | group (f : Flags) (isRemembered : Bool) (names : List Text)

/-- Sets one flag. The flag for Unicode is known, but cannot be taken away. -/
def setFlag (value : Bool) (flags : Flags) : Char → Option Flags
  | 'i' => some { flags with anyCase := value }
  | 'm' => some { flags with multiLine := value }
  | 's' => some { flags with dotAll := value }
  | 'U' => some { flags with lazyFirst := value }
  | 'u' => if value then some flags else none
  | _ => none

/-- Flags up to the colon or parenthesis behind them. `seen` are the flags set so far, and
`negated` says that a minus has been read. -/
def readFlags (flags : Flags) (seen : Text) (negated : Bool) : Text → Option (Flags × Char × Text)
  | [] => none
  | '-' :: rest =>
    match rest with
    | ':' :: _ | ')' :: _ => none
    | _ => if negated then none else readFlags flags seen true rest
  | ')' :: rest => if seen.isEmpty then none else some (flags, ')', rest)
  | ':' :: rest => some (flags, ':', rest)
  | c :: rest =>
    if seen.contains c then none
    else
      match setFlag (!negated) flags c with
      | some flags => readFlags flags (c :: seen) negated rest
      | none => none

def readGroupName (cs : Text) : Option (Text × Text) :=
  match cs.takeWhile (· != '>'), cs.dropWhile (· != '>') with
  | first :: more, _ :: rest =>
    if Property.isNameStart first && more.all Property.isNamePart then some (first :: more, rest)
    else none
  | _, _ => none

def readOpening (flags : Flags) (names : List Text) : Text → Option (Opening × Text)
  | '?' :: '=' :: _ | '?' :: '!' :: _ | '?' :: '<' :: '=' :: _ | '?' :: '<' :: '!' :: _ => none
  | '?' :: 'P' :: '<' :: rest | '?' :: '<' :: rest => do
    let (name, rest) ← readGroupName rest
    if names.contains name then none else some (.group flags true (name :: names), rest)
  | '?' :: rest => do
    let (flags, stop, rest) ← readFlags flags [] false rest
    some (if stop == ')' then .flags flags else .group flags false names, rest)
  | rest => some (.group flags true names, rest)

/-! ## Whole patterns -/

def literal (flags : Flags) (c : Char) : Expr := .one (withFlags flags (.single c)) 0

def ofEscape (flags : Flags) : Escape → Expr
  | .literal c => literal flags c
  | .cls c => .one c 0
  | .anchor a => .here a

def dot (flags : Flags) : Expr :=
  .one (if flags.dotAll then .any else .complement (.single '\n')) 0

/-- The pieces of a branch read so far, the latest first. -/
abbrev Pieces := List Expr

def ofPieces (pieces : Pieces) : Expr := .concat pieces.reverse

/-- The inside of a group: its finished branches, the latest first, and the last branch. -/
def ofBranches (finished : List Expr) (pieces : Pieces) : Expr :=
  .either (ofPieces pieces :: finished).reverse

/-- Puts a repetition around the latest piece and takes the question mark along that may follow. A
change of flags cannot be repeated. -/
def repeatLast (flags : Flags) (least : Nat) (most : Option Nat) :
    Pieces → Text → Option (Pieces × Text)
  | [], _ | .flags :: _, _ => none
  | e :: pieces, '?' :: rest => some (.repeated e least most (!flags.lazyFirst) :: pieces, rest)
  | e :: pieces, rest => some (.repeated e least most flags.lazyFirst :: pieces, rest)

/-- Reads up to the end of the group: what is inside, the group names used so far, and the rest,
which is empty or begins with the closing parenthesis. -/
def readGroup : Nat → Flags → List Text → List Expr → Pieces → Text →
    Option (Expr × List Text × Text)
  | 0, _, _, _, _, _ => none
  | _ + 1, _, names, finished, pieces, [] => some (ofBranches finished pieces, names, [])
  | fuel + 1, flags, names, finished, pieces, c :: rest =>
    match c with
    | ')' => some (ofBranches finished pieces, names, c :: rest)
    | '|' => readGroup fuel flags names (ofPieces pieces :: finished) [] rest
    | '(' =>
      match readOpening flags names rest with
      | some (.flags flags, rest) => readGroup fuel flags names finished (.flags :: pieces) rest
      | some (.group inner isRemembered names, rest) =>
        match readGroup fuel inner names [] [] rest with
        | some (e, names, ')' :: rest) =>
          readGroup fuel flags names finished (.group e isRemembered :: pieces) rest
        | _ => none
      | none => none
    | '*' =>
      match repeatLast flags 0 none pieces rest with
      | some (pieces, rest) => readGroup fuel flags names finished pieces rest
      | none => none
    | '+' =>
      match repeatLast flags 1 none pieces rest with
      | some (pieces, rest) => readGroup fuel flags names finished pieces rest
      | none => none
    | '?' =>
      match repeatLast flags 0 (some 1) pieces rest with
      | some (pieces, rest) => readGroup fuel flags names finished pieces rest
      | none => none
    | '{' =>
      match (readCounts rest).bind fun ((least, most), rest) =>
        repeatLast flags least most pieces rest with
      | some (pieces, rest) => readGroup fuel flags names finished pieces rest
      | none => none
    | '[' =>
      match readClass flags rest with
      | some (e, rest) => readGroup fuel flags names finished (e :: pieces) rest
      | none => none
    | '.' => readGroup fuel flags names finished (dot flags :: pieces) rest
    | '^' =>
      let anchor := if flags.multiLine then Anchor.lineStart else .textStart
      readGroup fuel flags names finished (.here anchor :: pieces) rest
    | '$' =>
      let anchor := if flags.multiLine then Anchor.lineEnd else .textEnd
      readGroup fuel flags names finished (.here anchor :: pieces) rest
    | '\\' =>
      match readEscape rest with
      | some (escape, rest) =>
        readGroup fuel flags names finished (ofEscape flags escape :: pieces) rest
      | none => none
    | c => readGroup fuel flags names finished (literal flags c :: pieces) rest

/-- The tree of a text. Every step takes a character at least, so that the fuel is never used up. -/
def readExpr? (t : Text) : Option Expr :=
  match readGroup (t.length + 1) {} [] [] [] t with
  | some (e, _, []) => if e.isShallow then some e else none
  | _ => none

def read? (t : Text) : Option Pattern := (readExpr? t).map Expr.toPattern

/-- The text writes a pattern whose networks are not too large. -/
def isValid (t : Text) : Bool := (readExpr? t).any fun e => (Normal.ofExpr e).fits

/-- The written pattern matches somewhere in the text; an invalid one matches nowhere. -/
def searchWritten (written t : Text) : Bool := (read? written).any (search · t)

end Pattern

end DocComments
