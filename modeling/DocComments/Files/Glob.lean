import DocComments.Pattern.Expr
import DocComments.Files.Path
import DocComments.Text.Utf8

/-!
# Globs

A glob describes paths: `?` stands for a byte, `*` for any number of them, `**` between slashes for
any number of directories, brackets for a class of bytes and braces for a choice. It is read into
pieces, which are put together into a pattern over the bytes of a path. The pattern may not be
nested too deeply.
-/

set_option autoImplicit false

namespace DocComments

inductive GlobError where
  | unclosedClass
  | unclosedGroup
  | unopenedGroup
  | badRange (first last : Char)
  | danglingEscape
  /-- the pattern of the glob is nested too deeply -/
  | tooDeep
  deriving DecidableEq, Repr

def GlobError.message : GlobError → String
  | unclosedClass => "unclosed character class; missing ']'"
  | unclosedGroup =>
    "unclosed alternate group; missing '\x7d' (maybe escape '\x7b' with '[\x7b]'?)"
  | unopenedGroup =>
    "unopened alternate group; missing '\x7b' (maybe escape '\x7d' with '[\x7d]'?)"
  | badRange first last => "invalid range; '" ++ first.toString ++ "' > '" ++ last.toString ++ "'"
  | danglingEscape => "dangling '\\'"
  | tooDeep => "nested too deeply"

inductive GlobPiece where
  /-- the character itself -/
  | literal (c : Char)
  /-- one byte -/
  | any
  /-- any number of bytes -/
  | star
  /-- nothing, or directories in front -/
  | leading
  /-- a slash and everything behind it -/
  | trailing
  /-- a slash, or directories between two slashes -/
  | between
  /-- a byte of the ranges, or one that is in none of them -/
  | cls (negated : Bool) (ranges : List (Char × Char))
  /-- one of the branches -/
  | group (branches : List (List GlobPiece))

namespace Glob

open Pattern (Expr)

/-! ## Reading -/

structure Reading where
  /-- the pieces of the branch that is being read, the last one first -/
  current : List GlobPiece
  /-- for each open group, the innermost first: the pieces in front of it, the last one first, and
  the branches that are complete -/
  groups : List (List GlobPiece × List (List GlobPiece))

namespace Reading

def push (r : Reading) (p : GlobPiece) : Reading := { r with current := p :: r.current }

def openGroup (r : Reading) : Reading := ⟨[], (r.current, []) :: r.groups⟩

/-- Ends a branch. Outside of groups a comma stands for itself. -/
def comma (r : Reading) : Reading :=
  match r.groups with
  | [] => r.push (.literal ',')
  | (front, branches) :: groups => ⟨[], (front, branches ++ [r.current.reverse]) :: groups⟩

def closeGroup (r : Reading) : Except GlobError Reading :=
  match r.groups with
  | [] => .error .unopenedGroup
  | (front, branches) :: groups =>
    .ok ⟨.group (branches ++ [r.current.reverse]) :: front, groups⟩

/-- Puts a piece for directories in the place of the slash in front of it. A piece of that kind
already there stays. -/
def pushDirectories (r : Reading) (p : GlobPiece) : Reading :=
  match r.current with
  | .leading :: _ => r
  | .trailing :: _ => r
  | _ :: current => { r with current := p :: current }
  | [] => r.push p

end Reading

/-- Reads a class behind its bracket. `ranges` are those already read, the last one first; `first`
tells that nothing was read, `waiting` that the last range still lacks its end. -/
def readClass (first waiting : Bool) (ranges : List (Char × Char)) :
    Text → Except GlobError (List (Char × Char) × Text)
  | [] => .error .unclosedClass
  | c :: rest =>
    if c = ']' ∧ first = false then
      .ok ((if waiting then ('-', '-') :: ranges else ranges).reverse, rest)
    else if c = '-' ∧ first = false ∧ waiting = false then readClass false true ranges rest
    else if waiting then
      match ranges with
      | (a, _) :: more =>
        if c < a then .error (.badRange a c) else readClass false false ((a, c) :: more) rest
      | [] => readClass false false [(c, c)] rest
    else readClass false false ((c, c) :: ranges) rest

/-- A class takes characters of the text. -/
theorem length_of_readClass {first waiting : Bool} {ranges result : List (Char × Char)}
    {t rest : Text} (h : readClass first waiting ranges t = .ok (result, rest)) :
    rest.length < t.length := by
  fun_induction readClass first waiting ranges t with
  | case1 => simp at h
  | case2 => simp_all
  | case3 _ _ _ _ _ _ _ ih => simpa using Nat.lt_succ_of_lt (ih h)
  | case4 => simp at h
  | case5 _ _ _ _ _ _ _ _ _ ih => simpa using Nat.lt_succ_of_lt (ih h)
  | case6 _ _ _ _ _ ih => simpa using Nat.lt_succ_of_lt (ih h)
  | case7 _ _ _ _ _ _ _ _ ih => simpa using Nat.lt_succ_of_lt (ih h)

def classSign : Text → Bool × Text
  | '!' :: rest => (true, rest)
  | '^' :: rest => (true, rest)
  | t => (false, t)

theorem length_classSign (t : Text) : (classSign t).2.length ≤ t.length := by
  fun_cases classSign t <;> simp_all

/-- Two stars behind pieces of a branch can stand for directories: behind a slash, or behind a mark
of a group. `before` is the character in front of them. -/
def starsBehindSlash (before : Option Char) (r : Reading) : Bool :=
  before == some '/' || (!r.groups.isEmpty && (before == some ',' || before == some '\x7b'))

/-- Two stars that do not stand for directories. -/
def twoStars (r : Reading) : Reading := (r.push .star).push .star

/-- Reads a glob. `before` is the character in front. -/
def readFrom (before : Option Char) (r : Reading) (t : Text) : Except GlobError Reading :=
  match t with
  | [] => .ok r
  | '?' :: rest => readFrom (some '?') (r.push .any) rest
  | '*' :: '*' :: rest =>
    -- at the start of a branch two stars stand for directories, or for everything
    if r.current.isEmpty then
      match rest with
      | [] => .ok (r.push .leading)
      | '/' :: more => readFrom (some '/') (r.push .leading) more
      | c :: more => readFrom (some '*') (twoStars r) (c :: more)
    else if starsBehindSlash before r then
      match rest with
      | [] => .ok (r.pushDirectories .trailing)
      | '/' :: more => readFrom (some '/') (r.pushDirectories .between) more
      | c :: more =>
        if !r.groups.isEmpty ∧ (c = ',' ∨ c = '\x7d') then
          readFrom (some '*') (r.pushDirectories .trailing) (c :: more)
        else readFrom (some '*') (twoStars r) (c :: more)
    else readFrom (some '*') (twoStars r) rest
  | '*' :: rest => readFrom (some '*') (r.push .star) rest
  | '[' :: rest =>
    let signed := classSign rest
    match h : readClass true false [] signed.2 with
    | .error e => .error e
    | .ok (ranges, more) =>
      have _hlt : more.length < rest.length :=
        Nat.lt_of_lt_of_le (length_of_readClass h) (length_classSign rest)
      readFrom (some ']') (r.push (.cls signed.1 ranges)) more
  | '\x7b' :: rest => readFrom (some '\x7b') r.openGroup rest
  | '\x7d' :: rest =>
    match r.closeGroup with
    | .error e => .error e
    | .ok r => readFrom (some '\x7d') r rest
  | ',' :: rest => readFrom (some ',') r.comma rest
  | '\\' :: [] => .error .danglingEscape
  | '\\' :: c :: rest => readFrom (some c) (r.push (.literal c)) rest
  | c :: rest => readFrom (some c) (r.push (.literal c)) rest
termination_by t.length
decreasing_by all_goals grind

/-! ## Meaning -/

/-- The bytes of a text, each as the character with its number. -/
def byteText (t : Text) : Text :=
  (Utf8.encode t).data.toList.map fun b => Char.ofNat b.toNat

def anyByte : CharClass := .range 0 255

def anyOf (bytes : Text) : CharClass :=
  bytes.foldr (fun b cls => .either (.single b) cls) .empty

/-- The bytes of a range of characters. Between characters of more than one byte it goes from the
last byte of the first to the first byte of the last. -/
def rangeClass (a b : Char) : CharClass :=
  if a = b then anyOf (byteText [a])
  else
    let low := byteText [a]
    let high := byteText [b]
    .either (anyOf (low.dropLast ++ high.tail))
      (.range ((low.getLastD a).toNat) ((high.headD b).toNat))

def rangesClass (ranges : List (Char × Char)) : CharClass :=
  ranges.foldr (fun r cls => .either (rangeClass r.1 r.2) cls) .empty

/-- How many bytes and ranges of bytes a range of characters takes. -/
def rangeCount (a b : Char) : Nat :=
  if a = b then a.utf8Size else a.utf8Size + b.utf8Size - 1

/-- One byte of a class. Several members are a level of their own. -/
def byteIn (negated : Bool) (ranges : List (Char × Char)) : Expr :=
  .one (if negated then .both anyByte (.complement (rangesClass ranges)) else rangesClass ranges)
    (if (ranges.map fun (a, b) => rangeCount a b).foldr (· + ·) 0 < 2 then 1 else 2)

def slash : Expr := .one (.single '/') 0

def anything : Expr := .repeated (.one anyByte 0) 0 none false

/-- A choice, which does not remember what it matched. -/
def choice (es : List Expr) : Expr := .group (.either es) false

mutual

/-- What stands for a piece, one behind the other. A group without a branch that has something to
stand for it has nothing either. -/
def pieceExprs : GlobPiece → List Expr
  | .literal c => (byteText [c]).map fun b => .one (.single b) 0
  | .any => [.one anyByte 0]
  | .star => [anything]
  | .leading => [choice [.repeated slash 0 (some 1) false, .concat [anything, slash]]]
  | .trailing => [slash, anything]
  | .between => [choice [slash, .concat [slash, anything, slash]]]
  | .cls negated ranges => [byteIn negated ranges]
  | .group branches =>
    match branchExprs branches with
    | [] => []
    | es => [choice es]

/-- What stands for the branches that have something to stand for them. -/
def branchExprs : List (List GlobPiece) → List Expr
  | [] => []
  | branch :: branches =>
    match piecesExprs branch with
    | [] => branchExprs branches
    | es => .concat es :: branchExprs branches

def piecesExprs : List GlobPiece → List Expr
  | [] => []
  | piece :: pieces => pieceExprs piece ++ piecesExprs pieces

end

/-- The written pattern of a whole glob, which matches all of a path. -/
def expr (pieces : List GlobPiece) : Expr :=
  let body := match pieces with
    | [.leading] => [anything]
    | _ => piecesExprs pieces
  .concat (.here .textStart :: body ++ [.here .textEnd])

def pattern (pieces : List GlobPiece) : Pattern := (expr pieces).toPattern

def read (t : Text) : Except GlobError (List GlobPiece) :=
  match readFrom none ⟨[], []⟩ t with
  | .error e => .error e
  | .ok r =>
    let pieces := r.current.reverse
    if !r.groups.isEmpty then .error .unclosedGroup
    else if (expr pieces).isShallow then .ok pieces
    else .error .tooDeep

/-- The glob describes the path. -/
def accepts (pieces : List GlobPiece) (p : Path) : Bool := (pattern pieces).search (byteText p)

end Glob

end DocComments
