import DocComments.Pattern.Quote

/-!
# Written patterns as trees

What a text writes as a pattern, before its meaning is taken: `Expr.toPattern` is the meaning. A
tree that is nested too deeply is no pattern (`Expr.isShallow`).
-/

set_option autoImplicit false

namespace DocComments

namespace Pattern

/-! ## Trees -/

/-- A written pattern. -/
inductive Expr where
  /-- a change of flags for what follows -/
  | flags
  /-- a character of a class that is nested as deeply as told -/
  | one (cls : CharClass) (depth : Nat)
  | here (anchor : Anchor)
  /-- a repetition, which tries long matches first unless it is lazy -/
  | repeated (e : Expr) (least : Nat) (most : Option Nat) (isLazy : Bool)
  /-- a group, which may be one whose match is remembered -/
  | group (e : Expr) (isRemembered : Bool)
  /-- one piece after the other -/
  | concat (es : List Expr)
  /-- one of some branches -/
  | either (es : List Expr)

namespace Expr

/-! ## Meaning -/

mutual

def toPattern : Expr → Pattern
  | flags => .empty
  | one cls _ => .one cls
  | here anchor => .here anchor
  | repeated e least most _ => .repeated e.toPattern least most
  | group e _ => e.toPattern
  | concat es => Pattern.concat (toPatterns es)
  | either es => Pattern.anyOf (toPatterns es)

/-- The patterns that some trees stand for. A change of flags stands for none. -/
def toPatterns : List Expr → List Pattern
  | [] => []
  | flags :: es => toPatterns es
  | e :: es => e.toPattern :: toPatterns es

end

/-! ## Depth -/

mutual

/-- How deeply the tree is nested. Single characters and anchors do not count, and neither do
sequences and choices of fewer than two pieces. -/
def depth : Expr → Nat
  | flags => 0
  | one _ depth => depth
  | here _ => 0
  | repeated e _ _ _ => e.depth + 1
  | group e _ => e.depth + 1
  | concat es => if es.length < 2 then depths es else depths es + 1
  | either es => if es.length < 2 then depths es else depths es + 1

def depths : List Expr → Nat
  | [] => 0
  | e :: es => max e.depth (depths es)

end

def depthLimit : Nat := 250

def isShallow (e : Expr) : Bool := e.depth ≤ depthLimit

end Expr

end Pattern

end DocComments
