import DocComments.Pattern.Reader
import DocComments.Syntax.Tree

/-!
# Rules

A rule is a composable question about a node of a syntax tree: its kind, its text, its position
among its siblings, and the nodes around it. `Rule.yields` answers it with the node that the rule
finds, which is the node itself except for rules about related nodes.
-/

set_option autoImplicit false

namespace DocComments

/-- How far a rule about related nodes looks. -/
inductive Reach where
  /-- only the parent, the children or the sibling directly in front -/
  | neighbor
  /-- up to the root, down to the leaves or back to the first sibling -/
  | far
  deriving DecidableEq, Repr

def Reach.name : Reach → String
  | neighbor => "neighbor"
  | far => "end"

inductive Relation where
  /-- the other node is above -/
  | inside
  /-- the other node is below -/
  | has
  /-- the other node is an earlier sibling -/
  | follows
  deriving DecidableEq, Repr

namespace Relation

def name : Relation → String
  | inside => "inside"
  | has => "has"
  | follows => "follows"

/-- The related nodes of a node within reach, in the order in which they are tried. -/
def related (relation : Relation) (reach : Reach) (n : Node) : List Node :=
  match relation, reach with
  | inside, .neighbor => n.parent?.toList
  | inside, .far => n.ancestors
  | has, .neighbor => n.children
  | has, .far => n.descendants
  | follows, .neighbor => n.previous?.toList
  | follows, .far => n.earlierSiblings

end Relation

/-- A question about a node. -/
inductive Rule where
  /-- the node has a name and is of this kind -/
  | kind (k : String)
  /-- the written pattern matches in the text of the node -/
  | pattern (written : Text)
  /-- every one of the rules matches -/
  | all (rules : List Rule)
  /-- one of the rules matches -/
  | any (rules : List Rule)
  /-- the rule does not match -/
  | not (rule : Rule)
  /-- the rule matches a related node -/
  | related (relation : Relation) (reach : Reach) (rule : Rule)
  /-- the node stands at a position, from one on, among its named siblings -/
  | nth (position : Nat)
  /-- the node stands at a position, from one on, among what the rule yields for its named
  siblings -/
  | nthOf (position : Nat) (rule : Rule)

namespace Rule

def anyKind (kinds : List String) : Rule := any (kinds.map kind)

/-- The text of the node is exactly `t`. -/
def text (t : Text) : Rule := pattern (Pattern.exactly t)

def inParent (rule : Rule) : Rule := related .inside .neighbor rule

def inAncestor (rule : Rule) : Rule := related .inside .far rule

def hasChild (rule : Rule) : Rule := related .has .neighbor rule

def afterSibling (rule : Rule) : Rule := related .follows .neighbor rule

def always : Rule := pattern []

def never : Rule := not always

/-- The node is the element at a position, from one on, of a list of nodes, at its first place in
the list. Positions are signed numbers of 32 bits. -/
def isNth (position : Nat) (n : Node) (nodes : List Node) : Bool :=
  match nodes.findIdx? n.sameAs with
  | some i => Int.ofNat (i + 1) == Int.bmod position 4294967296
  | none => false

def namedSiblings (n : Node) : List Node := n.parent?.elim [] Node.namedChildren

mutual

/-- The node that a rule finds at a node of a source text, if it matches. -/
def yields (source : Text) : Rule → Node → Option Node
  | kind k, n => if n.named && n.kind == k then some n else none
  | pattern written, n =>
    if Pattern.searchWritten written (n.text source) then some n else none
  | all rules, n => if allMatch source rules n then some n else none
  | any rules, n => if anyMatches source rules n then some n else none
  | not rule, n => if (yields source rule n).isSome then none else some n
  | related relation reach rule, n =>
    (relation.related reach n).findSome? fun m => yields source rule m
  | nth position, n => if isNth position n (namedSiblings n) then some n else none
  | nthOf position rule, n =>
    if isNth position n ((namedSiblings n).filterMap fun m => yields source rule m) then some n
    else none

def allMatch (source : Text) : List Rule → Node → Bool
  | [], _ => true
  | rule :: rules, n => (yields source rule n).isSome && allMatch source rules n

def anyMatches (source : Text) : List Rule → Node → Bool
  | [], _ => false
  | rule :: rules, n => (yields source rule n).isSome || anyMatches source rules n

end

def matchesAt (source : Text) (rule : Rule) (n : Node) : Bool := (yields source rule n).isSome

theorem allMatch_iff {source : Text} {rules : List Rule} {n : Node} :
    allMatch source rules n = true ↔ ∀ rule ∈ rules, matchesAt source rule n = true := by
  induction rules with
  | nil => simp [allMatch]
  | cons rule rules ih => simp [allMatch, matchesAt, ih]

end Rule

end DocComments
