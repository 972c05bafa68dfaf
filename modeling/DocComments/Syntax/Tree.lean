import DocComments.Text.Offset

/-!
# Syntax trees

A parsed source is a tree of nodes with kinds and byte ranges. A `Node` is a subtree together with
its place, so that its parent and its earlier siblings can be reached. `Node.walk` lists a node and
everything below it in document order.
-/

set_option autoImplicit false

namespace DocComments

/-- A syntax tree. Anonymous nodes are tokens that the grammar gives no name of their own. -/
inductive Tree where
  | node (kind : String) (named : Bool) (range : ByteRange) (children : List Tree)

namespace Tree

def kind : Tree → String
  | node k _ _ _ => k

def named : Tree → Bool
  | node _ n _ _ => n

/-- The bytes of the source that the tree covers. -/
def range : Tree → ByteRange
  | node _ _ r _ => r

def children : Tree → List Tree
  | node _ _ _ cs => cs

end Tree

/-- A subtree at its place: the whole tree, or a child with its parent and its earlier siblings,
the nearest first. -/
inductive Node where
  | root (tree : Tree)
  | child (parent : Node) (earlier : List Tree) (tree : Tree)

namespace Node

def tree : Node → Tree
  | root t => t
  | child _ _ t => t

def kind (n : Node) : String := n.tree.kind

def named (n : Node) : Bool := n.tree.named

def range (n : Node) : ByteRange := n.tree.range

def text (n : Node) (source : Text) : Text := n.range.slice source

/-- The steps down from the root that lead to the node, the last one first. -/
def path : Node → List Nat
  | root _ => []
  | child parent earlier _ => earlier.length :: parent.path

/-- Two nodes of one tree stand at the same place. -/
def sameAs (m n : Node) : Bool := m.path == n.path

/-! ## Neighbours -/

def parent? : Node → Option Node
  | root _ => none
  | child parent _ _ => some parent

/-- The nodes above, nearest first. -/
def ancestors : Node → List Node
  | root _ => []
  | child parent _ _ => parent :: parent.ancestors

/-- Children of `parent` as nodes, the last one first. -/
def placeBackward (parent : Node) : List Tree → List Node
  | [] => []
  | t :: earlier => child parent earlier t :: placeBackward parent earlier

def earlierSiblings : Node → List Node
  | root _ => []
  | child parent earlier _ => placeBackward parent earlier

def previous? (n : Node) : Option Node := n.earlierSiblings.head?

/-- Children of `parent` behind `earlier`, as nodes in order. -/
def placeForward (parent : Node) (earlier : List Tree) : List Tree → List Node
  | [] => []
  | t :: later => child parent earlier t :: placeForward parent (t :: earlier) later

def children (n : Node) : List Node := placeForward n [] n.tree.children

def namedChildren (n : Node) : List Node := n.children.filter named

/-! ## Document order -/

mutual

/-- The subtree that `place` gives its place, and everything below it, in document order. -/
def walkTree (place : Tree → Node) : Tree → List Node
  | .node k n r cs => place (.node k n r cs) :: walkForest (place (.node k n r cs)) [] cs

/-- Children of `parent` behind `earlier` and everything below them, in document order. -/
def walkForest (parent : Node) (earlier : List Tree) : List Tree → List Node
  | [] => []
  | t :: later => walkTree (child parent earlier) t ++ walkForest parent (t :: earlier) later

end

def descendants (n : Node) : List Node := walkForest n [] n.tree.children

/-- The node and the nodes below, in document order. -/
def walk (n : Node) : List Node := n :: n.descendants

@[simp] theorem tree_child (parent : Node) (earlier : List Tree) (t : Tree) :
    (child parent earlier t).tree = t := rfl

@[simp] theorem parent?_child (parent : Node) (earlier : List Tree) (t : Tree) :
    (child parent earlier t).parent? = some parent := rfl

/-- A walk begins with the node itself. -/
theorem walkTree_child (parent : Node) (earlier : List Tree) (t : Tree) :
    walkTree (child parent earlier) t = (child parent earlier t).walk := by
  cases t
  rw [walkTree, walk, descendants]
  rfl

end Node

end DocComments
