import DocComments.Declaration.Label
import DocComments.Declaration.Locate
import DocComments.Rule.Search

/-!
# Plans

A plan holds what a pass over a file needs to know of each declaration that it treats, as snapshots,
in document order.
-/

set_option autoImplicit false

namespace DocComments

inductive Pass where
  /-- declarations without a comment get one -/
  | missing
  /-- comments that are there are brought up to date -/
  | update
  deriving DecidableEq, Repr

def Pass.name : Pass → String
  | missing => "missing"
  | update => "update"

/-- A declaration that a pass treats. -/
structure Planned where
  /-- the node that the rule matched -/
  matched : Snapshot
  /-- the declaration that the node is or wraps -/
  declaration : Snapshot
  label : String
  /-- the comments that are there, in document order; none in a pass that adds comments -/
  comments : List Snapshot
  /-- where the comment is placed -/
  anchor : Snapshot
  deriving DecidableEq, Repr

namespace Planned

/-- The comments of a declaration and the place for a new text, unless there is none. -/
def place? (style : CommentStyle) (pass : Pass) (source : Text) (n : Node) :
    Option (List Snapshot × Snapshot) :=
  match pass with
  | .missing => (style.insertionPoint? source n).map fun point => ([], Snapshot.ofNode source point)
  | .update =>
    match (style.commentNodes source n).map (Snapshot.ofNode source) with
    | [] => none
    | first :: more => some (first :: more, first)

/-- What a pass needs to know of a matched node. Nodes without a place are left out. -/
def ofNode? (style : CommentStyle) (pass : Pass) (source : Text) (n : Node) : Option Planned :=
  (place? style pass source n).map fun (comments, anchor) =>
    let declared := Labeled.ofNode n
    { matched := Snapshot.ofNode source n
      declaration := Snapshot.ofNode source declared.node
      label := declared.label
      comments := comments
      anchor := anchor }

end Planned

def Pass.rule (pass : Pass) (style : CommentStyle) (request : Request) : Rule :=
  style.rule request (pass == .update)

/-- The declarations that a pass treats in a file, in document order. -/
def plan (lang : Language) (request : Request) (pass : Pass) (source : Text) (tree : Tree) :
    Except Rule.Invalid (List Planned) :=
  ((pass.rule lang.style request).search lang source tree).map fun matched =>
    matched.filterMap (Planned.ofNode? lang.style pass source)

end DocComments
