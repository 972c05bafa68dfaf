import DocComments.Proofs.Run.Staged

/-!
# Docstrings on lines of their own

A new docstring is put in front of the body of its declaration. That makes lines of it if only
blanks stand in front of the body on its line; the declaration is left out unless there is a line
break in its header (`Declaration.bodyOnOwnLine?_eq_some_iff`). A line break there does not say what
stands behind it: the body begins on a line of its own if the last line of the header is blank, and
only then (`docstring_on_own_line_iff`).
-/

set_option autoImplicit false

namespace DocComments

open Edit (weave)

namespace ByteRange

variable {l m n : Nat} {t : Text}

theorem byteSize_slice (hlm : l ≤ m) (hl : Text.isBoundary l t = true)
    (hm : Text.isBoundary m t = true) : Text.byteSize (slice ⟨l, m⟩ t) = m - l := by
  have hsize := congrArg Text.byteSize (takeBytes_append_slice hlm hl hm)
  rw [Text.byteSize_append, Text.byteSize_takeBytes hl, Text.byteSize_takeBytes hm] at hsize
  omega

/-- A piece begins with every shorter piece from the same place. -/
theorem slice_prefix_slice (hlm : l ≤ m) (hmn : m ≤ n) (hl : Text.isBoundary l t = true)
    (hm : Text.isBoundary m t = true) (hn : Text.isBoundary n t = true) :
    Text.isBoundary (m - l) (slice ⟨l, n⟩ t) = true ∧
      Text.takeBytes (m - l) (slice ⟨l, n⟩ t) = slice ⟨l, m⟩ t := by
  have hsize := byteSize_slice hlm hl hm
  rw [← slice_append_slice hlm hmn hl hm hn, ← hsize]
  exact ⟨Text.isBoundary_iff.mpr ⟨_, _, rfl, rfl⟩, Text.takeBytes_byteSize_append _ _⟩

end ByteRange

namespace Declaration

/-- What stands in front of a body in its declaration. -/
def header (source : Text) (declaration body : Node) : Text :=
  ByteRange.slice ⟨declaration.range.start, body.range.start⟩ source

section Body

variable {t : Tree} {source : Text} {n body : Node} (ht : t.Fits source) (hn : Node.On t n)

include ht hn

theorem bounds_of_body? (hbody : body? n = some body) :
    n.range.start ≤ body.range.start ∧ body.range.start ≤ n.range.stop ∧
      Text.isBoundary n.range.start source = true ∧
      Text.isBoundary body.range.start source = true ∧
      Text.isBoundary n.range.stop source = true := by
  have hchild := List.mem_of_find?_eq_some hbody
  have hwithin := ht.laidOut.within n (Node.mem_walk_root_iff.mpr hn) body hchild
  have hfits := ByteRange.fits_iff.mp (ht.fits n (Node.mem_walk_root_iff.mpr hn))
  have hbodyFits := ByteRange.fits_iff.mp
    (ht.fits body (Node.mem_walk_root_iff.mpr (hn.of_mem_children hchild)))
  exact ⟨hwithin.1, by omega, hfits.2.1, hbodyFits.2.1, hfits.2.2⟩

/-- A body takes a docstring if there is a line break in front of it in the declaration. -/
theorem bodyOnOwnLine?_eq_some_iff :
    bodyOnOwnLine? source n = some body ↔ body? n = some body ∧ '\n' ∈ header source n body := by
  cases hbody : body? n with
  | none => simp [bodyOnOwnLine?, hbody]
  | some found =>
    obtain ⟨hle, hstop, hfront, hback, hend⟩ := bounds_of_body? ht hn hbody
    obtain ⟨hcut, hheader⟩ := ByteRange.slice_prefix_slice hle hstop hfront hback hend
    have htext : n.text source = ByteRange.slice ⟨n.range.start, n.range.stop⟩ source := rfl
    simp only [bodyOnOwnLine?, hbody, Option.bind_eq_bind, Option.bind_some, hle, if_true, htext,
      hcut, hheader, Bool.true_and, List.contains_iff_mem, Option.ite_none_right_eq_some,
      Option.some_inj]
    constructor
    · rintro ⟨hbreak, rfl⟩
      exact ⟨rfl, hbreak⟩
    · rintro ⟨rfl, hbreak⟩
      exact ⟨hbreak, rfl⟩

/-- What stands in front of a body on its line is the last line of the header. -/
theorem lead_eq_lastLine_header (hbody : body? n = some body)
    (hbreak : '\n' ∈ header source n body) :
    Text.lead body.range.start source = Text.lastLine (header source n body) := by
  obtain ⟨hle, -, hfront, hback, -⟩ := bounds_of_body? ht hn hbody
  rw [Text.lead, ← ByteRange.takeBytes_append_slice hle hfront hback]
  exact Text.lastLine_append_of_mem hbreak

end Body

end Declaration

/-! ## What is inserted -/

theorem Edit.weave_insertion {source : Text} {n : Nat} (t : Text) :
    weave source 0 [⟨⟨n, n⟩, t⟩] = Text.takeBytes n source ++ (t ++ Text.dropBytes n source) := by
  simp [weave, ByteRange.slice]

namespace Addition

variable {style : CommentStyle} {source : Text} {a : Addition}

/-- Where only blanks stand in front of the anchor on its line, whole lines are inserted in front of
that line. -/
theorem IsPlaced.exists_lines_of_edit (ha : a.IsPlaced style source)
    (hblank : Text.allBlank (a.lead source) = true) :
    ∃ lines : List Text,
      weave source 0 [a.edit] = Text.takeBytes (Text.lineStart a.position source) source
        ++ ((lines.map (· ++ ['\n'])).flatten
          ++ Text.dropBytes (Text.lineStart a.position source) source) ∧
      ∀ line ∈ lines, '\n' ∉ line ∧ (Text.allBlank line = true ∨ a.lead source <+: line) := by
  obtain ⟨lines, hedit, hlines⟩ := ha.exists_lines_of_lineEdit hblank
  -- an edit in front of blanks gives the same text as one at the beginning of the line
  have hmoved : weave source 0 ([a].map edit) = weave source 0 ([a].map (lineEdit source)) :=
    weave_map_lineEdit (fun b hb => List.mem_singleton.mp hb ▸ ha)
      (List.pairwise_singleton _ _)
  refine ⟨lines, ?_, hlines⟩
  rw [List.map_singleton, List.map_singleton, hedit, Edit.weave_insertion] at hmoved
  exact hmoved

/-- What is inserted stands behind what stands in front of the anchor on its line. -/
theorem exists_front_of_edit (a : Addition) (source : Text) :
    ∃ front, weave source 0 [a.edit] = front ++ (a.lead source
      ++ (a.comment.insertion ++ Text.dropBytes a.position source)) := by
  obtain ⟨front, hfront⟩ := Text.lastLine_suffix (Text.takeBytes a.position source)
  have hweave : weave source 0 [a.edit] = _ := Edit.weave_insertion a.comment.insertion
  refine ⟨front, ?_⟩
  rw [hweave, ← hfront, List.append_assoc]
  rfl

/-- What is added for a declaration is put where its insertion point begins. -/
theorem position_of_insertionPoint? {p : Planned} {n body : Node} {comment : Comment}
    (hp : Planned.ofNode? style .missing source n = some p)
    (hbody : style.insertionPoint? source n = some body)
    (hboundary : Text.isBoundary body.range.start source = true) :
    (⟨p, comment⟩ : Addition).position = body.range.start := by
  obtain ⟨point, hpoint, hanchor⟩ := Planned.exists_point_of_ofNode?_eq_some hp
  obtain rfl := Option.some.inj (hbody.symm.trans hpoint)
  exact (congrArg (fun s : Snapshot => s.range.start) hanchor).trans
    (Snapshot.start_ofNode hboundary)

end Addition

/-- A declaration takes a docstring in front of its body if there is a line break in its header.
Then the body begins on a line of its own if the last line of the header is blank, and only then: in
that case the docstring comes as whole lines in front of the line of the body, and else it stands
behind the text with which the header ends. -/
theorem docstring_on_own_line_iff {t : Tree} {source : Text} {n : Node} (ht : t.Fits source)
    (hn : Node.On t n) (body : Node) :
    let header := Declaration.header source n body
    let line := Text.lineStart body.range.start source
    (CommentStyle.docstring.insertionPoint? source n = some body ↔
      Declaration.body? n = some body ∧ '\n' ∈ header) ∧
    (CommentStyle.docstring.insertionPoint? source n = some body →
      (Text.allBlank (Text.lead body.range.start source) = true ↔
        Text.allBlank (Text.lastLine header) = true) ∧
      ∀ p, Planned.ofNode? .docstring .missing source n = some p → ∀ reply,
        let a : Addition := ⟨p, Comment.ofReply .docstring reply p.anchor⟩
        (Text.allBlank (Text.lastLine header) = true → ∃ lines : List Text,
          weave source 0 [a.edit] = Text.takeBytes line source
            ++ ((lines.map (· ++ ['\n'])).flatten ++ Text.dropBytes line source) ∧
          ∀ line ∈ lines, '\n' ∉ line ∧
            (Text.allBlank line = true ∨ Text.lastLine header <+: line)) ∧
        ∃ front, weave source 0 [a.edit] = front ++ (Text.lastLine header
          ++ (a.comment.insertion ++ Text.dropBytes body.range.start source))) := by
  intro header line
  have hpoint : CommentStyle.docstring.insertionPoint? source n = some body ↔
      Declaration.body? n = some body ∧ '\n' ∈ header :=
    Declaration.bodyOnOwnLine?_eq_some_iff ht hn
  refine ⟨hpoint, fun h => ?_⟩
  obtain ⟨hbody, hbreak⟩ := hpoint.mp h
  have hlead : Text.lead body.range.start source = Text.lastLine header :=
    Declaration.lead_eq_lastLine_header ht hn hbody hbreak
  have hbegins : t.BeginsOnBoundaries source :=
    fun m hm => (ByteRange.fits_iff.mp (ht.fits m hm)).2.1
  refine ⟨by rw [hlead], fun p hp reply => ?_⟩
  intro a
  have hplaced : a.IsPlaced .docstring source := Addition.isPlaced_of_ofNode? hbegins hn hp reply
  obtain ⟨-, -, -, hboundary, -⟩ := Declaration.bounds_of_body? ht hn hbody
  have hposition : a.position = body.range.start :=
    Addition.position_of_insertionPoint? hp h hboundary
  have hline : a.lead source = Text.lastLine header := by
    rw [Addition.lead, hposition, hlead]
  refine ⟨fun hblank => ?_, ?_⟩
  · rw [← hline] at hblank
    obtain ⟨lines, hweave, hlines⟩ := hplaced.exists_lines_of_edit hblank
    rw [hposition] at hweave
    rw [hline] at hlines
    exact ⟨lines, hweave, hlines⟩
  · obtain ⟨front, hweave⟩ := a.exists_front_of_edit source
    rw [hline, hposition] at hweave
    exact ⟨front, hweave⟩

/-! ## Functions with one statement -/

/-- A function with two parameters and one statement. -/
structure FunctionFile where
  source : Text
  /-- where the second parameter begins -/
  second : Nat
  /-- where the statement begins -/
  start : Nat

namespace FunctionFile

def bodyTree (f : FunctionFile) : Tree :=
  .node "block" true ⟨f.start, f.start + 4⟩
    [.node "pass_statement" true ⟨f.start, f.start + 4⟩
      [.node "pass" false ⟨f.start, f.start + 4⟩ []]]

def parametersTree (f : FunctionFile) : Tree :=
  .node "parameters" true ⟨5, f.second + 2⟩
    [.node "(" false ⟨5, 6⟩ [], .node "identifier" true ⟨6, 7⟩ [], .node "," false ⟨7, 8⟩ [],
      .node "identifier" true ⟨f.second, f.second + 1⟩ [],
      .node ")" false ⟨f.second + 1, f.second + 2⟩ []]

def functionTree (f : FunctionFile) : Tree :=
  .node "function_definition" true ⟨0, f.start + 4⟩
    [.node "def" false ⟨0, 3⟩ [], .node "identifier" true ⟨4, 5⟩ [], f.parametersTree,
      .node ":" false ⟨f.second + 2, f.second + 3⟩ [], f.bodyTree]

def tree (f : FunctionFile) : Tree := .node "module" true ⟨0, f.start + 5⟩ [f.functionTree]

def node (f : FunctionFile) : Node := .child (.root f.tree) [] f.functionTree

def body (f : FunctionFile) : Node :=
  .child f.node (f.functionTree.children.dropLast.reverse) f.bodyTree

theorem on_node (f : FunctionFile) : Node.On f.tree f.node := .child .root rfl

/-- A body on a line of its own. -/
def indented : FunctionFile := ⟨"def g(a, b):\n    pass\n".toList, 9, 17⟩

/-- A body on the second line of a header. -/
def broken : FunctionFile := ⟨"def g(a,\n      b): pass\n".toList, 15, 19⟩

theorem fits_indented : indented.tree.Fits indented.source := ⟨⟨by decide, by decide⟩, by decide⟩

theorem fits_broken : broken.tree.Fits broken.source := ⟨⟨by decide, by decide⟩, by decide⟩

end FunctionFile

open FunctionFile

/-- The docstring for a body on a line of its own comes in lines in front of it. -/
theorem docstring_on_own_line_iff_of_indented :
    indented.tree.Fits indented.source ∧ Node.On indented.tree indented.node ∧
      CommentStyle.docstring.insertionPoint? indented.source indented.node = some indented.body ∧
      Text.allBlank (Text.lead indented.body.range.start indented.source) = true := by
  obtain ⟨hpoint, hlines⟩ := docstring_on_own_line_iff fits_indented indented.on_node indented.body
  have htaken := hpoint.mpr ⟨rfl, by decide⟩
  exact ⟨fits_indented, indented.on_node, htaken, (hlines htaken).1.mpr (by decide)⟩

/-- A body behind the second line of the header takes a docstring, which comes behind the header. -/
theorem docstring_behind_header :
    broken.tree.Fits broken.source ∧ Node.On broken.tree broken.node ∧
      CommentStyle.docstring.insertionPoint? broken.source broken.node = some broken.body ∧
      Text.lead broken.body.range.start broken.source = "      b): ".toList ∧
      Text.allBlank (Text.lead broken.body.range.start broken.source) = false ∧
      ∃ p, Planned.ofNode? .docstring .missing broken.source broken.node = some p ∧
        weave broken.source 0 (Pass.missing.edits p (Comment.ofReply .docstring ['c'] p.anchor))
          = "def g(a,\n      b): \"\"\"c\"\"\"\n          pass\n".toList := by
  have hpoint : CommentStyle.docstring.insertionPoint? broken.source broken.node
      = some broken.body := rfl
  exact ⟨fits_broken, broken.on_node, hpoint, by decide, by decide, _, rfl, rfl⟩

end DocComments
