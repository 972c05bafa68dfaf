import DocComments.Declaration.Label
import DocComments.Proofs.Syntax.Place
import Mathlib.Data.List.Basic

/-!
# Which declaration a node is or wraps

`Labeled.choose` looks for one kind after the other, and for each at all the candidates: it takes
the candidate whose kind comes first in the list (`le_of_choose_eq_some`). So a node of a listed
kind is resolved to itself unless it holds a declaration of an earlier kind, and a wrapper to a
declaration that it holds (`ofNode_goes_by_rank`).
-/

set_option autoImplicit false

namespace DocComments

namespace Labeled

def kinds : List String := priorities.map Prod.fst

/-- How many kinds are looked for before this one. A kind that is not listed comes after all that
are. -/
def rank (kind : String) : Nat := kinds.idxOf kind

theorem rank_le_of_not_mem {kind other : String} (h : other ∉ kinds) : rank kind ≤ rank other := by
  rw [rank, rank, List.idxOf_of_notMem h]
  exact List.idxOf_le_length

/-- The label of a declaration taken by itself. -/
def ownLabel (n : Node) : String :=
  if isMethod n then "method" else (priorities.lookup n.kind).getD fallback

/-! ## The choice among candidates -/

section Choose

variable {candidates : List Node} {table : List (String × String)} {d : Labeled}

theorem choose_eq_none_iff :
    choose candidates table = none ↔ ∀ c ∈ candidates, c.kind ∉ table.map Prod.fst := by
  induction table with
  | nil => simp [choose]
  | cons entry table ih =>
    obtain ⟨kind, label⟩ := entry
    rw [choose]
    cases hfind : candidates.find? fun n => n.kind == kind with
    | some n =>
      have hn := List.mem_of_find?_eq_some hfind
      have hkind : n.kind = kind := by simpa using List.find?_some hfind
      simp only [reduceCtorEq, false_iff]
      intro hnone
      exact hnone n hn (by simp [hkind])
    | none =>
      have habsent : ∀ c ∈ candidates, c.kind ≠ kind := by simpa using hfind
      simp only [ih, List.map_cons, List.mem_cons, not_or]
      exact forall₂_congr fun c hc => (and_iff_right (habsent c hc)).symm

/-- The choice is of the first kind of the table, or no candidate is and it is made by the rest. -/
theorem choose_cons_cases {kind label : String}
    (h : choose candidates ((kind, label) :: table) = some d) :
    (d.node.kind = kind ∧ candidates.find? (fun n => n.kind == kind) = some d.node ∧
      d.label = if label == "function" && isMethod d.node then "method" else label) ∨
    ((∀ c ∈ candidates, c.kind ≠ kind) ∧ choose candidates table = some d) := by
  rw [choose] at h
  cases hfind : candidates.find? fun n => n.kind == kind with
  | some n =>
    rw [hfind] at h
    cases h
    exact .inl ⟨by simpa using List.find?_some hfind, rfl, rfl⟩
  | none =>
    rw [hfind] at h
    exact .inr ⟨by simpa using hfind, h⟩

/-- The choice is the first candidate of its kind. -/
theorem find?_eq_of_choose_eq_some (h : choose candidates table = some d) :
    candidates.find? (fun n => n.kind == d.node.kind) = some d.node := by
  induction table with
  | nil => cases h
  | cons entry table ih =>
    rcases choose_cons_cases h with ⟨hkind, hfind, -⟩ | ⟨-, hrest⟩
    · rw [hkind]
      exact hfind
    · exact ih hrest

theorem mem_of_choose_eq_some (h : choose candidates table = some d) : d.node ∈ candidates :=
  List.mem_of_find?_eq_some (find?_eq_of_choose_eq_some h)

/-- No candidate is of a kind that the table lists in front of that of the choice. -/
theorem le_of_choose_eq_some (h : choose candidates table = some d) {c : Node}
    (hc : c ∈ candidates) :
    (table.map Prod.fst).idxOf d.node.kind ≤ (table.map Prod.fst).idxOf c.kind := by
  induction table with
  | nil => cases h
  | cons entry table ih =>
    rw [List.map_cons]
    rcases choose_cons_cases h with ⟨hkind, -⟩ | ⟨habsent, hrest⟩
    · rw [List.idxOf_cons_eq _ hkind.symm]
      exact Nat.zero_le _
    · -- no candidate is of the first kind, so it counts for both alike
      rw [List.idxOf_cons_ne _ (habsent _ (mem_of_choose_eq_some hrest)).symm,
        List.idxOf_cons_ne _ (habsent c hc).symm]
      exact Nat.succ_le_succ (ih hrest)

/-- The choice has the label of its kind, but a function in the body of a class is a method. -/
theorem label_of_choose_eq_some (h : choose candidates table = some d) :
    ∃ label, table.lookup d.node.kind = some label ∧
      d.label = if label == "function" && isMethod d.node then "method" else label := by
  induction table with
  | nil => cases h
  | cons entry table ih =>
    obtain ⟨kind, label⟩ := entry
    rcases choose_cons_cases h with ⟨hkind, -, hlabel⟩ | ⟨habsent, hrest⟩
    · exact ⟨label, by simp [hkind], hlabel⟩
    · have hother : (d.node.kind == kind) = false := by
        simpa using habsent d.node (mem_of_choose_eq_some hrest)
      rw [List.lookup_cons, hother]
      exact ih hrest

end Choose

/-! ## The declaration of a node -/

theorem kind_of_isMethod {n : Node} (h : isMethod n = true) : n.kind = "function_definition" := by
  rw [isMethod, Bool.and_eq_true] at h
  simpa using h.1

theorem label_eq_ownLabel_of_choose_eq_some {candidates : List Node} {d : Labeled}
    (h : choose candidates priorities = some d) : d.label = ownLabel d.node := by
  obtain ⟨label, hlookup, hlabel⟩ := label_of_choose_eq_some h
  rw [hlabel, ownLabel, hlookup, Option.getD_some]
  cases hmethod : isMethod d.node with
  | false => simp
  | true =>
    -- only a function definition is a method, and the table calls it a function
    have hkind := kind_of_isMethod hmethod
    have hfunction : priorities.lookup "function_definition" = some "function" := by decide
    obtain rfl := Option.some.inj (hfunction.symm.trans (hkind ▸ hlookup))
    rfl

/-- The first of some nodes of the kind that is looked for before the kinds of all of them. -/
structure IsEarliest (candidates : List Node) (d : Node) : Prop where
  listed : d.kind ∈ kinds
  le : ∀ c ∈ candidates, rank d.kind ≤ rank c.kind
  first : candidates.find? (fun c => c.kind == d.kind) = some d

namespace IsEarliest

variable {n d : Node} {candidates : List Node}

theorem mem (h : IsEarliest candidates d) : d ∈ candidates := List.mem_of_find?_eq_some h.first

/-- A candidate in front that is not the earliest is of a later kind, and is passed over. -/
theorem of_cons (h : IsEarliest (n :: candidates) d) (hne : d ≠ n) :
    rank d.kind < rank n.kind ∧ IsEarliest candidates d := by
  have hkind : n.kind ≠ d.kind := by
    intro heq
    have hfirst := h.first
    rw [List.find?_cons_of_pos (by simp [heq])] at hfirst
    exact hne (Option.some.inj hfirst).symm
  have hother : rank d.kind ≠ rank n.kind := fun heq =>
    hkind ((List.idxOf_inj h.listed).mp heq).symm
  refine ⟨Nat.lt_of_le_of_ne (h.le n List.mem_cons_self) hother, h.listed, ?_, ?_⟩
  · intro c hc
    exact h.le c (List.mem_cons_of_mem n hc)
  · rw [← h.first, List.find?_cons_of_neg (by simpa using hkind)]

theorem eq_head_iff (h : IsEarliest (n :: candidates) d) :
    d = n ↔ ∀ c ∈ candidates, rank n.kind ≤ rank c.kind := by
  constructor
  · rintro rfl c hc
    exact h.le c (List.mem_cons_of_mem d hc)
  · intro hall
    by_contra hne
    obtain ⟨hlt, hrest⟩ := h.of_cons hne
    exact absurd hlt (Nat.not_lt.mpr (hall d hrest.mem))

end IsEarliest

section OfNode

variable {n : Node}

/-- A node that is a declaration of a listed kind, or holds one, is resolved to the earliest. -/
theorem exists_isEarliest (h : ∃ c ∈ n :: n.namedChildren, c.kind ∈ kinds) :
    ∃ d, IsEarliest (n :: n.namedChildren) d ∧ ofNode n = ⟨d, ownLabel d⟩ := by
  obtain ⟨c, hc, hkind⟩ := h
  cases hchoose : choose (n :: n.namedChildren) priorities with
  | none => exact absurd hkind (choose_eq_none_iff.mp hchoose c hc)
  | some d =>
    have hrank : ∀ m ∈ n :: n.namedChildren, rank d.node.kind ≤ rank m.kind :=
      fun m hm => le_of_choose_eq_some hchoose hm
    have hlisted : d.node.kind ∈ kinds := by
      apply List.idxOf_lt_length_iff.mp
      calc rank d.node.kind
          ≤ rank c.kind := hrank c hc
        _ < kinds.length := List.idxOf_lt_length_iff.mpr hkind
    refine ⟨d.node, ⟨hlisted, hrank, find?_eq_of_choose_eq_some hchoose⟩, ?_⟩
    rw [ofNode, hchoose, Option.getD_some, ← label_eq_ownLabel_of_choose_eq_some hchoose]

theorem ofNode_eq_of_not_listed (h : ∀ c ∈ n :: n.namedChildren, c.kind ∉ kinds) :
    ofNode n = ⟨n, fallback⟩ := by
  rw [ofNode, choose_eq_none_iff.mpr h, Option.getD_none]

/-- A declaration of a listed kind is resolved to itself if it holds none of an earlier kind. -/
theorem ofNode_eq_self (hn : n.kind ∈ kinds)
    (hheld : ∀ c ∈ n.namedChildren, rank n.kind ≤ rank c.kind) : ofNode n = ⟨n, ownLabel n⟩ := by
  obtain ⟨d, hd, heq⟩ := exists_isEarliest ⟨n, List.mem_cons_self, hn⟩
  obtain rfl := hd.eq_head_iff.mpr hheld
  exact heq

/-- A node that holds a declaration of an earlier kind than its own gives way to it. A kind that is
not listed comes after all that are. -/
theorem exists_held_of_rank_lt (h : ∃ c ∈ n.namedChildren, rank c.kind < rank n.kind) :
    ∃ d, IsEarliest n.namedChildren d ∧ ofNode n = ⟨d, ownLabel d⟩ := by
  obtain ⟨c, hc, hlt⟩ := h
  have hlisted : c.kind ∈ kinds := by
    apply List.idxOf_lt_length_iff.mp
    calc rank c.kind
        < rank n.kind := hlt
      _ ≤ kinds.length := List.idxOf_le_length
  obtain ⟨d, hd, heq⟩ := exists_isEarliest ⟨c, List.mem_cons_of_mem n hc, hlisted⟩
  have hne : d ≠ n := by
    intro hself
    exact absurd (hd.eq_head_iff.mp hself c hc) (Nat.not_le.mpr hlt)
  exact ⟨d, (hd.of_cons hne).2, heq⟩

end OfNode

end Labeled

open Labeled

/-! ## What a node is resolved to -/

/-- A node of a listed kind is resolved to itself if none of its named children is of an earlier
kind, and else to the first one of the earliest kind. A node of another kind is resolved to its
first named child of the earliest kind that is listed, and if there is none it stays as it is. -/
theorem Labeled.ofNode_goes_by_rank (n : Node) :
    (n.kind ∈ kinds →
      ((∀ c ∈ n.namedChildren, rank n.kind ≤ rank c.kind) → ofNode n = ⟨n, ownLabel n⟩) ∧
      ((∃ c ∈ n.namedChildren, rank c.kind < rank n.kind) →
        ∃ d, IsEarliest n.namedChildren d ∧ ofNode n = ⟨d, ownLabel d⟩)) ∧
    (n.kind ∉ kinds →
      ((∃ c ∈ n.namedChildren, c.kind ∈ kinds) →
        ∃ d, IsEarliest n.namedChildren d ∧ ofNode n = ⟨d, ownLabel d⟩) ∧
      ((∀ c ∈ n.namedChildren, c.kind ∉ kinds) → ofNode n = ⟨n, "declaration"⟩)) := by
  refine ⟨fun hn => ⟨ofNode_eq_self hn, exists_held_of_rank_lt⟩, fun hn => ⟨?_, ?_⟩⟩
  · rintro ⟨c, hc, hlisted⟩
    apply exists_held_of_rank_lt
    refine ⟨c, hc, ?_⟩
    calc rank c.kind
        < kinds.length := List.idxOf_lt_length_iff.mpr hlisted
      _ = rank n.kind := (List.idxOf_of_notMem hn).symm
  · intro hnone
    exact ofNode_eq_of_not_listed (List.forall_mem_cons.mpr ⟨hn, hnone⟩)

/-! ## A namespace that spans a file -/

namespace NamespaceFile

/-- The tokens of `namespace N;`. -/
def opening : List Tree :=
  [.node "namespace" false ⟨0, 9⟩ [], .node "identifier" true ⟨10, 11⟩ [],
    .node ";" false ⟨11, 12⟩ []]

def fieldTree : Tree :=
  .node "field_declaration" true ⟨23, 29⟩
    [.node "variable_declaration" true ⟨23, 28⟩
      [.node "predefined_type" true ⟨23, 26⟩ [],
        .node "variable_declarator" true ⟨27, 28⟩ [.node "identifier" true ⟨27, 28⟩ []]],
      .node ";" false ⟨28, 29⟩ []]

def bodyTree : Tree :=
  .node "declaration_list" true ⟨21, 31⟩
    [.node "\x7b" false ⟨21, 22⟩ [], fieldTree, .node "\x7d" false ⟨30, 31⟩ []]

/-- The tree of `class A { int x; }` behind the namespace. -/
def classTree : Tree :=
  .node "class_declaration" true ⟨13, 31⟩
    [.node "class" false ⟨13, 18⟩ [], .node "identifier" true ⟨19, 20⟩ [], bodyTree]

/-- A namespace without what belongs to it. -/
def bareTree : Tree := .node "file_scoped_namespace_declaration" true ⟨0, 12⟩ opening

/-- A namespace that holds the class that belongs to it. -/
def fullTree : Tree :=
  .node "file_scoped_namespace_declaration" true ⟨0, 31⟩ (opening ++ [classTree])

/-- The file with the class beside the namespace. -/
def besideTree : Tree := .node "compilation_unit" true ⟨0, 32⟩ [bareTree, classTree]

/-- The file with the class inside the namespace. -/
def insideTree : Tree := .node "compilation_unit" true ⟨0, 32⟩ [fullTree]

def bareNode : Node := .child (.root besideTree) [] bareTree

def besideNode : Node := .child (.root besideTree) [bareTree] classTree

def fieldNode : Node :=
  .child (.child besideNode classTree.children.dropLast.reverse bodyTree)
    [.node "\x7b" false ⟨21, 22⟩ []] fieldTree

def fullNode : Node := .child (.root insideTree) [] fullTree

def insideNode : Node := .child fullNode opening.reverse classTree

end NamespaceFile

open NamespaceFile

/-- A namespace without declarations in it and a field, which holds a declaration of variables, are
resolved to themselves, and a namespace with a class in it and a file to the class. -/
theorem Labeled.ofNode_goes_by_rank_of_namespaces :
    ofNode bareNode = ⟨bareNode, "namespace"⟩ ∧ ofNode fieldNode = ⟨fieldNode, "property"⟩ ∧
      ofNode fullNode = ⟨insideNode, "class"⟩ ∧
      ofNode (.root besideTree) = ⟨besideNode, "class"⟩ := by
  have hfull : fullNode.namedChildren = [.child fullNode [.node "namespace" false ⟨0, 9⟩ []]
      (.node "identifier" true ⟨10, 11⟩ []), insideNode] := rfl
  have hfile : (Node.root besideTree).namedChildren = [bareNode, besideNode] := rfl
  refine ⟨((ofNode_goes_by_rank bareNode).1 (by decide)).1 (by decide),
    ((ofNode_goes_by_rank fieldNode).1 (by decide)).1 (by decide), ?_, ?_⟩
  · obtain ⟨d, hd, heq⟩ := ((ofNode_goes_by_rank fullNode).1 (by decide)).2
      ⟨insideNode, by simp [hfull], by decide⟩
    rw [hfull] at hd
    rcases List.mem_pair.mp hd.mem with rfl | rfl
    · exact absurd hd.listed (by decide)
    · exact heq
  · obtain ⟨d, hd, heq⟩ := ((ofNode_goes_by_rank (.root besideTree)).2 (by decide)).1
      ⟨besideNode, by simp [hfile], by decide⟩
    rw [hfile] at hd
    rcases List.mem_pair.mp hd.mem with rfl | rfl
    · exact absurd (hd.le besideNode (by simp)) (by decide)
    · exact heq

/-- A namespace that holds a class is not resolved to itself but to the class. -/
theorem Labeled.namespace_gives_way_to_class :
    Node.On insideTree fullNode ∧ fullNode.kind ∈ kinds ∧ insideNode ∈ fullNode.namedChildren ∧
      ofNode fullNode = ⟨insideNode, "class"⟩ ∧ (ofNode fullNode).node ≠ fullNode := by
  have hroot : Node.On insideTree (.root insideTree) := .root
  have hclass : ofNode fullNode = ⟨insideNode, "class"⟩ := rfl
  refine ⟨hroot.child rfl, by decide, ?_, hclass, ?_⟩
  · have hfull : fullNode.namedChildren = [.child fullNode [.node "namespace" false ⟨0, 9⟩ []]
        (.node "identifier" true ⟨10, 11⟩ []), insideNode] := rfl
    simp [hfull]
  · rw [hclass]
    intro heq
    exact absurd (congrArg Node.kind heq) (by decide)

end DocComments
