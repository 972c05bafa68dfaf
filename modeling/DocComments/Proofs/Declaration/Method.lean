import DocComments.Proofs.Declaration.Label
import DocComments.Proofs.Declaration.Request

/-!
# Methods found and methods labelled

The rule for methods asks where a function definition is placed, through decoration, and the label
of a definition follows from what holds it. Both mean the body of a class
(`method_found_iff_label_eq`).
-/

set_option autoImplicit false

namespace DocComments

namespace Tree

/-- What is around and below the function definitions of a parsed source. -/
structure DefinitionsPlain (t : Tree) : Prop where
  /-- Bodies, classes and decorated definitions have names in the grammar. -/
  named : ∀ n ∈ (Node.root t).walk,
    n.kind ∈ ["block", "class_definition", "decorated_definition"] → n.named = true
  /-- What a function contains is in its body: no declaration is directly in it. -/
  plain : ∀ n ∈ (Node.root t).walk, n.kind = "function_definition" →
    ∀ c ∈ n.namedChildren, c.kind ∉ Labeled.kinds

theorem DefinitionsPlain.named_of_on {t : Tree} (ht : t.DefinitionsPlain) {n : Node}
    (hn : Node.On t n) (hkind : n.kind ∈ ["block", "class_definition", "decorated_definition"]) :
    n.named = true :=
  ht.named n (Node.mem_walk_root_iff.mpr hn) hkind

end Tree

namespace Declaration

open Rule Labeled

/-! ## Places -/

def isClassBody (body : Node) : Prop :=
  body.kind = "block" ∧ ∃ c, body.parent? = some c ∧ c.kind = "class_definition"

theorem isMethod_iff {n : Node} : isMethod n = true ↔
    n.kind = "function_definition" ∧ ∃ body, holder? n = some body ∧ isClassBody body := by
  simp [isMethod, isClassBody, Option.any_eq_true]

section Place

variable {source : Text} {known : String → Bool} {container : Rule} {n : Node}

theorem leftMatches_placedIn_iff :
    LeftMatches source known (placedIn container) n ↔
      ∃ p, n.parent? = some p ∧ (LeftMatches source known container p ∨
        LeftMatches source known (.kind "decorated_definition") p ∧
          ∃ q, p.parent? = some q ∧ LeftMatches source known container q) := by
  simp only [placedIn, leftMatches_any_iff, List.mem_cons, List.not_mem_nil, or_false,
    exists_eq_or_imp, exists_eq_left, leftMatches_inParent_iff, leftMatches_all_iff,
    forall_eq_or_imp, forall_eq, ← exists_or, ← and_or_left]

/-- A node is placed in a container if the container is what holds it, decoration left out. -/
theorem leftMatches_placedIn_iff_holder (hknown : known "decorated_definition" = true)
    (hnamed : ∀ p, n.parent? = some p → p.kind = "decorated_definition" → p.named = true)
    (hcontainer : ∀ m, LeftMatches source known container m → m.kind ≠ "decorated_definition") :
    LeftMatches source known (placedIn container) n ↔
      ∃ m, holder? n = some m ∧ LeftMatches source known container m := by
  rw [leftMatches_placedIn_iff]
  cases hparent : n.parent? with
  | none => simp [holder?, hparent]
  | some p =>
    simp only [Option.some.injEq, exists_eq_left', holder?, hparent]
    -- the rule offers both ways; what is above the node decides which one is left
    by_cases hdecorated : p.kind = "decorated_definition"
    · have hnot : ¬ LeftMatches source known container p := fun h => hcontainer p h hdecorated
      have hp : LeftMatches source known (.kind "decorated_definition") p :=
        leftMatches_kind_iff.mpr ⟨hknown, hnamed p hparent hdecorated, hdecorated⟩
      simp [hdecorated, hnot, hp]
    · have hnot : ¬ LeftMatches source known (.kind "decorated_definition") p :=
        fun h => hdecorated (kind_eq_of_leftMatches h)
      simp [hdecorated, hnot]

theorem isClassBody_of_leftMatches (h : LeftMatches source known classBody n) : isClassBody n := by
  simp only [classBody, leftMatches_all_iff, List.forall_mem_cons] at h
  obtain ⟨hblock, hclass, -⟩ := h
  obtain ⟨c, hparent, hc⟩ := leftMatches_inParent_iff.mp hclass
  exact ⟨kind_eq_of_leftMatches hblock, c, hparent, kind_eq_of_leftMatches hc⟩

theorem leftMatches_classBody_of_isClassBody
    (hknown : ∀ k ∈ ["block", "class_definition"], known k = true) (hnamed : n.named = true)
    (hclass : ∀ c, n.parent? = some c → c.kind = "class_definition" → c.named = true)
    (h : isClassBody n) : LeftMatches source known classBody n := by
  obtain ⟨hblock, c, hparent, hc⟩ := h
  simp only [classBody, leftMatches_all_iff, List.forall_mem_cons]
  refine ⟨leftMatches_kind_iff.mpr ⟨hknown _ (by simp), hnamed, hblock⟩, ?_, List.forall_mem_nil _⟩
  exact leftMatches_inParent_iff.mpr ⟨c, hparent,
    leftMatches_kind_iff.mpr ⟨hknown _ (by simp), hclass c hparent hc, hc⟩⟩

end Place

/-! ## Methods of a parsed source -/

section Python

variable {source : Text} {t : Tree} {n : Node}

theorem on_of_holder? {m : Node} (hn : Node.On t n) (h : holder? n = some m) : Node.On t m := by
  rw [holder?] at h
  split at h
  · next p hparent =>
    split at h
    · exact (hn.of_parent? hparent).of_parent? h
    · cases h
      exact hn.of_parent? hparent
  · cases h

/-- Where a definition of a parsed source is placed depends on what holds it. -/
theorem leftMatches_placedIn_iff_of_on (ht : t.DefinitionsPlain) (hn : Node.On t n)
    {container : Rule} (hcontainer : ∀ m, LeftMatches source Language.python.knows container m →
      m.kind ≠ "decorated_definition") :
    LeftMatches source Language.python.knows (placedIn container) n ↔
      ∃ m, holder? n = some m ∧ LeftMatches source Language.python.knows container m :=
  leftMatches_placedIn_iff_holder (by decide)
    (fun _ hp hkind => ht.named_of_on (hn.of_parent? hp) (by simp [hkind])) hcontainer

/-- A node is placed in the body of a class if such a body holds it. -/
theorem leftMatches_placedIn_classBody_iff (ht : t.DefinitionsPlain) (hn : Node.On t n) :
    LeftMatches source Language.python.knows (placedIn classBody) n ↔
      ∃ body, holder? n = some body ∧ isClassBody body := by
  rw [leftMatches_placedIn_iff_of_on ht hn fun m hm => by simp [(isClassBody_of_leftMatches hm).1]]
  refine exists_congr fun body => and_congr_right fun hbody => ?_
  have hon := on_of_holder? hn hbody
  refine ⟨isClassBody_of_leftMatches, fun h => ?_⟩
  exact leftMatches_classBody_of_isClassBody (by decide) (ht.named_of_on hon (by simp [h.1]))
    (fun c hc hkind => ht.named_of_on (hon.of_parent? hc) (by simp [hkind])) h

/-- Among the function definitions, a request for methods asks for those that have the label. -/
theorem leftMatches_target_method_iff (ht : t.DefinitionsPlain) (hn : Node.On t n)
    (exportsOnly : Bool) :
    LeftMatches source Language.python.knows (docstringTarget ⟨[.method], exportsOnly⟩) n ↔
      n.named = true ∧ isMethod n = true := by
  have hknown : Language.python.knows "function_definition" = true := by decide
  simp [leftMatches_docstringTarget_iff, leftMatches_placedIn_classBody_iff ht hn,
    leftMatches_kind_iff, isMethod_iff, hknown, and_assoc]

/-- What a request for functions asks for stands in the module, so it is no method. -/
theorem not_isMethod_of_leftMatches_target_function (ht : t.DefinitionsPlain) (hn : Node.On t n)
    {exportsOnly : Bool}
    (h : LeftMatches source Language.python.knows
      (docstringTarget ⟨[.function], exportsOnly⟩) n) : isMethod n = false := by
  obtain ⟨-, hplaced⟩ : LeftMatches source Language.python.knows (.kind "function_definition") n ∧
      LeftMatches source Language.python.knows (placedIn (.kind "module")) n := by
    simpa [leftMatches_docstringTarget_iff] using h
  rw [leftMatches_placedIn_iff_of_on ht hn fun m hm => by simp [kind_eq_of_leftMatches hm]]
    at hplaced
  obtain ⟨m, hholder, hm⟩ := hplaced
  rw [← Bool.not_eq_true, isMethod_iff]
  rintro ⟨-, body, hbody, hblock, -⟩
  obtain rfl := Option.some.inj (hholder.symm.trans hbody)
  -- what holds the node would be a module and a body
  exact absurd ((kind_eq_of_leftMatches hm).symm.trans hblock) (by decide)

/-- A function definition is resolved to itself, and only the label depends on its place. -/
theorem ofNode_eq_of_definition (ht : t.DefinitionsPlain) (hn : Node.On t n)
    (hkind : n.kind = "function_definition") :
    ofNode n = ⟨n, if isMethod n then "method" else "function"⟩ := by
  have hplain := ht.plain n (Node.mem_walk_root_iff.mpr hn) hkind
  have hself := ofNode_eq_self (by rw [hkind]; decide) fun c hc => rank_le_of_not_mem (hplain c hc)
  have hfunction : priorities.lookup "function_definition" = some "function" := by decide
  rw [hself, ownLabel, hkind, hfunction, Option.getD_some]

end Python

end Declaration

open CommentStyle Declaration Labeled Rule

/-- In the tree of a source, for documented definitions and for the others: the function definitions
that a request for methods finds are the named ones that are labelled as methods, and those that a
request for functions finds are labelled as functions. So no definition is found by both. -/
theorem method_found_iff_label_eq {t : Tree} (ht : t.DefinitionsPlain) (source : Text) :
    ∃ methods functions : Bool → Bool → List Node,
      (∀ exportsOnly withComment, (docstring.rule ⟨[.method], exportsOnly⟩ withComment).search
        .python source t = .ok (methods exportsOnly withComment)) ∧
      (∀ exportsOnly withComment, (docstring.rule ⟨[.function], exportsOnly⟩ withComment).search
        .python source t = .ok (functions exportsOnly withComment)) ∧
      ∀ n, n.kind = "function_definition" →
        (∀ e w, n ∈ methods e w → ofNode n = ⟨n, "method"⟩) ∧
        (∀ e w, n ∈ functions e w → ofNode n = ⟨n, "function"⟩) ∧
        (∀ e w e' w', n ∈ methods e w → n ∉ functions e' w') ∧
        (∀ e, Node.On t n → n.named = true →
          ((ofNode n).label = "method" ↔ ∃ w, n ∈ methods e w)) := by
  choose methods hmethods using fun exportsOnly withComment =>
    exists_search_rule_eq_ok docstring ⟨[.method], exportsOnly⟩ withComment .python source t
  choose functions hfunctions using fun exportsOnly withComment =>
    exists_search_rule_eq_ok docstring ⟨[.function], exportsOnly⟩ withComment .python source t
  refine ⟨methods, functions, hmethods, hfunctions, fun n hkind => ?_⟩
  have hmethod : ∀ e w, n ∈ methods e w → Node.On t n ∧ isMethod n = true := by
    intro e w hmem
    obtain ⟨hn, hrule⟩ := (mem_search_iff (hmethods e w)).mp hmem
    exact ⟨hn, ((leftMatches_target_method_iff ht hn e).mp (leftMatches_rule_iff.mp hrule).1).2⟩
  have hfunction : ∀ e w, n ∈ functions e w → Node.On t n ∧ isMethod n = false := by
    intro e w hmem
    obtain ⟨hn, hrule⟩ := (mem_search_iff (hfunctions e w)).mp hmem
    exact ⟨hn, not_isMethod_of_leftMatches_target_function ht hn (leftMatches_rule_iff.mp hrule).1⟩
  refine ⟨fun e w hmem => ?_, fun e w hmem => ?_, fun e w e' w' hmem hmem' => ?_,
    fun e hn hnamed => ?_⟩
  · obtain ⟨hn, his⟩ := hmethod e w hmem
    simp [ofNode_eq_of_definition ht hn hkind, his]
  · obtain ⟨hn, his⟩ := hfunction e w hmem
    simp [ofNode_eq_of_definition ht hn hkind, his]
  · exact Bool.false_ne_true ((hfunction e' w' hmem').2.symm.trans (hmethod e w hmem).2)
  · have hlabel : (ofNode n).label = "method" ↔ isMethod n = true := by
      rw [ofNode_eq_of_definition ht hn hkind]
      cases isMethod n with
      | true => simp
      | false => simp
    have hfound : (∃ w, n ∈ methods e w) ↔
        LeftMatches source Language.python.knows (docstringTarget ⟨[.method], e⟩) n := by
      simp only [mem_search_iff (hmethods e _), hn, true_and]
      exact exists_leftMatches_rule_iff
    rw [hlabel, hfound, leftMatches_target_method_iff ht hn e, and_iff_right hnamed]

/-! ## A decorated method and a function -/

namespace DecoratedFile

/-- A class with a decorated method, and a function of the module. -/
def source : Text :=
  "class A:\n    @s\n    def m():\n        pass\ndef f():\n    pass\n".toList

/-- A definition without parameters that begins at one place and its body at another. -/
def definitionTree (start body : Nat) : Tree :=
  .node "function_definition" true ⟨start, body + 4⟩
    [.node "def" false ⟨start, start + 3⟩ [], .node "identifier" true ⟨start + 4, start + 5⟩ [],
      .node "parameters" true ⟨start + 5, start + 7⟩
        [.node "(" false ⟨start + 5, start + 6⟩ [], .node ")" false ⟨start + 6, start + 7⟩ []],
      .node ":" false ⟨start + 7, start + 8⟩ [],
      .node "block" true ⟨body, body + 4⟩
        [.node "pass_statement" true ⟨body, body + 4⟩ [.node "pass" false ⟨body, body + 4⟩ []]]]

def decoratorTree : Tree :=
  .node "decorator" true ⟨13, 15⟩
    [.node "@" false ⟨13, 14⟩ [], .node "identifier" true ⟨14, 15⟩ []]

def decoratedTree : Tree :=
  .node "decorated_definition" true ⟨13, 41⟩ [decoratorTree, definitionTree 20 37]

def classTree : Tree :=
  .node "class_definition" true ⟨0, 41⟩
    [.node "class" false ⟨0, 5⟩ [], .node "identifier" true ⟨6, 7⟩ [],
      .node ":" false ⟨7, 8⟩ [], .node "block" true ⟨13, 41⟩ [decoratedTree]]

def tree : Tree := .node "module" true ⟨0, 60⟩ [classTree, definitionTree 42 55]

def methodNode : Node :=
  .child (.child (.child (.child (.root tree) [] classTree)
    classTree.children.dropLast.reverse (.node "block" true ⟨13, 41⟩ [decoratedTree]))
    [] decoratedTree) [decoratorTree] (definitionTree 20 37)

def functionNode : Node := .child (.root tree) [classTree] (definitionTree 42 55)

end DecoratedFile

open DecoratedFile

/-- The method is found as one and labelled as one, and so is the function. -/
theorem method_found_iff_label_eq_of_decorated_method :
    tree.DefinitionsPlain ∧
      (docstring.rule ⟨[.method], false⟩ false).search .python source tree = .ok [methodNode] ∧
      (docstring.rule ⟨[.function], false⟩ false).search .python source tree
        = .ok [functionNode] ∧
      ofNode methodNode = ⟨methodNode, "method"⟩ ∧
      ofNode functionNode = ⟨functionNode, "function"⟩ := by
  have hplain : tree.DefinitionsPlain := ⟨by decide, by decide⟩
  have hmethod : (docstring.rule ⟨[.method], false⟩ false).search .python source tree
      = .ok [methodNode] := rfl
  have hfunction : (docstring.rule ⟨[.function], false⟩ false).search .python source tree
      = .ok [functionNode] := rfl
  obtain ⟨methods, functions, hmethods, hfunctions, hlabel⟩ :=
    method_found_iff_label_eq hplain source
  have hm : methodNode ∈ methods false false := by
    rw [← Except.ok.inj (hmethod.symm.trans (hmethods false false))]
    exact List.mem_cons_self
  have hf : functionNode ∈ functions false false := by
    rw [← Except.ok.inj (hfunction.symm.trans (hfunctions false false))]
    exact List.mem_cons_self
  exact ⟨hplain, hmethod, hfunction, (hlabel methodNode rfl).1 false false hm,
    (hlabel functionNode rfl).2.1 false false hf⟩

end DocComments
