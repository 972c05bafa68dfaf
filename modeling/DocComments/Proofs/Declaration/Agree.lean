import DocComments.Declaration.Plan
import DocComments.Proofs.Declaration.Partition
import DocComments.Proofs.Pattern.Anchored
import DocComments.Proofs.Rule.Matches

/-!
# The rule and the comments agree

That a declaration is documented is asked twice: by a rule, when a pass selects declarations, and by
a walk over the neighbours of the declaration, when its comments are collected. On a tree as the
grammars make it (`Tree.Shaped`) the two agree (`matchesAt_documented_iff`): a pass that updates
comments finds one for every declaration it selects, and a pass that adds comments selects no
declaration that has one (`plan_update_treats_every_documented`).
-/

set_option autoImplicit false

namespace DocComments

open Node (On)

/-- What a grammar promises of the nodes that tell whether a declaration is documented. -/
structure Tree.Shaped (t : Tree) (style : CommentStyle) : Prop where
  /-- a node of a kind that the rule for documented declarations asks for has a name -/
  named : ∀ n ∈ (Node.root t).walk, n.kind ∈ style.documented.kinds → n.named = true
  /-- a definition has one body at most -/
  one_body : ∀ n ∈ (Node.root t).walk, n.kind ∈ CommentStyle.docstring.declarationKinds →
    (n.children.filter fun c => c.kind == "block").length ≤ 1

namespace Declaration

open Rule

/-! ## Comments in front of a declaration -/

section Preceding

variable {source : Text} {limit : Option Nat} {accept : Node → Bool} {n : Node}

/-- A declaration has a run of comments in front of it if the sibling directly in front is an
accepted comment. -/
theorem precedingComments_ne_nil_iff (hlimit : limit ≠ some 0) :
    precedingComments limit accept n ≠ [] ↔
      ∃ s, n.previous? = some s ∧ s.kind = commentKind ∧ accept s = true := by
  have hrun : precedingComments limit accept n ≠ [] ↔
      (n.earlierSiblings.takeWhile fun s => s.kind == commentKind && accept s) ≠ [] := by
    rw [precedingComments, ne_eq, List.reverse_eq_nil_iff]
    cases limit with
    | none => rfl
    | some count =>
      have hcount : count ≠ 0 := fun h => hlimit (h ▸ rfl)
      simp [List.take_eq_nil_iff, hcount]
  -- the run begins with the sibling directly in front, or it is empty
  rw [hrun, Node.previous?]
  cases n.earlierSiblings with
  | nil => simp
  | cons s rest => simp [List.takeWhile_cons]

/-- The written pattern of the rule asks for three slashes in front of the text. -/
theorem searchWritten_mark (t : Text) :
    Pattern.searchWritten ('^' :: SlashComment.mark) t = SlashComment.mark.isPrefixOf t := by
  have hread : Pattern.read? ('^' :: SlashComment.mark)
      = some (.seq (.here .textStart) (Pattern.literally SlashComment.mark)) := by cbv
  rw [Pattern.searchWritten, hread]
  exact Pattern.search_anchored _ t

theorem matchesAt_blockDocumented_iff {t : Tree} (hn : On t n)
    (hnamed : ∀ m ∈ (Node.root t).walk, m.kind = commentKind → m.named = true) :
    matchesAt source blockDocumented n = true ↔
      precedingComments (some 1) (fun _ => true) n ≠ [] := by
  rw [blockDocumented, matchesAt_afterSibling_iff, precedingComments_ne_nil_iff (by simp)]
  refine exists_congr fun s => and_congr_right fun hs => ?_
  have hon := Node.mem_walk_root_iff.mpr (hn.of_previous? hs)
  rw [matchesAt_kind_iff, and_iff_left rfl]
  exact and_iff_right_of_imp (hnamed s hon)

theorem matchesAt_slashDocumented_iff {t : Tree} (hn : On t n)
    (hnamed : ∀ m ∈ (Node.root t).walk, m.kind = commentKind → m.named = true) :
    matchesAt source slashDocumented n = true ↔
      precedingComments none (isSlashComment source) n ≠ [] := by
  rw [slashDocumented, matchesAt_afterSibling_iff, precedingComments_ne_nil_iff (by simp)]
  refine exists_congr fun s => and_congr_right fun hs => ?_
  have hon := Node.mem_walk_root_iff.mpr (hn.of_previous? hs)
  rw [matchesAt_all_iff, List.forall_mem_cons, List.forall_mem_singleton, matchesAt_kind_iff,
    matchesAt_pattern_iff, searchWritten_mark, isSlashComment]
  exact and_congr_left fun _ => and_iff_right_of_imp (hnamed s hon)

end Preceding

/-! ## Docstrings -/

section Docstring

variable {source : Text} {n : Node}

/-- Where a declaration has one block at most, that block is its body. -/
theorem body?_eq_some_iff (hone : (n.children.filter fun c => c.kind == "block").length ≤ 1)
    {body : Node} : body? n = some body ↔ body ∈ n.children ∧ body.kind = "block" := by
  have hmem : ∀ b, b ∈ (n.children.filter fun c => c.kind == "block") ↔
      b ∈ n.children ∧ b.kind = "block" := fun b => by simp
  rw [body?, ← List.head?_filter, ← hmem]
  generalize (n.children.filter fun c => c.kind == "block") = blocks at hone ⊢
  -- two blocks are ruled out, so that the first one is the only one
  match blocks with
  | [] => simp
  | [b] => simp [eq_comm]
  | b :: c :: more => simp at hone

/-- A declaration has a docstring if the first statement of a body holds a string. -/
theorem docstring?_ne_none_iff : docstring? n ≠ none ↔
    ∃ body, body? n = some body ∧ ∃ first,
      (body.children.find? fun c => c.named && c.kind != commentKind) = some first ∧
      first.kind = "expression_statement" ∧ ∃ s ∈ first.children, s.kind = "string" := by
  rw [Option.ne_none_iff_exists']
  simp only [docstring?, Option.bind_eq_bind, Option.bind_eq_some_iff]
  constructor
  · rintro ⟨s, body, hbody, first, hfirst, h⟩
    by_cases hkind : (first.kind == "expression_statement") = true
    · rw [if_pos hkind] at h
      exact ⟨body, hbody, first, hfirst, beq_iff_eq.mp hkind, s, List.mem_of_find?_eq_some h,
        by simpa using List.find?_some h⟩
    · rw [if_neg hkind] at h
      cases h
  · rintro ⟨body, hbody, first, hfirst, hkind, s, hs, hskind⟩
    have hfound : (first.children.find? fun c => c.kind == "string").isSome = true :=
      List.find?_isSome.mpr ⟨s, hs, by simpa using hskind⟩
    obtain ⟨found, hfound⟩ := Option.isSome_iff_exists.mp hfound
    exact ⟨found, body, hbody, first, hfirst, by rw [if_pos (beq_iff_eq.mpr hkind), hfound]⟩

/-- The first of the named children that the rule does not take for a comment is the first that is
no comment. -/
theorem matchesAt_firstStatement_iff {body first : Node} (hfirst : first ∈ body.children) :
    matchesAt source (nthOf 1 (.not (.kind commentKind))) first = true ↔
      (body.children.find? fun c => c.named && c.kind != commentKind) = some first := by
  rw [matchesAt_nthOf_one_not_iff hfirst]
  have hsame : (fun m : Node => m.named && !matchesAt source (.kind commentKind) m)
      = fun m => m.named && m.kind != commentKind := by
    funext m
    rw [matchesAt, yields]
    cases hnamed : m.named <;> cases hkind : m.kind == commentKind <;> simp [bne, hkind]
  rw [hsame]

theorem matchesAt_docstringDocumented_iff {t : Tree} (hn : On t n)
    (hnamed : ∀ m ∈ (Node.root t).walk,
      m.kind ∈ ["block", "expression_statement", "string"] → m.named = true)
    (hone : (n.children.filter fun c => c.kind == "block").length ≤ 1) :
    matchesAt source docstringDocumented n = true ↔ docstring? n ≠ none := by
  have hkind : ∀ {m : Node} {k : String}, On t m → k ∈ ["block", "expression_statement", "string"] →
      (matchesAt source (.kind k) m = true ↔ m.kind = k) := by
    intro m k hm hk
    rw [matchesAt_kind_iff]
    exact and_iff_right_of_imp fun h => hnamed m (Node.mem_walk_root_iff.mpr hm) (h ▸ hk)
  rw [docstring?_ne_none_iff, docstringDocumented, matchesAt_hasChild_iff]
  refine exists_congr fun body => ?_
  rw [body?_eq_some_iff hone, and_assoc]
  refine and_congr_right fun hbody => ?_
  have hbodyOn := hn.of_mem_children hbody
  rw [matchesAt_all_iff, List.forall_mem_cons, List.forall_mem_singleton, hkind hbodyOn (by simp),
    matchesAt_hasChild_iff]
  refine and_congr_right fun _ => exists_congr fun first => ?_
  rw [matchesAt_all_iff, List.forall_mem_cons, List.forall_mem_cons, List.forall_mem_singleton,
    matchesAt_hasChild_iff]
  -- the rule starts from any statement, the walk from the first one
  constructor
  · rintro ⟨hfirst, hstatement, hposition, s, hs, hstring⟩
    have hfirstOn := hbodyOn.of_mem_children hfirst
    have hsOn := hfirstOn.of_mem_children hs
    exact ⟨(matchesAt_firstStatement_iff hfirst).mp hposition,
      (hkind hfirstOn (by simp)).mp hstatement, s, hs, (hkind hsOn (by simp)).mp hstring⟩
  · rintro ⟨hposition, hstatement, s, hs, hstring⟩
    have hfirst := List.mem_of_find?_eq_some hposition
    have hfirstOn := hbodyOn.of_mem_children hfirst
    have hsOn := hfirstOn.of_mem_children hs
    exact ⟨hfirst, (hkind hfirstOn (by simp)).mpr hstatement,
      (matchesAt_firstStatement_iff hfirst).mpr hposition, s, hs,
      (hkind hsOn (by simp)).mpr hstring⟩

end Docstring

end Declaration

namespace CommentStyle

open Declaration Rule

section Styles

variable {style : CommentStyle} {source : Text} {t : Tree} {n : Node}

/-- The rule for documented declarations matches a declaration if comments are found for it. -/
theorem matchesAt_documented_iff (ht : t.Shaped style) (hn : On t n)
    (hkind : n.kind ∈ style.declarationKinds) :
    matchesAt source style.documented n = true ↔ style.commentNodes source n ≠ [] := by
  cases style with
  | block =>
    exact matchesAt_blockDocumented_iff hn fun m hm h => ht.named m hm (h ▸ by decide)
  | docstring =>
    have hone := ht.one_body n (Node.mem_walk_root_iff.mpr hn) hkind
    have hnamed : ∀ m ∈ (Node.root t).walk,
        m.kind ∈ ["block", "expression_statement", "string"] → m.named = true := by
      intro m hm h
      refine ht.named m hm ?_
      have hsub : ["block", "expression_statement", "string"] ⊆ docstring.documented.kinds := by
        decide
      exact hsub h
    rw [commentNodes]
    refine (matchesAt_docstringDocumented_iff hn hnamed hone).trans ?_
    simp
  | slashes =>
    exact matchesAt_slashDocumented_iff hn fun m hm h => ht.named m hm (h ▸ by decide)

end Styles

end CommentStyle

/-- The grammar of a language defines every kind that tells whether a declaration is documented. -/
theorem Language.knows_of_mem_documented_kinds (lang : Language) :
    ∀ k ∈ lang.style.documented.kinds, lang.knows k = true := by
  cases lang <;> decide

section Plan

open CommentStyle Rule

variable {lang : Language} {request : Request} {source : Text} {t : Tree} {withComment : Bool}
  {found : List Node}

/-- A search for documented declarations finds those that have comments, and a search for the others
finds those that have none. -/
theorem commentNodes_ne_nil_iff_of_mem_search (ht : t.Shaped lang.style)
    (h : (lang.style.rule request withComment).search lang source t = .ok found) {n : Node}
    (hn : n ∈ found) : lang.style.commentNodes source n ≠ [] ↔ withComment = true := by
  have hon := on_of_mem_search h hn
  have hleft := leftMatches_of_mem_search h hn
  -- the grammar knows all that the second part of the rule asks for: nothing of it is pruned
  have hknown := Tree.askedKindsKnown_of_forall lang.knows_of_mem_documented_kinds t
  rw [← matchesAt_documented_iff ht hon (kind_mem_of_mem_search h hn),
    ← leftMatches_iff_matchesAt hknown hon]
  cases withComment with
  | true => simpa using (leftMatches_rule_true_iff.mp hleft).2
  | false => simpa using (leftMatches_rule_false_iff.mp hleft).2

/-- A node with comments is planned by a pass that updates them. -/
theorem Planned.exists_ofNode?_update {style : CommentStyle} {n : Node}
    (h : style.commentNodes source n ≠ []) :
    ∃ p, Planned.ofNode? style .update source n = some p ∧
      p.matched = Snapshot.ofNode source n := by
  rw [Planned.ofNode?, Planned.place?]
  cases hnodes : style.commentNodes source n with
  | nil => exact absurd hnodes h
  | cons first more => exact ⟨_, rfl, rfl⟩

/-- Whatever is asked for: no comment is found for a declaration that the rule for declarations
without one selects, and some comment is found for every declaration that the rule for documented
ones selects, so that a pass that updates comments plans each of them, in order. -/
theorem plan_update_treats_every_documented (lang : Language) (request : Request) (source : Text)
    (t : Tree) (ht : t.Shaped lang.style) :
    ∃ bare documented planned,
      (lang.style.rule request false).search lang source t = .ok bare ∧
      (lang.style.rule request true).search lang source t = .ok documented ∧
      (∀ n ∈ bare, lang.style.commentNodes source n = []) ∧
      (∀ n ∈ documented, lang.style.commentNodes source n ≠ []) ∧
      plan lang request .update source t = .ok planned ∧
      (∀ n ∈ documented, (Planned.ofNode? lang.style .update source n).isSome = true) ∧
      planned.map Planned.matched = documented.map (Snapshot.ofNode source) := by
  obtain ⟨bare, hbare⟩ := exists_search_rule_eq_ok lang.style request false lang source t
  obtain ⟨documented, hdocumented⟩ := exists_search_rule_eq_ok lang.style request true lang source t
  have hnone : ∀ n ∈ bare, lang.style.commentNodes source n = [] := by
    intro n hn
    simpa using (commentNodes_ne_nil_iff_of_mem_search ht hbare hn).not
  have hsome : ∀ n ∈ documented, lang.style.commentNodes source n ≠ [] :=
    fun n hn => (commentNodes_ne_nil_iff_of_mem_search ht hdocumented hn).mpr rfl
  have hplan : plan lang request .update source t
      = .ok (documented.filterMap (Planned.ofNode? lang.style .update source)) := by
    rw [plan, Pass.rule, show (Pass.update == Pass.update) = true from rfl, hdocumented]
    rfl
  refine ⟨bare, documented, _, hbare, hdocumented, hnone, hsome, hplan, ?_, ?_⟩
  · intro n hn
    obtain ⟨p, hp, -⟩ := Planned.exists_ofNode?_update (hsome n hn)
    rw [hp, Option.isSome_some]
  · rw [List.map_filterMap, ← List.filterMap_eq_map]
    refine List.filterMap_congr fun n hn => ?_
    obtain ⟨p, hp, hmatched⟩ := Planned.exists_ofNode?_update (hsome n hn)
    rw [hp, Option.map_some, hmatched]
    rfl

/-- Of two functions, the first with a docstring, an update plans the first. -/
theorem plan_update_treats_a_function_with_docstring :
    let source : Text := "def f():\n    'a'\ndef g():\n    pass\n".toList
    let first : Tree := .node "function_definition" true ⟨0, 16⟩ [.node "block" true ⟨13, 16⟩
      [.node "expression_statement" true ⟨13, 16⟩ [.node "string" true ⟨13, 16⟩ []]]]
    let second : Tree := .node "function_definition" true ⟨17, 34⟩ [.node "block" true ⟨30, 34⟩
      [.node "pass_statement" true ⟨30, 34⟩ []]]
    let t : Tree := .node "module" true ⟨0, 35⟩ [first, second]
    t.Shaped Language.python.style ∧
      ∃ planned, plan .python ⟨[.function], false⟩ .update source t = .ok planned ∧
        planned.map Planned.matched = [Snapshot.ofNode source (.child (.root t) [] first)] := by
  intro source first second t
  have hshaped : t.Shaped Language.python.style := by
    refine ⟨fun n hn _ => ?_, fun n hn _ => ?_⟩
    · have hall : (Node.root t).walk.all Node.named = true := by decide
      exact List.all_eq_true.mp hall n hn
    · have hall : ((Node.root t).walk.all fun n =>
          decide ((n.children.filter fun c => c.kind == "block").length ≤ 1)) = true := by decide
      simpa using List.all_eq_true.mp hall n hn
  obtain ⟨bare, documented, planned, -, hdocumented, -, -, hplan, -, hmatched⟩ :=
    plan_update_treats_every_documented .python ⟨[.function], false⟩ source t hshaped
  have hfound : (CommentStyle.docstring.rule ⟨[.function], false⟩ true).search .python source t
      = .ok [.child (.root t) [] first] := rfl
  obtain rfl := Except.ok.inj (hdocumented.symm.trans hfound)
  exact ⟨hshaped, planned, hplan, hmatched⟩

end Plan

end DocComments
