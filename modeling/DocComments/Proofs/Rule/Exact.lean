import DocComments.Rule.Search
import DocComments.Proofs.Pattern.Anchored

/-!
# Rules that ask for one text

`Rule.text` quotes a text and anchors it at both ends. Whatever the text, the pattern written that
way is read as the characters of the text between two anchors (`Pattern.readExpr?_exactly`), these
match the text and nothing else (`Pattern.search_exactExpr_iff`), and so the rule matches the nodes
with exactly this text (`Rule.text_matches_iff`).
-/

set_option autoImplicit false

namespace DocComments

namespace Pattern

variable {fuel : Nat} {flags : Flags} {names : List Text} {finished : List Expr} {pieces : Pieces}
  {c : Char} {s t rest : Text}

/-! ## Reading a quoted text -/

theorem readEscape_of_isSpecial (hc : isSpecial c = true) (rest : Text) :
    readEscape (c :: rest) = some (.literal c, rest) := by
  have hmem : c ∈ specialChars := List.contains_iff_mem.mp hc
  simp only [specialChars, List.mem_cons, List.not_mem_nil, or_false] at hmem
  rcases hmem with rfl | rfl | rfl | rfl | rfl | rfl | rfl | rfl | rfl | rfl | rfl | rfl | rfl |
    rfl | rfl | rfl | rfl | rfl <;> rfl

/-- A backslash takes the meaning of its own from a character. -/
theorem readGroup_of_isSpecial (hc : isSpecial c = true) :
    readGroup (fuel + 1) flags names finished pieces ('\\' :: c :: rest)
      = readGroup fuel flags names finished (literal flags c :: pieces) rest := by
  rw [readGroup, readEscape_of_isSpecial hc]
  rfl

/-- A character without a meaning of its own stands for itself. -/
theorem readGroup_of_not_isSpecial (hc : isSpecial c = false) :
    readGroup (fuel + 1) flags names finished pieces (c :: rest)
      = readGroup fuel flags names finished (literal flags c :: pieces) rest := by
  have hne : ∀ d, isSpecial d = true → c ≠ d := by
    rintro d hd rfl
    rw [hc] at hd
    cases hd
  rw [readGroup]
  all_goals exact hne _ rfl

/-- A quoted text is read as its characters, with a step for each of them. -/
theorem readGroup_quote :
    readGroup (fuel + t.length) flags names finished pieces (quote t ++ rest)
      = readGroup fuel flags names finished ((t.map (literal flags)).reverse ++ pieces) rest := by
  induction t generalizing pieces with
  | nil => rfl
  | cons c t ih =>
    have hfirst : readGroup (fuel + t.length + 1) flags names finished pieces
        (quote (c :: t) ++ rest) =
        readGroup (fuel + t.length) flags names finished (literal flags c :: pieces)
          (quote t ++ rest) := by
      rw [quote]
      cases hc : isSpecial c with
      | true => exact readGroup_of_isSpecial hc
      | false => exact readGroup_of_not_isSpecial hc
    rw [List.length_cons, ← Nat.add_assoc, hfirst, ih, List.map_cons, List.reverse_cons,
      List.append_assoc, List.singleton_append]

theorem length_le_length_quote (t : Text) : t.length ≤ (quote t).length := by
  induction t with
  | nil => exact Nat.le_refl 0
  | cons c t ih =>
    rw [quote]
    split
    · rw [List.length_cons, List.length_cons, List.length_cons]
      omega
    · rw [List.length_cons, List.length_cons]
      omega

def exactPieces (t : Text) : List Expr :=
  .here .textStart :: (t.map (literal {}) ++ [.here .textEnd])

def exactExpr (t : Text) : Expr := .either [.concat (exactPieces t)]

theorem depths_exactPieces (t : Text) : Expr.depths (exactPieces t) = 0 := by
  have hone : ∀ es, Expr.depths (t.map (literal {}) ++ es) = Expr.depths es := by
    intro es
    induction t with
    | nil => rfl
    | cons c t ih =>
      rw [List.map_cons, List.cons_append, Expr.depths, ih]
      exact Nat.zero_max _
  rw [exactPieces, Expr.depths, hone]
  rfl

theorem isShallow_exactExpr (t : Text) : (exactExpr t).isShallow = true := by
  have hconcat : (Expr.concat (exactPieces t)).depth ≤ 1 := by
    rw [Expr.depth, depths_exactPieces]
    split
    · exact Nat.zero_le 1
    · exact Nat.le_refl 1
  have hdepth : (exactExpr t).depth = max (Expr.concat (exactPieces t)).depth 0 := rfl
  rw [Expr.isShallow, hdepth, Nat.max_zero]
  exact decide_eq_true (Nat.le_trans hconcat (by decide))

/-- Every text can be quoted: what is read is its characters between the anchors. -/
theorem readExpr?_exactly (t : Text) : readExpr? (exactly t) = some (exactExpr t) := by
  obtain ⟨more, hmore⟩ := Nat.exists_eq_add_of_le (length_le_length_quote t)
  -- a step for each anchor, for each character and for the end
  have hfuel : (exactly t).length + 1 = more + 2 + t.length + 1 := by
    rw [exactly, List.cons_append, List.length_cons, List.length_append, hmore,
      List.length_singleton]
    omega
  have hread : readGroup ((exactly t).length + 1) {} [] [] [] (exactly t)
      = some (exactExpr t, [], []) := by
    rw [hfuel, exactly, List.cons_append]
    show readGroup (more + 2 + t.length) {} [] [] [.here .textStart] (quote t ++ ['$']) = _
    rw [readGroup_quote]
    show some (ofBranches [] (.here .textEnd :: ((t.map (literal {})).reverse
      ++ [.here .textStart])), [], []) = _
    simp [ofBranches, ofPieces, exactExpr, exactPieces]
  rw [readExpr?, hread]
  dsimp only
  rw [if_pos (isShallow_exactExpr t)]

/-! ## What it matches -/

theorem toPattern_exactExpr (t : Text) :
    (exactExpr t).toPattern = concat (here .textStart :: (literals t ++ [here .textEnd])) := by
  have hliterals : ∀ es, Expr.toPatterns (t.map (literal {}) ++ es)
      = literals t ++ Expr.toPatterns es := by
    intro es
    induction t with
    | nil => rfl
    | cons c t ih => exact congrArg (one (.single c) :: ·) ih
  simp only [exactExpr, exactPieces, Expr.toPattern, Expr.toPatterns, hliterals, anyOf]

/-- The characters of a text between its beginning and its end are found in this text only. -/
theorem search_exactExpr_iff : search (exactExpr t).toPattern s = true ↔ s = t := by
  rw [toPattern_exactExpr, search_iff]
  simp only [matches_concat_textStart_cons_iff, matches_concat_literals_textEnd_iff]
  constructor
  · rintro ⟨front, piece, back, rfl, hbefore, hafter, rfl⟩
    -- nothing stands in front of the piece and nothing behind it
    obtain rfl := List.getLast?_eq_none_iff.mp hbefore
    obtain rfl := List.head?_eq_none_iff.mp hafter
    simp
  · rintro rfl
    exact ⟨[], s, [], (List.append_nil s).symm, rfl, rfl, rfl⟩

theorem searchWritten_exactly_iff : searchWritten (exactly t) s = true ↔ s = t := by
  rw [searchWritten, read?, readExpr?_exactly]
  exact search_exactExpr_iff

end Pattern

namespace Rule

/-- For every text the rule matches the nodes with exactly this text. Its pattern is one that can
be read, so that a search finds these nodes unless the networks of the pattern are too large. -/
theorem text_matches_iff (t source : Text) :
    (∀ n : Node, matchesAt source (text t) n = true ↔ n.text source = t) ∧
    (∃ e, Pattern.readExpr? (Pattern.exactly t) = some e ∧
      ∀ (lang : Language) (tree : Tree), search (text t) lang source tree =
        if (Pattern.Normal.ofExpr e).fits then
          .ok ((Node.root tree).walk.filter fun n => n.text source = t)
        else .error {}) := by
  have hmatch : ∀ n : Node, matchesAt source (text t) n = true ↔ n.text source = t := by
    intro n
    rw [matchesAt, text, yields, ← Pattern.searchWritten_exactly_iff]
    split
    · rename_i h
      exact iff_of_true rfl h
    · rename_i h
      exact iff_of_false Bool.false_ne_true h
  refine ⟨hmatch, _, Pattern.readExpr?_exactly t, fun lang tree => ?_⟩
  have hvalid : patternsValid (text t) = (Pattern.Normal.ofExpr (Pattern.exactExpr t)).fits := by
    rw [text, patternsValid, Pattern.isValid, Pattern.readExpr?_exactly]
    rfl
  have hfilter : (Node.root tree).walk.filter (matchesAt source (text t))
      = (Node.root tree).walk.filter fun n => n.text source = t := by
    refine List.filter_congr fun n _ => ?_
    rw [Bool.eq_iff_iff, hmatch, decide_eq_true_iff]
  have hcompile : compile (text t) lang
      = if patternsValid (text t) then .ok (some (text t)) else .error {} := by
    rw [compile, text, prune]
  rw [search, hcompile, hvalid, ← hfilter]
  split
  · rfl
  · rfl

end Rule

end DocComments
