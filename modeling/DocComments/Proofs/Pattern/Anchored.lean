import DocComments.Pattern.Reader
import DocComments.Proofs.Pattern.Search

/-!
# Patterns that are anchored at the beginning

A literal text matches itself only (`matches_concat_literals_append_iff`). Behind the anchor of the
beginning it is found exactly in the texts that begin with it (`search_anchored`).
-/

set_option autoImplicit false

namespace DocComments

namespace Pattern

variable {p : Pattern} {ps qs : List Pattern} {before after : Option Char} {c : Char} {s t : Text}

/-- Patterns in a row match pieces in a row. -/
theorem matches_concat_cons_iff :
    Matches (concat (p :: ps)) before s after ↔ Matches (seq p (concat ps)) before s after := by
  cases ps with
  | nil =>
    show Matches p before s after ↔ Matches (seq p empty) before s after
    rw [matches_seq_iff]
    constructor
    · intro h
      exact ⟨s, [], (List.append_nil s).symm, h, .empty⟩
    · rintro ⟨front, back, rfl, h, hback⟩
      rw [matches_empty_iff] at hback
      subst hback
      rwa [List.append_nil]
  | cons q ps => exact Iff.rfl

/-- Patterns in a row and more of them match pieces in a row. -/
theorem matches_concat_append_iff :
    Matches (concat (ps ++ qs)) before s after ↔
      ∃ front back, s = front ++ back ∧ Matches (concat ps) before front (back.head?.or after) ∧
        Matches (concat qs) (front.getLast?.or before) back after := by
  induction ps generalizing before s with
  | nil =>
    constructor
    · intro h
      exact ⟨[], s, rfl, .empty, h⟩
    · rintro ⟨front, back, rfl, hfront, h⟩
      obtain rfl := matches_empty_iff.mp hfront
      exact h
  | cons p ps ih =>
    rw [List.cons_append, matches_concat_cons_iff, matches_seq_iff]
    constructor
    · rintro ⟨first, rest, rfl, hfirst, hrest⟩
      obtain ⟨front, back, rfl, hfront, hback⟩ := ih.mp hrest
      refine ⟨first ++ front, back, (List.append_assoc _ _ _).symm,
        matches_concat_cons_iff.mpr (matches_seq_iff.mpr ⟨first, front, rfl, ?_, hfront⟩), ?_⟩
      · rwa [← Option.or_assoc, ← List.head?_append]
      · rwa [List.getLast?_append, Option.or_assoc]
    · rintro ⟨front, back, rfl, hfront, hback⟩
      obtain ⟨first, rest, rfl, hfirst, hrest⟩ :=
        matches_seq_iff.mp (matches_concat_cons_iff.mp hfront)
      refine ⟨first, rest ++ back, List.append_assoc _ _ _, ?_,
        ih.mpr ⟨rest, back, rfl, hrest, ?_⟩⟩
      · rwa [List.head?_append, Option.or_assoc]
      · rwa [← Option.or_assoc, ← List.getLast?_append]
theorem matches_one_single_iff : Matches (one (.single c)) before s after ↔ s = [c] := by
  rw [matches_one_iff]
  constructor
  · rintro ⟨d, rfl, hd⟩
    rw [CharClass.contains_single.mp hd]
  · rintro rfl
    exact ⟨c, rfl, CharClass.contains_single.mpr rfl⟩

def literals (t : Text) : List Pattern := t.map fun c => one (.single c)

/-- The pattern that matches one text, character by character. -/
def literally (w : Text) : Pattern := concat (literals w)

/-- What begins with the characters of a text matches this text and what is behind it. -/
theorem matches_concat_literals_append_iff :
    Matches (concat (literals t ++ ps)) before s after ↔
      ∃ back, s = t ++ back ∧ Matches (concat ps) (t.getLast?.or before) back after := by
  induction t generalizing before s with
  | nil =>
    constructor
    · intro h
      exact ⟨s, rfl, h⟩
    · rintro ⟨back, rfl, h⟩
      exact h
  | cons d t ih =>
    rw [literals, List.map_cons, List.cons_append, matches_concat_cons_iff, matches_seq_iff,
      getLast?_cons_or]
    constructor
    · rintro ⟨front, rest, rfl, hone, hrest⟩
      obtain rfl := matches_one_single_iff.mp hone
      obtain ⟨back, rfl, h⟩ := ih.mp hrest
      exact ⟨back, rfl, h⟩
    · rintro ⟨back, rfl, h⟩
      exact ⟨[d], t ++ back, rfl, matches_one_single_iff.mpr rfl, ih.mpr ⟨back, rfl, h⟩⟩

theorem matches_literally_iff : Matches (literally t) before s after ↔ s = t := by
  rw [literally, ← List.append_nil (literals t), matches_concat_literals_append_iff]
  constructor
  · rintro ⟨back, rfl, hback⟩
    obtain rfl := matches_empty_iff.mp hback
    exact List.append_nil t
  · rintro rfl
    exact ⟨[], (List.append_nil s).symm, .empty⟩

/-- What is anchored at the beginning has nothing in front of it. -/
theorem matches_concat_textStart_cons_iff :
    Matches (concat (here .textStart :: ps)) before s after ↔
      before = none ∧ Matches (concat ps) none s after := by
  rw [matches_concat_cons_iff, matches_seq_iff]
  constructor
  · rintro ⟨start, rest, rfl, hstart, hrest⟩
    obtain ⟨rfl, hbefore⟩ := matches_here_iff.mp hstart
    obtain rfl : before = none := Option.isNone_iff_eq_none.mp hbefore
    exact ⟨rfl, hrest⟩
  · rintro ⟨rfl, hrest⟩
    exact ⟨[], s, rfl, .here rfl, hrest⟩

/-- The characters of a text in front of the anchor of the end match this text, where nothing is
behind it. -/
theorem matches_concat_literals_textEnd_iff :
    Matches (concat (literals t ++ [here .textEnd])) before s after ↔ after = none ∧ s = t := by
  rw [matches_concat_literals_append_iff]
  constructor
  · rintro ⟨stop, rfl, hstop⟩
    obtain ⟨rfl, hafter⟩ := matches_here_iff.mp hstop
    exact ⟨Option.isNone_iff_eq_none.mp hafter, List.append_nil t⟩
  · rintro ⟨rfl, rfl⟩
    exact ⟨[], (List.append_nil s).symm, .here rfl⟩

/-- A literal text behind the anchor of the beginning is found exactly in the texts that begin with
it. -/
theorem search_anchored (w t : Text) :
    search (seq (here .textStart) (literally w)) t = w.isPrefixOf t := by
  rw [Bool.eq_iff_iff, search_iff, List.isPrefixOf_iff_prefix]
  constructor
  · rintro ⟨front, piece, back, rfl, h⟩
    obtain ⟨start, rest, rfl, hstart, hrest⟩ := matches_seq_iff.mp h
    obtain ⟨rfl, hbefore⟩ := matches_here_iff.mp hstart
    obtain rfl := matches_literally_iff.mp hrest
    -- nothing stands in front of the piece
    obtain rfl := List.getLast?_eq_none_iff.mp (Option.isNone_iff_eq_none.mp hbefore)
    exact List.prefix_append rest back
  · rintro ⟨back, rfl⟩
    refine ⟨[], w, back, rfl, matches_seq_iff.mpr ?_⟩
    exact ⟨[], w, rfl, matches_here_iff.mpr ⟨rfl, rfl⟩, matches_literally_iff.mpr rfl⟩

end Pattern

end DocComments
