import DocComments.Proofs.Text.Line
import Mathlib.Data.Prod.Lex

/-!
# The position of an offset

The position of an offset is its line and its column there. A walk down to that line and so many
characters to the right leads back to the offset (`walk?_position`), and of two offsets the later
one has the later position (`position_lt_position_iff`). Both go by what stands in front of the
offset: its line feeds, and what follows the last of them.
-/

set_option autoImplicit false

namespace DocComments

namespace Text

/-! ## Walks -/

/-- The bytes of some characters. They are all on the first line. -/
def right? : Nat → Text → Option Nat
  | 0, _ => some 0
  | _ + 1, [] => none
  | column + 1, c :: rest =>
    if c = '\n' then none else (right? column rest).map (c.utf8Size + ·)

/-- The bytes of a walk down some lines and then some characters to the right. -/
def walk? : Nat → Nat → Text → Option Nat
  | 0, column, t => right? column t
  | _ + 1, _, [] => none
  | down + 1, column, c :: rest =>
    (walk? (if c = '\n' then down else down + 1) column rest).map (c.utf8Size + ·)

theorem right?_length_append {s : Text} (h : '\n' ∉ s) (t : Text) :
    right? s.length (s ++ t) = some (byteSize s) := by
  induction s with
  | nil => rfl
  | cons c s ih =>
    rw [List.mem_cons, not_or] at h
    rw [List.length_cons, List.cons_append, right?, if_neg (Ne.symm h.1), ih h.2]
    rfl

theorem lastLine_of_not_mem {t : Text} (h : '\n' ∉ t) : lastLine t = t :=
  lastLine_append_of_not_mem (s := []) h

theorem lastLine_cons_of_mem {c : Char} {t : Text} (h : '\n' ∈ c :: t) :
    lastLine (c :: t) = lastLine t := by
  by_cases ht : '\n' ∈ t
  · exact lastLine_append_of_mem (s := [c]) ht
  · obtain rfl : '\n' = c := (List.mem_cons.mp h).resolve_right ht
    exact (lastLine_append_of_not_mem (s := ['\n']) ht).trans (lastLine_of_not_mem ht).symm

theorem lineBreaks_append (s t : Text) : lineBreaks (s ++ t) = lineBreaks s + lineBreaks t :=
  List.count_append

theorem lineBreaks_pos_iff {t : Text} : 0 < lineBreaks t ↔ '\n' ∈ t := List.count_pos_iff

/-- A line feed is one line, wherever it stands. -/
theorem exists_lineBreaks_cons {c : Char} {t : Text} (h : '\n' ∈ c :: t) :
    ∃ down, lineBreaks (c :: t) = down + 1 ∧
      (if c = '\n' then down else down + 1) = lineBreaks t := by
  by_cases hc : c = '\n'
  · subst hc
    exact ⟨lineBreaks t, List.count_cons_self, if_pos rfl⟩
  · have hmem : '\n' ∈ t := (List.mem_cons.mp h).resolve_left (Ne.symm hc)
    have hsame : lineBreaks (c :: t) = lineBreaks t := List.count_cons_of_ne hc
    obtain ⟨down, hdown⟩ := Nat.exists_eq_succ_of_ne_zero (lineBreaks_pos_iff.mpr hmem).ne'
    exact ⟨down, hsame.trans hdown, (if_neg hc).trans hdown.symm⟩

/-- A walk by the line feeds of a piece in front and by its last line goes to the end of the
piece. -/
theorem walk?_append (s t : Text) :
    walk? (lineBreaks s) (lastLine s).length (s ++ t) = some (byteSize s) := by
  -- while there is a line feed to come the walk goes down, and then to the right
  induction s with
  | nil =>
    show walk? 0 0 t = some 0
    rw [walk?, right?]
  | cons c s ih =>
    by_cases h : '\n' ∈ c :: s
    · obtain ⟨down, hdown, hrest⟩ := exists_lineBreaks_cons h
      rw [hdown, lastLine_cons_of_mem h, List.cons_append, walk?, hrest, ih]
      rfl
    · have hflat : lineBreaks (c :: s) = 0 := List.count_eq_zero.mpr h
      rw [hflat, lastLine_of_not_mem h]
      exact right?_length_append h t

/-! ## Positions -/

/-- The line of an offset, counting from one, and the characters in front of it there. -/
def position (n : Nat) (t : Text) : Nat ×ₗ Nat :=
  toLex (lineBreaks (takeBytes n t) + 1, (lead n t).length)

section Offset

variable {m n : Nat} {t : Text}

theorem walk?_position (hn : isBoundary n t = true) :
    walk? (lineBreaks (takeBytes n t)) (lead n t).length t = some n := by
  have h := walk?_append (takeBytes n t) (dropBytes n t)
  rwa [takeBytes_append_dropBytes, byteSize_takeBytes hn] at h

example : walk? 1 2 "é\r\n\t日x".toList = some 8 := by decide

theorem position_lt_of_lt (hmn : m < n) (hm : isBoundary m t = true) (hn : isBoundary n t = true) :
    position m t < position n t := by
  have hsplit := ByteRange.takeBytes_append_slice hmn.le hm hn
  have hne : ByteRange.slice ⟨m, n⟩ t ≠ [] := by
    intro hnil
    rw [hnil, List.append_nil] at hsplit
    have hsize := congrArg byteSize hsplit
    rw [byteSize_takeBytes hm, byteSize_takeBytes hn] at hsize
    omega
  rw [position, position, Prod.Lex.toLex_lt_toLex]
  dsimp only
  rw [lead, lead, ← hsplit, lineBreaks_append]
  -- a line feed between the two makes the line a later one; otherwise the column grows
  by_cases hline : '\n' ∈ ByteRange.slice ⟨m, n⟩ t
  · have hpos := lineBreaks_pos_iff.mpr hline
    exact .inl (by omega)
  · have hpos := List.length_pos_iff.mpr hne
    have hflat : lineBreaks (ByteRange.slice ⟨m, n⟩ t) = 0 := List.count_eq_zero.mpr hline
    rw [lastLine_append_of_not_mem hline, List.length_append, hflat]
    exact .inr ⟨rfl, by omega⟩

theorem position_lt_position_iff (hm : isBoundary m t = true) (hn : isBoundary n t = true) :
    position m t < position n t ↔ m < n := by
  constructor
  · intro h
    by_contra hle
    rcases (Nat.not_lt.mp hle).eq_or_lt with rfl | hlt
    · exact lt_irrefl _ h
    · exact lt_asymm h (position_lt_of_lt hlt hn hm)
  · intro h
    exact position_lt_of_lt h hm hn

end Offset

end Text

end DocComments
