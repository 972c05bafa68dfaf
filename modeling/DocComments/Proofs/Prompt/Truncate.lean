import DocComments.Prompt.Tokens
import DocComments.Proofs.Text.Cut
import Mathlib.Algebra.GroupWithZero.Nat

/-!
# Truncated texts

A text that is cut to a number of its tokens should be a proper piece of it from the front, with no
more bytes than these tokens have. This is so when the tokens end between two characters. When they
end inside of a character a number of characters is kept instead, and then it depends on how many
characters the tokens hold: `truncate_shortens_iff` says exactly when the text gets as short as it
should, and `truncate_keeps_whole_text` is a text that does not get shorter at all.
-/

set_option autoImplicit false

namespace DocComments

namespace Text

theorem prefix_takeBytes (n : Nat) (t : Text) : takeBytes n t <+: t :=
  ⟨dropBytes n t, takeBytes_append_dropBytes n t⟩

/-- The first characters of a text fit into a number of bytes exactly if no more of them are taken
than the longest piece in front that fits has. -/
theorem byteSize_take_le_iff {n k : Nat} {t : Text} (h : n < byteSize t) :
    byteSize (t.take k) ≤ n ↔ k ≤ (takeBytes n t).length := by
  induction t generalizing n k with
  | nil => exact absurd h (Nat.not_lt_zero n)
  | cons c t ih =>
    rw [byteSize_cons] at h
    cases k with
    | zero => simp
    | succ k =>
      rw [List.take_succ_cons, byteSize_cons, takeBytes]
      by_cases hc : c.utf8Size ≤ n
      · have hrest : n - c.utf8Size < byteSize t := by omega
        rw [if_pos hc, List.length_cons, Nat.add_le_add_iff_right, ← ih hrest]
        omega
      · rw [if_neg hc, List.length_nil]
        omega

end Text

open Text (byteSize isBoundary takeBytes)

namespace Tokenizer

variable {tk : Tokenizer} {limit : Nat} {t : Text}

/-- The tokens of a text are not empty and make up the whole text. -/
structure IsSplit (tk : Tokenizer) (t : Text) : Prop where
  pos : ∀ size ∈ tk.sizes t, 0 < size
  sum : (tk.sizes t).sum = byteSize t

def headSize (tk : Tokenizer) (limit : Nat) (t : Text) : Nat := ((tk.sizes t).take limit).sum

/-- Some tokens, but not all, have fewer bytes than the text. -/
theorem IsSplit.headSize_lt (h : tk.IsSplit t) (hlimit : limit < tk.count t) :
    tk.headSize limit t < byteSize t := by
  -- the first token that is left out has a byte
  have hrest : (tk.sizes t).drop limit = (tk.sizes t)[limit] :: (tk.sizes t).drop (limit + 1) :=
    List.drop_eq_getElem_cons hlimit
  have hnext : 0 < (tk.sizes t)[limit] := h.pos _ (List.getElem_mem hlimit)
  calc tk.headSize limit t
      < tk.headSize limit t + (tk.sizes t)[limit] := Nat.lt_add_of_pos_right hnext
    _ ≤ tk.headSize limit t + ((tk.sizes t).drop limit).sum := by
        rw [hrest, List.sum_cons]
        omega
    _ = byteSize t := by
        rw [headSize, ← List.sum_append, List.take_append_drop, h.sum]

/-- How a text with too many tokens is cut. -/
theorem truncate_of_lt_count (hlimit : limit < tk.count t) :
    tk.truncate limit t =
      if isBoundary (tk.headSize limit t) t then takeBytes (tk.headSize limit t) t
      else t.take (charsPerToken * limit) := by
  have hmany : ¬ (tk.sizes t).length ≤ limit := Nat.not_le.mpr hlimit
  rw [truncate, if_neg hmany, headSize, List.sum_eq_foldr]

theorem truncate_of_isBoundary (hlimit : limit < tk.count t)
    (h : isBoundary (tk.headSize limit t) t = true) :
    tk.truncate limit t = takeBytes (tk.headSize limit t) t := by
  rw [truncate_of_lt_count hlimit, if_pos h]

theorem truncate_of_not_isBoundary (hlimit : limit < tk.count t)
    (h : ¬ isBoundary (tk.headSize limit t) t = true) :
    tk.truncate limit t = t.take (charsPerToken * limit) := by
  rw [truncate_of_lt_count hlimit, if_neg h]

/-- Whatever is kept stands in front. -/
theorem prefix_truncate (tk : Tokenizer) (limit : Nat) (t : Text) : tk.truncate limit t <+: t := by
  by_cases hlimit : tk.count t ≤ limit
  · exact ⟨[], by rw [truncate_of_count_le hlimit, List.append_nil]⟩
  · by_cases h : isBoundary (tk.headSize limit t) t = true
    · rw [truncate_of_isBoundary (Nat.lt_of_not_le hlimit) h]
      exact Text.prefix_takeBytes _ t
    · rw [truncate_of_not_isBoundary (Nat.lt_of_not_le hlimit) h]
      exact List.take_prefix _ t

/-- A text is cut in front of the end of its first tokens exactly if these tokens end between two
characters or hold as many whole characters as are kept for tokens that do not. -/
theorem byteSize_truncate_le_iff (hsplit : tk.IsSplit t) (hlimit : limit < tk.count t) :
    byteSize (tk.truncate limit t) ≤ tk.headSize limit t ↔
      isBoundary (tk.headSize limit t) t = true ∨
        charsPerToken * limit ≤ (takeBytes (tk.headSize limit t) t).length := by
  by_cases h : isBoundary (tk.headSize limit t) t = true
  · rw [truncate_of_isBoundary hlimit h]
    exact iff_of_true (Text.byteSize_takeBytes_le _ t) (.inl h)
  · rw [truncate_of_not_isBoundary hlimit h,
      Text.byteSize_take_le_iff (hsplit.headSize_lt hlimit)]
    exact (or_iff_right h).symm

/-- A text with more tokens than it may have, however it is split into tokens that are not empty.
What is kept of it stands in front. If the first tokens end between two characters it is they that
are kept. It is less than the text and has no more bytes than the first tokens exactly if these end
between two characters or hold at least four whole characters for each of them. -/
theorem truncate_shortens_iff (hsplit : tk.IsSplit t) (hlimit : limit < tk.count t) :
    tk.truncate limit t <+: t ∧
    (isBoundary (tk.headSize limit t) t = true →
      byteSize (tk.truncate limit t) = tk.headSize limit t) ∧
    (tk.truncate limit t ≠ t ∧ byteSize (tk.truncate limit t) ≤ tk.headSize limit t ↔
      isBoundary (tk.headSize limit t) t = true ∨
        4 * limit ≤ (takeBytes (tk.headSize limit t) t).length) := by
  refine ⟨prefix_truncate tk limit t, ?_, ?_⟩
  · intro h
    rw [truncate_of_isBoundary hlimit h, Text.byteSize_takeBytes h]
  · refine Iff.trans ?_ (byteSize_truncate_le_iff hsplit hlimit)
    constructor
    · exact And.right
    · intro hle
      refine ⟨?_, hle⟩
      intro hwhole
      -- the whole text has more bytes than the first tokens
      have hlt := hsplit.headSize_lt hlimit
      rw [hwhole] at hle
      omega

/-! ## Two characters of two tokens each -/

def faces : Text := "😀😀".toList

/-- A tokenizer that cuts off the last byte of the character, and every byte of other texts. -/
def fine : Tokenizer :=
  ⟨fun t => if t = faces then [3, 1, 3, 1] else List.replicate (byteSize t) 1⟩

theorem isSplit_fine : fine.IsSplit faces :=
  ⟨by decide, by decide⟩

/-- Two of the four tokens are the first character. -/
theorem truncate_shortens_faces :
    fine.IsSplit faces ∧ 2 < fine.count faces ∧ fine.truncate 2 faces ≠ faces ∧
      byteSize (fine.truncate 2 faces) ≤ fine.headSize 2 faces := by
  have hlimit : 2 < fine.count faces := by decide
  obtain ⟨-, -, hiff⟩ := truncate_shortens_iff isSplit_fine hlimit
  exact ⟨isSplit_fine, hlimit, hiff.mpr (.inl (by decide))⟩

/-- One of the four tokens ends inside of the first character, and the whole text is kept. -/
theorem truncate_keeps_whole_text :
    fine.IsSplit faces ∧ 1 < fine.count faces ∧
      ¬ (fine.truncate 1 faces ≠ faces ∧
        byteSize (fine.truncate 1 faces) ≤ fine.headSize 1 faces) := by
  refine ⟨isSplit_fine, by decide, ?_⟩
  rintro ⟨hproper, -⟩
  exact hproper (by decide)

end Tokenizer

end DocComments
