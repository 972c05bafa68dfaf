import DocComments.Text.Case

/-!
# The lower case of blanks and of ASCII letters

Blanks have no letter case (`toLower_of_allBlank`), and outside ASCII no letter is taken for an
ASCII one: a text that is a word of small ASCII letters up to ASCII case has this word as its lower
case (`toLower_of_map_toLower`).
-/

set_option autoImplicit false

namespace DocComments

namespace Text

variable {c : Char} {t w : Text}

theorem toLower_append (s t : Text) : toLower (s ++ t) = toLower s ++ toLower t :=
  List.flatMap_append

theorem toLower_cons_of_ne (hc : c ≠ '\u0130') (t : Text) :
    toLower (c :: t) = lowerChar c :: toLower t := by
  simp [toLower, hc]

/-! ## Blanks -/

def blankCodes : List Nat :=
  [9, 10, 11, 12, 13, 0x20, 0x85, 0xA0, 0x1680, 0x2000, 0x2001, 0x2002, 0x2003, 0x2004, 0x2005,
    0x2006, 0x2007, 0x2008, 0x2009, 0x200A, 0x2028, 0x2029, 0x202F, 0x205F, 0x3000]

theorem toNat_mem_blankCodes (h : isBlank c = true) : c.toNat ∈ blankCodes := by
  simp only [isBlank, Bool.or_eq_true, Bool.and_eq_true, decide_eq_true_eq, beq_iff_eq] at h
  simp only [blankCodes, List.mem_cons, List.not_mem_nil, or_false]
  omega

theorem lowerChar_of_isBlank (h : isBlank c = true) : lowerChar c = c := by
  have hblank : ∀ n ∈ blankCodes, lowerChar (Char.ofNat n) = Char.ofNat n := by decide
  have hc := hblank c.toNat (toNat_mem_blankCodes h)
  rwa [Char.ofNat_toNat] at hc

theorem isLower_of_isBlank (h : isBlank c = true) : c.isLower = false := by
  have hblank : ∀ n ∈ blankCodes, (Char.ofNat n).isLower = false := by decide
  have hc := hblank c.toNat (toNat_mem_blankCodes h)
  rwa [Char.ofNat_toNat] at hc

/-- Blanks have no letter case. -/
theorem toLower_of_allBlank (h : allBlank t = true) : toLower t = t := by
  induction t with
  | nil => rfl
  | cons c t ih =>
    simp only [allBlank, List.all_cons, Bool.and_eq_true] at h
    have hne : c ≠ '\u0130' := by
      rintro rfl
      exact absurd h.1 (by decide)
    rw [toLower_cons_of_ne hne, lowerChar_of_isBlank h.1, ih h.2]

/-! ## ASCII letters -/

/-- Only ASCII letters are equal to ASCII letters up to ASCII case. -/
theorem toNat_lt_of_isLower_toLower (h : c.toLower.isLower = true) : c.toNat < 128 := by
  by_cases hupper : c.val ≥ 'A'.val ∧ c.val ≤ 'Z'.val
  · have hle : c.toNat ≤ 'Z'.toNat := hupper.2
    exact Nat.lt_of_le_of_lt hle (by decide)
  · have hsame : c.toLower = c := dif_neg hupper
    rw [hsame] at h
    have hle : c.toNat ≤ 'z'.toNat := of_decide_eq_true (Bool.and_eq_true_iff.mp h).2
    exact Nat.lt_of_le_of_lt hle (by decide)

/-- A text that is a word of small ASCII letters up to ASCII case has it as its lower case. -/
theorem toLower_of_map_toLower (h : t.map Char.toLower = w) (hw : ∀ c ∈ w, c.isLower = true) :
    toLower t = w := by
  induction t generalizing w with
  | nil => exact h
  | cons c t ih =>
    subst h
    rw [List.map_cons, List.forall_mem_cons] at hw
    have hascii := toNat_lt_of_isLower_toLower hw.1
    have hne : c ≠ '\u0130' := by
      rintro rfl
      exact absurd hascii (by decide)
    rw [toLower_cons_of_ne hne, lowerChar, if_pos hascii, ih rfl hw.2, List.map_cons]

end Text

end DocComments
