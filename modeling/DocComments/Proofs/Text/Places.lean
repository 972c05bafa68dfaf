import DocComments.Proofs.Text.Lines
import Mathlib.Data.List.Forall2

/-!
# Where a piece stands in a text

`StandsAt` names the places of a piece, and `lastIndexOf?` finds the last of them
(`lastIndexOf?_eq_some_iff`). A character that is not in the piece separates the places in front of
it from those behind it (`standsAt_append_cons_iff`), and it may as well be another one
(`lastIndexOf?_congr`).
-/

set_option autoImplicit false

namespace DocComments

namespace Text

/-- The piece stands in the text behind so many characters. -/
def StandsAt (p t : Text) (place : Nat) : Prop := place ≤ t.length ∧ p <+: t.drop place

instance (p t : Text) (place : Nat) : Decidable (StandsAt p t place) :=
  inferInstanceAs (Decidable (_ ∧ _))

/-- The piece stands there as a word of its own, with no letter directly in front of it and none
directly behind it. -/
structure IsWordAt (isLetter : Char → Bool) (p t : Text) (place : Nat) : Prop where
  stands : StandsAt p t place
  before : ∀ c ∈ (t.take place).getLast?, isLetter c = false
  after : ∀ c ∈ (t.drop (place + p.length)).head?, isLetter c = false

/-- The texts are the same but for characters that are not letters. -/
def AgreeOn (isLetter : Char → Bool) (s t : Text) : Prop :=
  List.Forall₂ (fun c d => c = d ∨ (isLetter c = false ∧ isLetter d = false)) s t

variable {c : Char} {p s t : Text} {place : Nat}

theorem standsAt_zero_iff : StandsAt p t 0 ↔ p <+: t := by
  rw [StandsAt, List.drop_zero]
  exact and_iff_right (Nat.zero_le _)

theorem standsAt_cons_succ_iff : StandsAt p (c :: t) (place + 1) ↔ StandsAt p t place := by
  rw [StandsAt, List.length_cons, Nat.add_le_add_iff_right, List.drop_succ_cons]
  rfl

theorem not_standsAt_nil (hp : p ≠ []) : ¬ StandsAt p [] place := by
  rintro ⟨-, h⟩
  rw [List.drop_nil] at h
  exact hp (List.prefix_nil.mp h)

theorem infix_iff_exists_standsAt : p <:+: t ↔ ∃ place, StandsAt p t place := by
  constructor
  · rintro ⟨front, back, rfl⟩
    refine ⟨front.length, ?_, ?_⟩
    · rw [List.append_assoc, List.length_append]
      exact Nat.le_add_right _ _
    · rw [List.append_assoc, List.drop_left]
      exact List.prefix_append p back
  · rintro ⟨place, -, h⟩
    exact h.isInfix.trans (List.drop_suffix place t).isInfix

/-- A text stands in itself at the beginning only. -/
theorem standsAt_self_iff (hp : p ≠ []) : StandsAt p p place ↔ place = 0 := by
  constructor
  · rintro ⟨hle, h⟩
    have hlength := h.length_le
    have hpos := List.length_pos_of_ne_nil hp
    rw [List.length_drop] at hlength
    omega
  · rintro rfl
    exact standsAt_zero_iff.mpr (List.prefix_refl p)

/-- Of two pieces at one place one begins with the other. -/
theorem prefix_or_prefix_of_standsAt {q : Text} (hp : StandsAt p t place)
    (hq : StandsAt q t place) : p <+: q ∨ q <+: p :=
  List.prefix_or_prefix_of_prefix hp.2 hq.2

/-- A piece stands in front of a separator or behind it. -/
theorem standsAt_append_cons_iff (hp : p ≠ []) (hc : c ∉ p) :
    StandsAt p (s ++ c :: t) place ↔
      StandsAt p s place ∨ ∃ behind, place = s.length + 1 + behind ∧ StandsAt p t behind := by
  induction s generalizing place with
  | nil =>
    rw [or_iff_right (not_standsAt_nil hp), List.nil_append, List.length_nil, Nat.zero_add]
    cases place with
    | zero =>
      rw [standsAt_zero_iff, ← List.nil_append (c :: t), prefix_append_cons_iff hc]
      refine iff_of_false (fun h => hp (List.prefix_nil.mp h)) ?_
      rintro ⟨behind, h, -⟩
      omega
    | succ place =>
      rw [standsAt_cons_succ_iff]
      constructor
      · intro h
        exact ⟨place, Nat.add_comm place 1, h⟩
      · rintro ⟨behind, hplace, h⟩
        rwa [show place = behind by omega]
  | cons d s ih =>
    cases place with
    | zero =>
      rw [standsAt_zero_iff, standsAt_zero_iff, prefix_append_cons_iff hc, iff_self_or]
      rintro ⟨behind, h, -⟩
      omega
    | succ place =>
      rw [List.cons_append, standsAt_cons_succ_iff, standsAt_cons_succ_iff, ih, List.length_cons]
      refine or_congr_right (exists_congr fun behind => and_congr_left' ?_)
      omega

/-! ## The last place -/

theorem lastIndexOf?_eq_none_iff : lastIndexOf? p t = none ↔ ¬ p <:+: t := by
  induction t with
  | nil => simp [lastIndexOf?]
  | cons c t ih =>
    rw [List.infix_cons_iff, not_or, and_comm, ← ih, lastIndexOf?]
    cases lastIndexOf? p t with
    | none => simp
    | some i => simp

/-- The last place is one, and there is none behind it. -/
theorem standsAt_of_lastIndexOf? (h : lastIndexOf? p t = some place) :
    StandsAt p t place ∧ ∀ other, StandsAt p t other → other ≤ place := by
  induction t generalizing place with
  | nil =>
    rw [lastIndexOf?] at h
    split at h
    · rename_i hp
      cases h
      rw [List.isEmpty_iff] at hp
      exact ⟨standsAt_zero_iff.mpr (hp ▸ List.nil_prefix), fun other hother => hother.1⟩
    · cases h
  | cons c t ih =>
    rw [lastIndexOf?] at h
    cases hrest : lastIndexOf? p t with
    | some behind =>
      rw [hrest] at h
      cases h
      obtain ⟨hstands, hlast⟩ := ih hrest
      refine ⟨standsAt_cons_succ_iff.mpr hstands, fun other hother => ?_⟩
      cases other with
      | zero => exact Nat.zero_le _
      | succ other => exact Nat.succ_le_succ (hlast other (standsAt_cons_succ_iff.mp hother))
    | none =>
      rw [hrest] at h
      dsimp only at h
      split at h
      · rename_i hfront
        cases h
        rw [List.isPrefixOf_iff_prefix] at hfront
        refine ⟨standsAt_zero_iff.mpr hfront, fun other hother => ?_⟩
        cases other with
        | zero => exact Nat.le_refl 0
        | succ other =>
          -- the piece does not stand in the rest
          have hmention : p <:+: t :=
            infix_iff_exists_standsAt.mpr ⟨other, standsAt_cons_succ_iff.mp hother⟩
          exact absurd hmention (lastIndexOf?_eq_none_iff.mp hrest)
      · cases h

theorem lastIndexOf?_eq_some_iff :
    lastIndexOf? p t = some place ↔
      StandsAt p t place ∧ ∀ other, StandsAt p t other → other ≤ place := by
  refine ⟨standsAt_of_lastIndexOf?, ?_⟩
  rintro ⟨hstands, hlast⟩
  cases h : lastIndexOf? p t with
  | none =>
    exact absurd (infix_iff_exists_standsAt.mpr ⟨place, hstands⟩) (lastIndexOf?_eq_none_iff.mp h)
  | some found =>
    obtain ⟨hfound, hbehind⟩ := standsAt_of_lastIndexOf? h
    rw [Nat.le_antisymm (hlast found hfound) (hbehind place hstands)]

/-! ## Other characters -/

section AgreeOn

variable {isLetter : Char → Bool} (hp : ∀ c ∈ p, isLetter c = true) (h : AgreeOn isLetter s t)

include hp h

/-- Whether a text begins with a piece depends on the letters of the piece only. -/
theorem isPrefixOf_congr : p.isPrefixOf s = p.isPrefixOf t := by
  induction p generalizing s t with
  | nil => rfl
  | cons x p ih =>
    cases h with
    | nil => rfl
    | @cons c d s t hhead htail =>
      rw [List.forall_mem_cons] at hp
      rw [List.isPrefixOf, List.isPrefixOf, ih hp.2 htail]
      rcases hhead with rfl | ⟨hc, hd⟩
      · rfl
      · -- neither of the two characters is a letter, and the piece begins with one
        have hne : ∀ y, isLetter y = false → (x == y) = false := by
          intro y hy
          rw [beq_eq_false_iff_ne]
          rintro rfl
          rw [hp.1] at hy
          cases hy
        rw [hne c hc, hne d hd]

/-- Where a piece stands last depends on its own letters only. -/
theorem lastIndexOf?_congr : lastIndexOf? p s = lastIndexOf? p t := by
  induction h with
  | nil => rfl
  | cons hhead htail ih =>
    rw [lastIndexOf?, lastIndexOf?, ih, isPrefixOf_congr hp (.cons hhead htail)]

end AgreeOn

end Text

end DocComments
