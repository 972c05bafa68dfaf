import DocComments.Prompt.Wording

/-!
# What a prompt keeps whole

A limit of tokens takes text away from excerpts of low priority only. Every other section stands in
the rendered prompt in full, whatever the limit and the tokenizer (`infix_render_of_mem`).
-/

set_option autoImplicit false

namespace DocComments

namespace Prompt

/-- Every part stands in what the parts are joined to. -/
theorem infix_joinSections_of_mem {t : Text} {parts : List Text} (h : t ∈ parts) :
    t <:+: joinSections parts := by
  induction parts with
  | nil => cases h
  | cons part parts ih =>
    cases parts with
    | nil =>
      rw [List.mem_singleton.mp h]
      exact ⟨[], [], by simp [joinSections]⟩
    | cons next more =>
      have hjoin : joinSections (part :: next :: more)
          = part ++ (['\n', '\n'] ++ joinSections (next :: more)) := by
        simp [joinSections]
      rw [hjoin]
      rcases List.mem_cons.mp h with rfl | h
      · exact (List.prefix_append t _).isInfix
      · have hback : joinSections (next :: more) <:+
            part ++ (['\n', '\n'] ++ joinSections (next :: more)) :=
          (List.suffix_append _ _).trans (List.suffix_append _ _)
        exact (ih h).trans hback.isInfix

/-- Only excerpts of low priority are cut. -/
theorem exists_of_isFlexible {s : Section} (h : s.isFlexible = true) :
    ∃ b, s = .excerpt b .low := by
  cases s with
  | paragraph t => cases h
  | excerpt b priority =>
    cases priority with
    | low => exact ⟨b, rfl⟩
    | high => cases h

theorem fitSections_cons_of_fixed (tk : Tokenizer) (remaining : Nat) {s : Section} (p : Prompt)
    (h : s.isFlexible = false) :
    fitSections tk remaining (s :: p) = s.render :: fitSections tk remaining p := by
  cases s with
  | paragraph t => rfl
  | excerpt b priority =>
    cases priority with
    | low => cases h
    | high => rfl

/-- However many tokens are left for the others, a section that is not cut is among the texts. -/
theorem render_mem_fitSections {tk : Tokenizer} {p : Prompt} {s : Section} (hs : s ∈ p)
    (hfixed : s.isFlexible = false) (remaining : Nat) : s.render ∈ fitSections tk remaining p := by
  induction p generalizing remaining with
  | nil => cases hs
  | cons first p ih =>
    cases hfirst : first.isFlexible with
    | false =>
      rw [fitSections_cons_of_fixed tk remaining p hfirst]
      rcases List.mem_cons.mp hs with rfl | h
      · exact List.mem_cons_self
      · exact List.mem_cons_of_mem _ (ih h remaining)
    | true =>
      have hrest : s ∈ p := by
        rcases List.mem_cons.mp hs with rfl | h
        · rw [hfirst] at hfixed
          cases hfixed
        · exact h
      obtain ⟨b, rfl⟩ := exists_of_isFlexible hfirst
      unfold fitSections
      dsimp only
      split
      · exact ih hrest 0
      · exact List.mem_cons_of_mem _ (ih hrest _)

/-- A section that is not cut stands in the prompt in full, whatever the limit. -/
theorem infix_render_of_mem (tk : Tokenizer) (limit : Option Nat) {p : Prompt} {s : Section}
    (hs : s ∈ p) (hfixed : s.isFlexible = false) : s.render <:+: p.render tk limit := by
  have hwhole : s.render <:+: whole p :=
    infix_joinSections_of_mem (List.mem_map_of_mem hs)
  unfold render
  split
  · exact hwhole
  · split
    · exact hwhole
    · exact infix_joinSections_of_mem (render_mem_fitSections hs hfixed _)

end Prompt

end DocComments
