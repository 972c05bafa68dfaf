import DocComments.Proofs.Prompt.Fixed
import DocComments.Proofs.Prompt.Truncate

/-!
# What a limit of tokens leaves of a prompt

A limit takes text away from excerpts of low priority only, and from each of them in one of two
ways: the end of its body, for which a mark is put, or the whole excerpt. `Section.MayBecome` says
what may be left of a section, and `Prompt.render_trims` that a rendered prompt is made up of such
pieces in the order of its sections, whatever the limit and the tokenizer. What has too little room
takes what is left from everything behind it (`fitSections_zero`), so that no excerpt is dropped in
front of one that is kept.
-/

set_option autoImplicit false

namespace DocComments

/-- What a section may become where tokens are limited. -/
inductive Section.MayBecome : Section → Option Text → Prop
  /-- every section may stay whole -/
  | whole (s : Section) : MayBecome s (some s.render)
  /-- an excerpt of low priority may lose the end of its body -/
  | cut {b : Excerpt} {front rest : Text} (hbody : b.body = front ++ rest) (hrest : rest ≠ []) :
      MayBecome (.excerpt b .low)
        (some (Excerpt.render { b with body := front ++ Prompt.cutMark }))
  /-- an excerpt of low priority may be left out -/
  | dropped (b : Excerpt) : MayBecome (.excerpt b .low) none

namespace Prompt

variable {tk : Tokenizer}

/-! ## One excerpt -/

/-- A body that does not stay whole loses its end and gets the mark. -/
theorem cutBody_cases (tk : Tokenizer) (allowance : Nat) (body : Text) :
    cutBody tk allowance body = body ∨
      ∃ front rest, body = front ++ rest ∧ rest ≠ [] ∧
        cutBody tk allowance body = front ++ cutMark := by
  obtain ⟨rest, hrest⟩ := Tokenizer.prefix_truncate tk allowance body
  have hlength : body.length = (tk.truncate allowance body).length + rest.length := by
    rw [← List.length_append, hrest]
  unfold cutBody
  dsimp only
  split
  · rename_i hshort
    refine .inr ⟨tk.truncate allowance body, rest, hrest.symm, ?_, rfl⟩
    intro hnil
    rw [hnil, List.length_nil] at hlength
    omega
  · rename_i hshort
    have hnil : rest = [] := List.length_eq_zero_iff.mp (by omega)
    rw [hnil, List.append_nil] at hrest
    exact .inl hrest

/-- An excerpt whose body is cut is an excerpt that may have become of it. -/
theorem mayBecome_cutBody (tk : Tokenizer) (allowance : Nat) (b : Excerpt) :
    (Section.excerpt b .low).MayBecome
      (some (Excerpt.render { b with body := cutBody tk allowance b.body })) := by
  rcases cutBody_cases tk allowance b.body with hwhole | ⟨front, rest, hbody, hrest, hcut⟩
  · rw [hwhole]
    exact .whole (.excerpt b .low)
  · rw [hcut]
    exact .cut hbody hrest

/-! ## All sections -/

/-- The sections of a prompt, each with what is left of it. -/
structure IsTrimming (p : Prompt) (left : List (Section × Option Text)) : Prop where
  sections : left.map Prod.fst = p
  mayBecome : ∀ x ∈ left, x.1.MayBecome x.2
  /-- what can be dropped is dropped behind something that is dropped -/
  droppedBehind : left.Pairwise fun x y => x.2 = none → y.1.isFlexible = true → y.2 = none

namespace IsTrimming

variable {p : Prompt} {left : List (Section × Option Text)}

theorem nil : IsTrimming [] [] := ⟨rfl, fun _ hx => absurd hx List.not_mem_nil, .nil⟩

theorem cons (h : IsTrimming p left) {s : Section} {part : Option Text} (hs : s.MayBecome part)
    (hdropped : part = none → ∀ y ∈ left, y.1.isFlexible = true → y.2 = none) :
    IsTrimming (s :: p) ((s, part) :: left) where
  sections := by rw [List.map_cons, h.sections]
  mayBecome := List.forall_mem_cons.mpr ⟨hs, h.mayBecome⟩
  droppedBehind := List.pairwise_cons.mpr ⟨fun y hy hnone => hdropped hnone y hy, h.droppedBehind⟩

/-- A section of which something is left does not reach those behind it. -/
theorem keep (h : IsTrimming p left) {s : Section} {part : Text} (hs : s.MayBecome (some part)) :
    IsTrimming (s :: p) ((s, some part) :: left) :=
  h.cons hs fun hnone => absurd hnone (Option.some_ne_none part)

end IsTrimming

def allWhole (p : Prompt) : List (Section × Option Text) := p.map fun s => (s, some s.render)

def allDropped (p : Prompt) : List (Section × Option Text) :=
  p.map fun s => (s, if s.isFlexible then none else some s.render)

theorem isTrimming_allWhole (p : Prompt) : IsTrimming p (allWhole p) := by
  induction p with
  | nil => exact .nil
  | cons s p ih => exact ih.keep (.whole s)

theorem filterMap_allWhole (p : Prompt) :
    (allWhole p).filterMap Prod.snd = p.map Section.render := by
  rw [allWhole, List.filterMap_map, ← List.filterMap_eq_map']
  rfl

theorem snd_eq_none_of_mem_allDropped {p : Prompt} {y : Section × Option Text}
    (hy : y ∈ allDropped p) (hflexible : y.1.isFlexible = true) : y.2 = none := by
  obtain ⟨s, -, rfl⟩ := List.mem_map.mp hy
  exact if_pos hflexible

theorem isTrimming_allDropped (p : Prompt) : IsTrimming p (allDropped p) := by
  induction p with
  | nil => exact .nil
  | cons s p ih =>
    refine ih.cons ?_ fun _ y hy => snd_eq_none_of_mem_allDropped hy
    cases hs : s.isFlexible with
    | false => exact .whole s
    | true =>
      obtain ⟨b, rfl⟩ := exists_of_isFlexible hs
      exact .dropped b

/-- With nothing left for them, all excerpts of low priority are dropped. -/
theorem fitSections_zero (tk : Tokenizer) (p : Prompt) :
    fitSections tk 0 p = (allDropped p).filterMap Prod.snd := by
  induction p with
  | nil => rfl
  | cons s p ih =>
    cases hs : s.isFlexible with
    | false =>
      have hdropped : allDropped (s :: p) = (s, some s.render) :: allDropped p := by
        rw [allDropped, List.map_cons, hs]
        rfl
      rw [fitSections_cons_of_fixed tk 0 p hs, ih, hdropped]
      rfl
    | true =>
      obtain ⟨b, rfl⟩ := exists_of_isFlexible hs
      rw [fitSections, if_pos (Nat.zero_le _), ih]
      rfl

/-- Whatever is left for the excerpts of low priority, the sections become what they may. -/
theorem exists_isTrimming_fitSections (tk : Tokenizer) (remaining : Nat) (p : Prompt) :
    ∃ left, IsTrimming p left ∧ fitSections tk remaining p = left.filterMap Prod.snd := by
  induction p generalizing remaining with
  | nil => exact ⟨[], .nil, rfl⟩
  | cons s p ih =>
    cases hs : s.isFlexible with
    | false =>
      obtain ⟨left, htrim, hparts⟩ := ih remaining
      refine ⟨(s, some s.render) :: left, htrim.keep (.whole s), ?_⟩
      rw [fitSections_cons_of_fixed tk remaining p hs, hparts]
      rfl
    | true =>
      obtain ⟨b, rfl⟩ := exists_of_isFlexible hs
      unfold fitSections
      dsimp only
      split
      · -- nothing is left for those behind either
        have hbehind := (isTrimming_allDropped p).cons (.dropped b) fun _ y hy =>
          snd_eq_none_of_mem_allDropped hy
        refine ⟨_, hbehind, ?_⟩
        rw [fitSections_zero, List.filterMap_cons_none rfl]
      · have hbody := mayBecome_cutBody tk (remaining - frameCost tk b - tk.count cutMark) b
        obtain ⟨left, htrim, hparts⟩ := ih _
        refine ⟨_, htrim.keep hbody, ?_⟩
        rw [hparts]
        rfl

/-- For every list of sections, every limit and every tokenizer, the rendered prompt is the sections
in their order with a blank line between them, each of them as it may become: paragraphs and
excerpts of high priority whole, and of an excerpt of low priority nothing, the whole, or its frame
around a front part of its body and the mark. They are all whole if the whole prompt keeps to the
limit or there is none, and once an excerpt has been dropped those behind it are dropped. -/
theorem render_trims (tk : Tokenizer) (limit : Option Nat) (p : Prompt) :
    ∃ left : List (Section × Option Text),
      IsTrimming p left ∧
      p.render tk limit = joinSections (left.filterMap Prod.snd) ∧
      ((∀ n ∈ limit, tk.count (whole p) ≤ n) → ∀ x ∈ left, x.2 = some x.1.render) := by
  by_cases hfits : ∀ n ∈ limit, tk.count (whole p) ≤ n
  · refine ⟨allWhole p, isTrimming_allWhole p, ?_, fun _ x hx => ?_⟩
    · rw [filterMap_allWhole]
      cases limit with
      | none => rfl
      | some n => exact if_pos (hfits n rfl)
    · obtain ⟨s, -, rfl⟩ := List.mem_map.mp hx
      rfl
  · cases limit with
    | none => exact absurd (fun n hn => absurd hn (Option.not_mem_none n)) hfits
    | some n =>
      have hmany : ¬ tk.count (whole p) ≤ n := by
        intro hle
        refine hfits fun m hm => ?_
        rwa [← Option.mem_some.mp hm]
      obtain ⟨left, htrim, hparts⟩ :=
        exists_isTrimming_fitSections tk (n - (fixedCost tk p + slack)) p
      refine ⟨left, htrim, ?_, fun hall => absurd hall hfits⟩
      rw [render, if_neg hmany, hparts]

end Prompt

end DocComments
