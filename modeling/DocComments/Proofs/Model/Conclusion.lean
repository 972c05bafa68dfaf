import DocComments.Proofs.Model.Labels
import DocComments.Proofs.Text.Case

/-!
# The conclusion of an answer

A judge reasons first and ends with a label. What stands behind a line feed decides whenever it
mentions a label at all (`LabelSet.IsPlain.pick_append_cons`), so that the last line with a label
gives the answer its label (`LabelSet.IsPlain.pick_eq_getLast?`). A label alone on the last line
that is not blank is therefore picked whatever stands in front of it
(`LabelSet.IsPlain.pick_of_last_line`), for the labels of both passes in
`LabelSet.conclusion_decides`.
-/

set_option autoImplicit false

namespace DocComments

namespace LabelSet

variable {set : LabelSet}

namespace IsPlain

variable (hset : set.IsPlain)

include hset

theorem not_mem_name {l : Label} (hl : l ∈ set.labels) {c : Char} (hc : c.isLower = false) :
    c ∉ l.name.toList := by
  intro hmem
  have hsmall := hset.small l hl c hmem
  rw [hc] at hsmall
  cases hsmall

/-- Whatever else stands in the lower case of an answer, only small ASCII letters count. -/
theorem mentions_congr {lowered lowered' : Text}
    (h : Text.AgreeOn Char.isLower lowered lowered') :
    set.mentions lowered = set.mentions lowered' := by
  refine List.filterMap_congr fun l hl => ?_
  rw [Text.lastIndexOf?_congr (hset.small l hl) h]

/-! ## Labels on either side of a separator -/

section Separator

variable {c : Char} (hc : c.isLower = false) {s t : Text} {name : String} {place : Nat}

include hc

theorem isFurthest_behind (h : set.IsFurthest t name place) :
    set.IsFurthest (s ++ c :: t) name (s.length + 1 + place) := by
  have hstands := h.stands
  obtain ⟨l, hl, rfl⟩ := h.isName
  refine ⟨⟨l, hl, rfl⟩, ?_, fun k hk other hother => ?_⟩
  · rw [Text.standsAt_append_cons_iff (hset.ne_nil l hl) (hset.not_mem_name hl hc)]
    exact .inr ⟨place, rfl, hstands⟩
  · rw [Text.standsAt_append_cons_iff (hset.ne_nil k hk) (hset.not_mem_name hk hc)] at hother
    rcases hother with ⟨hle, -⟩ | ⟨behind, rfl, hother⟩
    · omega
    · exact Nat.add_le_add_left (h.furthest k hk behind hother) _

theorem isFurthest_before (h : set.IsFurthest s name place)
    (hnone : ∀ l ∈ set.labels, ¬ l.name.toList <:+: t) :
    set.IsFurthest (s ++ c :: t) name place := by
  have hstands := h.stands
  obtain ⟨l, hl, rfl⟩ := h.isName
  refine ⟨⟨l, hl, rfl⟩, ?_, fun k hk other hother => ?_⟩
  · rw [Text.standsAt_append_cons_iff (hset.ne_nil l hl) (hset.not_mem_name hl hc)]
    exact .inl hstands
  · rw [Text.standsAt_append_cons_iff (hset.ne_nil k hk) (hset.not_mem_name hk hc)] at hother
    rcases hother with hother | ⟨behind, -, hother⟩
    · exact h.furthest k hk other hother
    · exact absurd (Text.infix_iff_exists_standsAt.mpr ⟨behind, hother⟩) (hnone k hk)

end Separator

/-- What stands behind a separator decides if it mentions a label, and what stands in front of it
decides otherwise. -/
theorem pick_append_cons {c : Char} (hc : c.isLower = false) (hlower : Text.toLower [c] = [c])
    (s t : Text) : set.pick (s ++ c :: t) = (set.pick t).or (set.pick s) := by
  have htext : Text.toLower (s ++ c :: t) = Text.toLower s ++ c :: Text.toLower t :=
    calc Text.toLower (s ++ c :: t)
        = Text.toLower s ++ Text.toLower ([c] ++ t) := Text.toLower_append s ([c] ++ t)
      _ = Text.toLower s ++ c :: Text.toLower t := by
        rw [Text.toLower_append, hlower, List.singleton_append]
  rcases pick_cases set t with ⟨hnone, hbehind⟩ | ⟨name, place, hsome, hfurthest⟩
  · rw [hnone, Option.none_or]
    rcases pick_cases set s with ⟨hnone', hbefore⟩ | ⟨name, place, hsome, hfurthest⟩
    · rw [hnone', pick_eq_none_iff, htext]
      intro l hl
      rw [Text.infix_append_cons_iff (hset.not_mem_name hl hc), not_or]
      exact ⟨hbefore l hl, hbehind l hl⟩
    · have hwhole := hset.isFurthest_before hc hfurthest hbehind
      rw [← htext] at hwhole
      rw [hsome, hset.pick_of_isFurthest hwhole]
  · have hwhole := hset.isFurthest_behind hc hfurthest (s := Text.toLower s)
    rw [← htext] at hwhole
    rw [hsome, Option.some_or, hset.pick_of_isFurthest hwhole]

/-! ## Lines -/

theorem pick_nil : set.pick [] = none := by
  rw [pick_eq_none_iff]
  exact fun l hl h => hset.ne_nil l hl (List.infix_nil.mp h)

theorem pick_of_allBlank {s : Text} (h : Text.allBlank s = true) : set.pick s = none := by
  rw [pick_eq_none_iff, Text.toLower_of_allBlank h]
  intro l hl hin
  obtain ⟨c, hc⟩ := List.exists_mem_of_ne_nil _ (hset.ne_nil l hl)
  have hblank : Text.isBlank c = true := List.all_eq_true.mp h c (hin.subset hc)
  exact hset.not_mem_name hl (Text.isLower_of_isBlank hblank) hc

/-- The carriage return at the end of a line mentions no label. -/
theorem pick_dropReturn (s : Text) : set.pick (Text.dropReturn s) = set.pick s := by
  by_cases h : s.getLast? = some '\r'
  · obtain ⟨front, rfl⟩ := List.getLast?_eq_some_iff.mp h
    rw [Text.dropReturn_concat, hset.pick_append_cons rfl rfl, hset.pick_nil, Option.none_or]
  · rw [Text.dropReturn_of_ne h]

/-- The last line that mentions a label gives the label. -/
theorem pick_eq_getLast? (answer : Text) :
    set.pick answer = ((Text.lines answer).filterMap set.pick).getLast? := by
  induction answer using Text.induction_lines with
  | line s hs =>
    by_cases hnil : s = []
    · subst hnil
      exact hset.pick_nil
    · rw [Text.lines_of_not_mem hs hnil]
      cases hpick : set.pick s <;> simp [hpick]
  | next s t hs ih =>
    rw [hset.pick_append_cons rfl rfl, Text.lines_append_newline hs, ih]
    cases hpick : set.pick s with
    | none =>
      rw [List.filterMap_cons_none (by rw [hset.pick_dropReturn, hpick]), Option.or_none]
    | some name =>
      rw [List.filterMap_cons_some (by rw [hset.pick_dropReturn, hpick]), List.getLast?_cons]
      cases ((Text.lines t).filterMap set.pick).getLast? <;> rfl

/-- A label is picked from a line that is nothing else, in whatever ASCII letters. -/
theorem pick_of_map_toLower {l : Label} (hl : l ∈ set.labels) {line : Text}
    (hline : line.map Char.toLower = l.name.toList) : set.pick line = some l.name := by
  have hlower := Text.toLower_of_map_toLower hline (hset.small l hl)
  have hfurthest : set.IsFurthest l.name.toList l.name 0 := by
    refine ⟨⟨l, hl, rfl⟩, Text.standsAt_zero_iff.mpr (List.prefix_refl _), ?_⟩
    intro k hk other hother
    have hname : k.name = l.name :=
      hset.apart k hk l hl (Text.infix_iff_exists_standsAt.mpr ⟨other, hother⟩)
    rw [hname, Text.standsAt_self_iff (hset.ne_nil l hl)] at hother
    rw [hother]
  rw [← hlower] at hfurthest
  exact hset.pick_of_isFurthest hfurthest

/-- A line that is nothing else decides if only blank lines follow. -/
theorem pick_of_last_line {answer line : Text} {l : Label} (hl : l ∈ set.labels)
    (hlast : ((Text.lines answer).filter fun s => !Text.allBlank s).getLast? = some line)
    (hline : line.map Char.toLower = l.name.toList) : set.pick answer = some l.name := by
  -- blank lines do not count
  have hblank : (Text.lines answer).filterMap set.pick
      = ((Text.lines answer).filter fun s => !Text.allBlank s).filterMap set.pick := by
    rw [List.filterMap_filter]
    refine List.filterMap_congr fun s _ => ?_
    cases h : Text.allBlank s with
    | false => rfl
    | true => exact hset.pick_of_allBlank h
  obtain ⟨front, hfront⟩ := List.getLast?_eq_some_iff.mp hlast
  have hpick := hset.pick_of_map_toLower hl hline
  calc set.pick answer
      = ((Text.lines answer).filterMap set.pick).getLast? := hset.pick_eq_getLast? answer
    _ = ((front ++ [line]).filterMap set.pick).getLast? := by rw [hblank, hfront]
    _ = (front.filterMap set.pick ++ [l.name]).getLast? := by
      rw [List.filterMap_append, List.filterMap_cons_some hpick, List.filterMap_nil]
    _ = some l.name := List.getLast?_concat

end IsPlain

/-- For the labels of both passes: of two texts with a line feed between them the second decides if
it mentions a label, and the first otherwise. So an answer whose last line that is not blank is a
label, in whatever ASCII letters, gives this label. It makes no difference which small letter a
character becomes that has more than one, as a capital sigma has: the label is the same for every
text with the same small ASCII letters as the lower case. -/
theorem conclusion_decides (pass : Pass) :
    (∀ a b : Text, pass.labels.pick (a ++ '\n' :: b)
      = (pass.labels.pick b).or (pass.labels.pick a)) ∧
    (∀ (answer line : Text), ∀ l ∈ pass.labels.labels,
      ((Text.lines answer).filter fun s => !Text.allBlank s).getLast? = some line →
      line.map Char.toLower = l.name.toList →
      pass.labels.pick answer = some l.name) ∧
    (∀ answer lowered : Text, Text.AgreeOn Char.isLower (Text.toLower answer) lowered →
      pass.labels.pick answer = ((pass.labels.mentions lowered).foldl later none).map Prod.snd) := by
  have hset := pass.isPlain_labels
  refine ⟨hset.pick_append_cons rfl rfl, ?_, ?_⟩
  · intro answer line l hl hlast hline
    exact hset.pick_of_last_line hl hlast hline
  · intro answer lowered hagree
    rw [pick, hset.mentions_congr hagree]

end LabelSet

end DocComments
