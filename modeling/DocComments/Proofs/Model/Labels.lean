import DocComments.Proofs.Text.Places
import DocComments.Run.Treatment

/-!
# Which label an answer gives

The label of an answer is the one that stands furthest back in its lower case, wherever it stands
there (`LabelSet.pick_furthest`). That may be inside a longer word: an answer that calls a comment
unacceptable lets it through (`LabelSet.pick_unacceptable`). Where the furthest mention is a word of
its own, the label is the one that is furthest back as a word.
-/

set_option autoImplicit false

namespace DocComments

open Text (StandsAt IsWordAt infix_iff_exists_standsAt)

namespace LabelSet

variable {set : LabelSet} {t : Text} {name : String} {place : Nat}

/-- The label stands at a place of a text, and no label stands behind it. -/
structure IsFurthest (set : LabelSet) (t : Text) (name : String) (place : Nat) : Prop where
  isName : ∃ l ∈ set.labels, l.name = name
  stands : StandsAt name.toList t place
  furthest : ∀ l ∈ set.labels, ∀ other, StandsAt l.name.toList t other → other ≤ place

/-- The label stands at some place of a text as a word of its own, and no label stands behind it as
a word of its own. -/
def IsFurthestWord (set : LabelSet) (isLetter : Char → Bool) (t : Text) (name : String) : Prop :=
  ∃ place, (∃ l ∈ set.labels, l.name = name) ∧ IsWordAt isLetter name.toList t place ∧
    ∀ l ∈ set.labels, ∀ other, IsWordAt isLetter l.name.toList t other → other ≤ place

/-- The names of the labels are words of small letters, and none of them is a part of another. -/
structure IsPlain (set : LabelSet) : Prop where
  ne_nil : ∀ l ∈ set.labels, l.name.toList ≠ []
  small : ∀ l ∈ set.labels, ∀ c ∈ l.name.toList, c.isLower = true
  apart : ∀ k ∈ set.labels, ∀ l ∈ set.labels, k.name.toList <:+: l.name.toList → k.name = l.name

theorem isPlain_reviewNew : reviewNew.IsPlain where
  ne_nil := by decide
  small := by simp [reviewNew]
  apart := by decide

theorem isPlain_reviewUpdate : reviewUpdate.IsPlain where
  ne_nil := by decide
  small := by simp [reviewUpdate]
  apart := by decide

/-! ## The last mention of all -/

theorem mem_mentions_iff :
    (place, name) ∈ set.mentions t ↔
      ∃ l ∈ set.labels, l.name = name ∧ Text.lastIndexOf? name.toList t = some place := by
  rw [mentions, List.mem_filterMap]
  refine exists_congr fun l => and_congr_right fun _ => ?_
  rw [Option.map_eq_some_iff]
  constructor
  · rintro ⟨found, hfound, hpair⟩
    cases hpair
    exact ⟨rfl, hfound⟩
  · rintro ⟨rfl, hfound⟩
    exact ⟨place, hfound, rfl⟩

/-- Of some mentions one that is furthest back is left. -/
theorem exists_foldl_later (first : Nat × String) (mentions : List (Nat × String)) :
    ∃ m, mentions.foldl later (some first) = some m ∧ m ∈ first :: mentions ∧
      ∀ k ∈ first :: mentions, k.1 ≤ m.1 := by
  induction mentions generalizing first with
  | nil => exact ⟨first, rfl, List.mem_singleton_self _, by simp⟩
  | cons second mentions ih =>
    rw [List.foldl_cons, later]
    by_cases h : second.1 < first.1
    · obtain ⟨m, hm, hmem, hmax⟩ := ih first
      refine ⟨m, by rw [if_pos h]; exact hm, ?_, ?_⟩
      · rcases List.mem_cons.mp hmem with rfl | hmem
        · exact List.mem_cons_self
        · exact List.mem_cons_of_mem _ (List.mem_cons_of_mem _ hmem)
      · have hfirst := hmax first List.mem_cons_self
        refine List.forall_mem_cons.mpr ⟨hfirst, List.forall_mem_cons.mpr ⟨by omega, ?_⟩⟩
        exact fun k hk => hmax k (List.mem_cons_of_mem _ hk)
    · obtain ⟨m, hm, hmem, hmax⟩ := ih second
      refine ⟨m, by rw [if_neg h]; exact hm, List.mem_cons_of_mem _ hmem, ?_⟩
      have hsecond := hmax second List.mem_cons_self
      exact List.forall_mem_cons.mpr ⟨by omega, hmax⟩

/-- An answer without a label gives none, and any other gives one that is furthest back. -/
theorem pick_cases (set : LabelSet) (answer : Text) :
    (set.pick answer = none ∧ ∀ l ∈ set.labels, ¬ l.name.toList <:+: Text.toLower answer) ∨
      ∃ name place, set.pick answer = some name ∧
        set.IsFurthest (Text.toLower answer) name place := by
  rw [pick]
  cases hmentions : set.mentions (Text.toLower answer) with
  | nil =>
    refine .inl ⟨rfl, fun l hl => ?_⟩
    rw [← Text.lastIndexOf?_eq_none_iff, ← Option.map_eq_none_iff]
    exact List.filterMap_eq_nil_iff.mp hmentions l hl
  | cons first mentions =>
    obtain ⟨⟨place, name⟩, hlast, hmem, hmax⟩ := exists_foldl_later first mentions
    rw [← hmentions] at hmem hmax
    obtain ⟨l, hl, hname, hplace⟩ := mem_mentions_iff.mp hmem
    refine .inr ⟨name, place, ?_, ⟨l, hl, hname⟩, (Text.lastIndexOf?_eq_some_iff.mp hplace).1, ?_⟩
    · rw [List.foldl_cons, later, hlast]
      rfl
    · intro k hk other hother
      obtain ⟨last, hlast⟩ := Option.ne_none_iff_exists'.mp fun hnone =>
        Text.lastIndexOf?_eq_none_iff.mp hnone (infix_iff_exists_standsAt.mpr ⟨other, hother⟩)
      have hle : last ≤ place := hmax (last, k.name) (mem_mentions_iff.mpr ⟨k, hk, rfl, hlast⟩)
      exact ((Text.lastIndexOf?_eq_some_iff.mp hlast).2 other hother).trans hle

theorem pick_eq_none_iff (set : LabelSet) (answer : Text) :
    set.pick answer = none ↔ ∀ l ∈ set.labels, ¬ l.name.toList <:+: Text.toLower answer := by
  rcases pick_cases set answer with ⟨hnone, hall⟩ | ⟨name, place, hsome, hfurthest⟩
  · exact iff_of_true hnone hall
  · obtain ⟨l, hl, rfl⟩ := hfurthest.isName
    refine iff_of_false (by rw [hsome]; exact Option.some_ne_none _) fun hall => ?_
    exact hall l hl (infix_iff_exists_standsAt.mpr ⟨place, hfurthest.stands⟩)

namespace IsPlain

variable (hset : set.IsPlain)

include hset

/-- Only one label is furthest back. -/
theorem eq_of_isFurthest {other : String} {place' : Nat} (h : set.IsFurthest t name place)
    (h' : set.IsFurthest t other place') : name = other := by
  obtain ⟨k, hk, rfl⟩ := h.isName
  obtain ⟨l, hl, rfl⟩ := h'.isName
  have hplace : place = place' :=
    Nat.le_antisymm (h'.furthest k hk place h.stands) (h.furthest l hl place' h'.stands)
  subst hplace
  rcases Text.prefix_or_prefix_of_standsAt h.stands h'.stands with hprefix | hprefix
  · exact hset.apart k hk l hl hprefix.isInfix
  · exact (hset.apart l hl k hk hprefix.isInfix).symm

theorem pick_of_isFurthest {answer : Text} (h : set.IsFurthest (Text.toLower answer) name place) :
    set.pick answer = some name := by
  rcases pick_cases set answer with ⟨-, hall⟩ | ⟨other, place', hsome, hfurthest⟩
  · obtain ⟨l, hl, rfl⟩ := h.isName
    exact absurd (infix_iff_exists_standsAt.mpr ⟨place, h.stands⟩) (hall l hl)
  · rw [hsome, hset.eq_of_isFurthest h hfurthest]

theorem pick_eq_some_iff (answer : Text) :
    set.pick answer = some name ↔ ∃ place, set.IsFurthest (Text.toLower answer) name place := by
  constructor
  · intro h
    rcases pick_cases set answer with ⟨hnone, -⟩ | ⟨other, place, hsome, hfurthest⟩
    · rw [h] at hnone
      cases hnone
    · rw [h] at hsome
      cases hsome
      exact ⟨place, hfurthest⟩
  · rintro ⟨place, h⟩
    exact hset.pick_of_isFurthest h

end IsPlain

end LabelSet

theorem Pass.isPlain_labels (pass : Pass) : pass.labels.IsPlain := by
  cases pass with
  | missing => exact LabelSet.isPlain_reviewNew
  | update => exact LabelSet.isPlain_reviewUpdate

namespace LabelSet

/-- For the labels of both passes and every answer: no label is picked exactly if none stands in the
lower case of the answer, and a label is picked exactly if it stands there and no label stands
behind it. If its furthest mention is a word of its own, whatever counts as a letter, it is the
label that is furthest back as a word of its own. -/
theorem pick_furthest (pass : Pass) (answer : Text) :
    (pass.labels.pick answer = none ↔
      ∀ l ∈ pass.labels.labels, ¬ l.name.toList <:+: Text.toLower answer) ∧
    (∀ name, pass.labels.pick answer = some name ↔
      ∃ place, pass.labels.IsFurthest (Text.toLower answer) name place) ∧
    (∀ isLetter name place, pass.labels.IsFurthest (Text.toLower answer) name place →
      IsWordAt isLetter name.toList (Text.toLower answer) place →
      pass.labels.pick answer = some name ∧
        pass.labels.IsFurthestWord isLetter (Text.toLower answer) name) := by
  have hplain := pass.isPlain_labels
  refine ⟨pick_eq_none_iff pass.labels answer, fun name => hplain.pick_eq_some_iff answer, ?_⟩
  intro isLetter name place hfurthest hword
  refine ⟨hplain.pick_of_isFurthest hfurthest, place, hfurthest.isName, hword, ?_⟩
  exact fun l hl other hother => hfurthest.furthest l hl other hother.stands

/-- An answer that rejects a comment in a word of which a label is a part. -/
def unacceptable : Text := "Unacceptable.".toList

/-- The label is picked though it nowhere stands as a word of its own. -/
theorem pick_unacceptable :
    reviewNew.pick unacceptable = some "accept" ∧
      ¬ reviewNew.IsFurthestWord Char.isAlpha (Text.toLower unacceptable) "accept" := by
  have honce : ∀ place ≤ (Text.toLower unacceptable).length,
      StandsAt "accept".toList (Text.toLower unacceptable) place → place = 2 := by decide
  refine ⟨by decide, ?_⟩
  rintro ⟨place, -, hword, -⟩
  have hplace : place = 2 := honce place hword.stands.1 hword.stands
  subst hplace
  exact absurd (hword.before 'n' (by decide)) (by decide)

end LabelSet

end DocComments
