import DocComments.Diff.Unified
import Mathlib.Data.List.Forall2
import Mathlib.Tactic.Conv

/-!
# Lines with their ends

A line of a text goes up to a line feed, a carriage return or both, or up to the end of the text.
All lines but the last have such an end (`areLines_fullLines`). Lines with an end that are put
behind each other are the lines of what comes out, as long as none of them begins with a line feed
(`fullLines_flatten`).
-/

set_option autoImplicit false

namespace DocComments

namespace Diff

variable {c e : Char} {s t : Text}

/-! ## The lines of a text as it is read -/

/-- A character that ends no line stands in front of what the first line was. -/
theorem fullLines_cons (hfeed : c ≠ '\n') (hreturn : c ≠ '\r') {line : Text} {more : List Text}
    (h : fullLines t = line :: more) : fullLines (c :: t) = (c :: line) :: more := by
  cases t with
  | nil => cases h
  | cons d t =>
    conv_lhs => unfold fullLines
    split
    · next heq => cases heq
    · next heq => exact absurd (List.cons.inj heq).1 hfeed
    · next heq => exact absurd (List.cons.inj heq).1 hreturn
    · next heq => exact absurd (List.cons.inj heq).1 hreturn
    · next heq =>
      obtain ⟨rfl, rfl⟩ := List.cons.inj heq
      rw [h]

theorem fullLines_singleton (hfeed : c ≠ '\n') (hreturn : c ≠ '\r') : fullLines [c] = [[c]] := by
  unfold fullLines
  split
  · next heq => cases heq
  · next heq => exact absurd (List.cons.inj heq).1 hfeed
  · next heq => exact absurd (List.cons.inj heq).1 hreturn
  · next heq => exact absurd (List.cons.inj heq).1 hreturn
  · next heq =>
    obtain ⟨rfl, rfl⟩ := List.cons.inj heq
    rfl

/-- A text without line ends is one line. -/
theorem fullLines_of_not_mem (hfeed : '\n' ∉ s) (hreturn : '\r' ∉ s) (hne : s ≠ []) :
    fullLines s = [s] := by
  induction s with
  | nil => exact absurd rfl hne
  | cons c s ih =>
    rw [List.mem_cons, not_or] at hfeed hreturn
    by_cases hnil : s = []
    · rw [hnil, fullLines_singleton (Ne.symm hfeed.1) (Ne.symm hreturn.1)]
    · exact fullLines_cons (Ne.symm hfeed.1) (Ne.symm hreturn.1) (ih hfeed.2 hreturn.2 hnil)

/-- A line goes up to its end. -/
theorem fullLines_append_of_end {e : Text} (hfeed : '\n' ∉ s) (hreturn : '\r' ∉ s)
    (hend : fullLines (e ++ t) = e :: fullLines t) :
    fullLines (s ++ (e ++ t)) = (s ++ e) :: fullLines t := by
  induction s with
  | nil => exact hend
  | cons c s ih =>
    rw [List.mem_cons, not_or] at hfeed hreturn
    exact fullLines_cons (Ne.symm hfeed.1) (Ne.symm hreturn.1) (ih hfeed.2 hreturn.2)

/-- A line ends where a character ends it. -/
theorem fullLines_append_end (hfeed : '\n' ∉ s) (hreturn : '\r' ∉ s)
    (hend : fullLines (e :: t) = [e] :: fullLines t) :
    fullLines (s ++ e :: t) = (s ++ [e]) :: fullLines t :=
  fullLines_append_of_end (e := [e]) hfeed hreturn hend

theorem fullLines_return_cons (h : t.head? ≠ some '\n') :
    fullLines ('\r' :: t) = ['\r'] :: fullLines t := by
  cases t with
  | nil => rfl
  | cons d t =>
    have hd : d ≠ '\n' := fun hd => h (congrArg some hd)
    conv_lhs => unfold fullLines
    split
    · next heq => cases heq
    · next heq => exact absurd (List.cons.inj heq).1 (by decide)
    · next heq => exact absurd (List.cons.inj (List.cons.inj heq).2).1 hd
    · next heq => rw [(List.cons.inj heq).2]
    · next hreturn heq => exact absurd (List.cons.inj heq).1.symm hreturn

/-! ## Ends -/

inductive IsEnd : Text → Prop where
  | feed : IsEnd ['\n']
  | carriage : IsEnd ['\r']
  | both : IsEnd ['\r', '\n']

/-- Nothing in the text ends a line. -/
structure Unbroken (s : Text) : Prop where
  feed : '\n' ∉ s
  carriage : '\r' ∉ s

theorem Unbroken.cons (hfeed : c ≠ '\n') (hreturn : c ≠ '\r') (h : Unbroken s) :
    Unbroken (c :: s) :=
  ⟨List.not_mem_cons_of_ne_of_not_mem hfeed.symm h.feed,
    List.not_mem_cons_of_ne_of_not_mem hreturn.symm h.carriage⟩

theorem Unbroken.append (hs : Unbroken s) (ht : Unbroken t) : Unbroken (s ++ t) :=
  ⟨List.not_mem_append hs.feed ht.feed, List.not_mem_append hs.carriage ht.carriage⟩

theorem unbroken_nil : Unbroken [] := ⟨List.not_mem_nil, List.not_mem_nil⟩

/-- Lines as a text has them: the last one may do without an end. -/
inductive AreLines : List Text → Prop where
  | nil : AreLines []
  | last {s : Text} : Unbroken s → AreLines [s]
  | ended {s e : Text} {lines : List Text} :
    Unbroken s → IsEnd e → AreLines lines → AreLines ((s ++ e) :: lines)

theorem areLines_fullLines (t : Text) : AreLines (fullLines t) := by
  fun_induction fullLines t with
  | case1 => exact .nil
  | case2 rest ih => exact .ended unbroken_nil .feed ih
  | case3 rest ih => exact .ended unbroken_nil .both ih
  | case4 rest hr ih => exact .ended unbroken_nil .carriage ih
  | case5 c hfeed hreturn => exact .last (unbroken_nil.cons hfeed hreturn)
  | case6 c rest hfeed _ hreturn hnil hne =>
    have hflat := flatten_fullLines rest
    rw [hnil] at hflat
    exact absurd hflat.symm hne
  | case7 c rest hfeed _ hreturn line more hlines hne ih =>
    cases rest with
    | nil => exact absurd rfl hne
    | cons d rest =>
      rw [hlines] at ih ⊢
      change AreLines ((c :: line) :: more)
      cases ih with
      | last hs => exact .last (hs.cons hfeed hreturn)
      | ended hs he hmore => exact .ended (hs.cons hfeed hreturn) he hmore

/-- The line with a line feed behind it, if it has no end. -/
def closed (line : Text) : Text :=
  match line.getLast? with
  | some '\n' | some '\r' => line
  | _ => line ++ ['\n']

theorem signedLine_eq (sign : Char) (line : Text) : signedLine sign line = sign :: closed line := by
  unfold signedLine closed
  cases line.getLast? with
  | none => rfl
  | some c => split <;> simp_all

theorem closed_append_end {e : Text} (he : IsEnd e) (s : Text) : closed (s ++ e) = s ++ e := by
  unfold closed
  cases he <;> simp

theorem closed_of_unbroken (h : Unbroken s) : closed s = s ++ ['\n'] := by
  unfold closed
  split
  · next hlast => exact absurd (List.mem_of_getLast? hlast) h.feed
  · next hlast => exact absurd (List.mem_of_getLast? hlast) h.carriage
  · rfl

/-- A line that another one stands behind has an end. -/
theorem AreLines.pairwise_closed {lines : List Text} (h : AreLines lines) :
    lines.Pairwise fun line _ => closed line = line := by
  induction h with
  | nil => exact .nil
  | last hs => exact List.pairwise_singleton _ _
  | ended hs he _ ih => exact .cons (fun _ _ => closed_append_end he _) ih

/-- The text is one line with its end. -/
def IsLine (line : Text) : Prop := ∃ s e, line = s ++ e ∧ Unbroken s ∧ IsEnd e

theorem IsLine.cons {line : Text} (hfeed : c ≠ '\n') (hreturn : c ≠ '\r') (h : IsLine line) :
    IsLine (c :: line) := by
  obtain ⟨s, e, rfl, hs, he⟩ := h
  exact ⟨c :: s, e, rfl, hs.cons hfeed hreturn, he⟩

theorem AreLines.isLine_closed {lines : List Text} (h : AreLines lines) :
    ∀ line ∈ lines, IsLine (closed line) := by
  induction h with
  | nil => exact fun _ hmem => absurd hmem List.not_mem_nil
  | last hs =>
    intro line hmem
    rw [List.mem_singleton.mp hmem]
    exact ⟨_, ['\n'], closed_of_unbroken hs, hs, .feed⟩
  | ended hs he _ ih =>
    rw [List.forall_mem_cons]
    exact ⟨⟨_, _, closed_append_end he _, hs, he⟩, ih⟩

/-- A line with its end is the first line of what it stands in front of. -/
theorem fullLines_append {line : Text} (h : IsLine line) (ht : t.head? ≠ some '\n') :
    fullLines (line ++ t) = line :: fullLines t := by
  obtain ⟨s, e, rfl, hs, he⟩ := h
  rw [List.append_assoc]
  refine fullLines_append_of_end hs.feed hs.carriage ?_
  cases he with
  | feed => rfl
  | carriage => exact fullLines_return_cons ht
  | both => rfl

theorem fullLines_flatten {lines : List Text}
    (h : ∀ line ∈ lines, IsLine line ∧ line.head? ≠ some '\n') :
    fullLines lines.flatten = lines := by
  induction lines with
  | nil => rfl
  | cons line lines ih =>
    rw [List.forall_mem_cons] at h
    have hhead : lines.flatten.head? ≠ some '\n' := by
      cases lines with
      | nil => simp
      | cons next more =>
        obtain ⟨⟨s, e, rfl, -, he⟩, hnext⟩ := h.2 next List.mem_cons_self
        have hne : s ++ e ≠ [] := by cases he <;> simp
        rwa [List.flatten_cons, List.head?_append_of_ne_nil _ hne]
    rw [List.flatten_cons, fullLines_append h.1.1 hhead, ih h.2]

/-! ## Shown lines -/

/-- The line is shown as it is, or with a line feed behind it if it has no end. -/
def Shows (line shown : Text) : Prop := shown = line ∨ shown = closed line

/-- If the lines of a text are shown, only the last one can look different. -/
theorem AreLines.eq_or_eq_map_closed {lines shown : List Text} (h : AreLines lines)
    (hshown : List.Forall₂ Shows lines shown) : shown = lines ∨ shown = lines.map closed := by
  have hpairs := h.pairwise_closed
  clear h
  induction hshown with
  | nil => exact .inl rfl
  | @cons line first lines shown hfirst hshown ih =>
    obtain ⟨hclosed, hrest⟩ := List.pairwise_cons.mp hpairs
    cases hshown with
    | nil => exact hfirst.imp (congrArg ([·])) (congrArg ([·]))
    | @cons next _ more _ hnext hmore =>
      have hsame := hclosed next List.mem_cons_self
      have heq : first = line := hfirst.elim id fun h => h.trans hsame
      rw [heq, List.map_cons, hsame]
      exact (ih hrest).imp (congrArg (line :: ·)) (congrArg (line :: ·))

end Diff

end DocComments
