import DocComments.Text.Basic
import Mathlib.Data.List.DropRight

/-!
# Trimmed texts and their lines

Blanks at the ends of a text do not matter to what is left when it is trimmed. The lines of a text
that is joined from lines are these lines again, but for one carriage return at the end of the first
(`lines_joinLines`), and what a trimmed text begins and ends with is what its lines do
(`exists_lines_eq_cons`, `exists_getLast?_lines_of_suffix`). A piece without some character stands
in front of this character or behind it (`infix_append_cons_iff`).
-/

set_option autoImplicit false

namespace DocComments

namespace Text

variable {c : Char} {s t w : Text}

/-! ## Trimming -/

theorem allBlank_of_subset (h : s ⊆ t) (ht : allBlank t = true) : allBlank s = true :=
  List.all_eq_true.mpr fun c hc => List.all_eq_true.mp ht c (h hc)

theorem trimEnd_append_blank (t : Text) (hw : allBlank w = true) :
    trimEnd (t ++ w) = trimEnd t := by
  have hback : ∀ c ∈ w.reverse, isBlank c = true :=
    fun c hc => List.all_eq_true.mp hw c (List.mem_reverse.mp hc)
  rw [trimEnd, List.reverse_append, List.dropWhile_append_of_pos hback, trimEnd]

theorem trimStart_blank_append (t : Text) (hw : allBlank w = true) :
    trimStart (w ++ t) = trimStart t :=
  List.dropWhile_append_of_pos (List.all_eq_true.mp hw)

theorem trimStart_eq_nil (h : allBlank t = true) : trimStart t = [] :=
  List.dropWhile_eq_nil_iff.mpr (List.all_eq_true.mp h)

theorem trimEnd_eq_nil (h : allBlank t = true) : trimEnd t = [] :=
  List.rdropWhile_eq_nil_iff.mpr (List.all_eq_true.mp h)

theorem trimStart_trimStart (t : Text) : trimStart (trimStart t) = trimStart t :=
  List.dropWhile_idempotent isBlank t

theorem trimEnd_trimEnd (t : Text) : trimEnd (trimEnd t) = trimEnd t :=
  List.rdropWhile_idempotent isBlank t

/-- Nothing is trimmed in front if the first character is not blank. -/
theorem trimStart_eq_self_iff : trimStart t = t ↔ ∀ c ∈ t.head?, isBlank c = false := by
  cases t with
  | nil => simp
  | cons c t =>
    have h : trimStart (c :: t) = c :: t ↔ _ := List.dropWhile_eq_self_iff
    rw [h]
    simp

/-- Nothing is trimmed at the end if the last character is not blank. -/
theorem trimEnd_eq_self_iff : trimEnd t = t ↔ ∀ c ∈ t.getLast?, isBlank c = false := by
  have h : trimEnd t = t ↔ _ := List.rdropWhile_eq_self_iff
  rw [h]
  constructor
  · intro hlast c hc
    obtain ⟨hne, rfl⟩ := List.mem_getLast?_eq_getLast hc
    exact eq_false_of_ne_true (hlast _)
  · intro hlast hne
    rw [hlast _ (List.getLast_mem_getLast? hne)]
    exact Bool.false_ne_true

/-- What ends without blanks does so behind any other text. -/
theorem trimEnd_append_of_ne_nil (s : Text) (hne : t ≠ []) (h : trimEnd t = t) :
    trimEnd (s ++ t) = s ++ t := by
  rw [trimEnd_eq_self_iff, List.getLast?_append_of_ne_nil _ hne]
  exact trimEnd_eq_self_iff.mp h

theorem prefix_trimEnd (t : Text) : trimEnd t <+: t := List.rdropWhile_prefix isBlank t

/-- What is trimmed at the end is blank. -/
theorem exists_trimEnd_append (t : Text) : ∃ w, allBlank w = true ∧ t = trimEnd t ++ w := by
  have h : trimEnd t ++ t.rtakeWhile isBlank = t := List.rdropWhile_append_rtakeWhile
  exact ⟨_, List.all_eq_true.mpr fun c hc => List.mem_rtakeWhile_imp hc, h.symm⟩

/-- What is trimmed in front is blank. -/
theorem exists_append_trimStart (t : Text) : ∃ w, allBlank w = true ∧ t = w ++ trimStart t :=
  ⟨_, List.all_eq_true.mpr fun _ hc => List.mem_takeWhile_imp hc,
    List.takeWhile_append_dropWhile.symm⟩

theorem prefix_append_cases {p : Text} (h : p <+: s ++ t) :
    p <+: s ∨ ∃ q, q <+: t ∧ p = s ++ q := by
  rcases List.prefix_or_prefix_of_prefix h (List.prefix_append s t) with hs | ⟨q, rfl⟩
  · exact .inl hs
  · exact .inr ⟨q, (List.prefix_append_right_inj s).mp h, rfl⟩

/-- A piece that ends without blanks is not trimmed at the end. -/
theorem prefix_trimEnd_of_prefix {p : Text} (hp : trimEnd p = p) (h : p <+: t) :
    p <+: trimEnd t := by
  obtain ⟨w, hw, ht⟩ := exists_trimEnd_append t
  rw [ht] at h
  rcases prefix_append_cases h with hfront | ⟨q, hq, rfl⟩
  · exact hfront
  · -- the piece reaches into the blanks only if it ends where they begin
    have hsame : trimEnd t ++ q = trimEnd t := calc
      trimEnd t ++ q = trimEnd (trimEnd t ++ q) := hp.symm
      _ = trimEnd (trimEnd t) := trimEnd_append_blank _ (allBlank_of_subset hq.subset hw)
      _ = trimEnd t := trimEnd_trimEnd t
    exact ⟨[], (List.append_nil _).trans hsame⟩

/-- A piece that begins without blanks is not trimmed in front. -/
theorem suffix_trimStart_of_suffix {p : Text} (hp : trimStart p = p) (h : p <:+ t) :
    p <:+ trimStart t := by
  obtain ⟨w, hw, ht⟩ := exists_append_trimStart t
  rcases List.suffix_or_suffix_of_suffix h ⟨w, ht.symm⟩ with hback | ⟨q, rfl⟩
  · exact hback
  · have hq : allBlank q = true := by
      obtain ⟨front, hfront⟩ := h
      have hsplit : front ++ q ++ trimStart t = w ++ trimStart t := by
        rw [← ht, List.append_assoc, hfront]
      have hpart : q ⊆ w :=
        List.append_cancel_right hsplit ▸ List.subset_append_right front q
      exact allBlank_of_subset hpart hw
    have hsame : q ++ trimStart t = trimStart t := calc
      q ++ trimStart t = trimStart (q ++ trimStart t) := hp.symm
      _ = trimStart (trimStart t) := trimStart_blank_append _ hq
      _ = trimStart t := trimStart_trimStart t
    exact ⟨[], hsame⟩

theorem infix_trim (t : Text) : trim t <:+: t :=
  (prefix_trimEnd _).isInfix.trans (List.dropWhile_suffix isBlank).isInfix

/-- Nothing but blanks is trimmed to nothing. -/
theorem allBlank_of_trim_eq_nil (h : trim t = []) : allBlank t = true := by
  obtain ⟨front, hfront, ht⟩ := exists_append_trimStart t
  obtain ⟨back, hback, hstart⟩ := exists_trimEnd_append (trimStart t)
  rw [show trimEnd (trimStart t) = [] from h, List.nil_append] at hstart
  rw [ht, hstart, allBlank, List.all_append, Bool.and_eq_true]
  exact ⟨hfront, hback⟩

/-- A text is left as it is if it has no blanks at either end. -/
theorem trim_eq_self (hstart : trimStart t = t) (hstop : trimEnd t = t) : trim t = t := by
  rw [trim, hstart, hstop]

/-- A trimmed text has no blanks at either end. -/
theorem trimStart_trim (t : Text) : trimStart (trim t) = trim t := by
  rw [trimStart_eq_self_iff]
  intro c hc
  have hprefix := prefix_trimEnd (trimStart t)
  have hhead : c ∈ (trimStart t).head? := by
    obtain ⟨rest, hrest⟩ := List.head?_eq_some_iff.mp hc
    obtain ⟨w, hw⟩ := hprefix
    rw [← hw, show trimEnd (trimStart t) = c :: rest from hrest]
    rfl
  exact trimStart_eq_self_iff.mp (trimStart_trimStart t) c hhead

theorem trimEnd_trim (t : Text) : trimEnd (trim t) = trim t := trimEnd_trimEnd _

/-- Blanks behind a text do not matter when it is trimmed. -/
theorem trim_append_blank (t : Text) (hw : allBlank w = true) : trim (t ++ w) = trim t := by
  by_cases ht : allBlank t = true
  · have hboth : allBlank (t ++ w) = true := by
      rw [allBlank, List.all_append, Bool.and_eq_true]
      exact ⟨ht, hw⟩
    rw [trim, trim, trimStart_eq_nil hboth, trimStart_eq_nil ht]
  · -- what is left in front of the blanks keeps them behind it
    have hne : (trimStart t).isEmpty = false := by
      rw [List.isEmpty_eq_false_iff]
      exact fun h => ht (List.all_eq_true.mpr (List.dropWhile_eq_nil_iff.mp h))
    have hstart : trimStart (t ++ w) = trimStart t ++ w := by
      rw [trimStart, List.dropWhile_append, ← trimStart, hne, if_neg Bool.false_ne_true]
    rw [trim, hstart, trimEnd_append_blank _ hw, trim]

/-- Blanks in front of a text do not matter when it is trimmed. -/
theorem trim_blank_append (t : Text) (hw : allBlank w = true) : trim (w ++ t) = trim t := by
  rw [trim, trimStart_blank_append t hw, trim]

/-! ## Lines -/

/-- A line without the carriage return at its end. -/
def dropReturn (line : Text) : Text := if line.getLast? = some '\r' then line.dropLast else line

theorem dropReturn_of_ne (h : s.getLast? ≠ some '\r') : dropReturn s = s := if_neg h

theorem dropReturn_concat (s : Text) : dropReturn (s ++ ['\r']) = s := by simp [dropReturn]

theorem dropReturn_append (h : t ≠ []) (s : Text) :
    dropReturn (s ++ t) = s ++ dropReturn t := by
  unfold dropReturn
  rw [List.getLast?_append_of_ne_nil _ h]
  split
  · exact List.dropLast_append_of_ne_nil h
  · rfl

theorem prefix_dropReturn (s : Text) : dropReturn s <+: s := by
  unfold dropReturn
  split
  · exact List.dropLast_prefix s
  · exact List.prefix_rfl

/-- A line that does not end in a blank has no carriage return to lose. -/
theorem dropReturn_of_trimEnd (h : trimEnd s = s) : dropReturn s = s := by
  refine dropReturn_of_ne fun hlast => ?_
  have hblank := trimEnd_eq_self_iff.mp h _ hlast
  revert hblank
  decide

/-- The carriage return is a blank. -/
theorem trimEnd_dropReturn (s : Text) : trimEnd (dropReturn s) = trimEnd s := by
  by_cases hlast : s.getLast? = some '\r'
  · obtain ⟨front, rfl⟩ := List.getLast?_eq_some_iff.mp hlast
    rw [dropReturn_concat, trimEnd_append_blank _ (by decide)]
  · rw [dropReturn_of_ne hlast]

theorem dropReturn_dropReturn_eq_iff : dropReturn (dropReturn s) = s ↔ dropReturn s = s := by
  constructor
  · intro h
    have hle := (prefix_dropReturn (dropReturn s)).length_le
    rw [h] at hle
    exact (prefix_dropReturn s).eq_of_length_le hle
  · intro h
    rw [h, h]

theorem dropReturn_eq_self_iff : dropReturn s = s ↔ ¬ ['\r'] <:+ s := by
  constructor
  · rintro h ⟨front, rfl⟩
    rw [dropReturn_concat] at h
    exact absurd (congrArg List.length h) (by simp)
  · intro h
    refine dropReturn_of_ne fun hlast => h ?_
    obtain ⟨front, rfl⟩ := List.getLast?_eq_some_iff.mp hlast
    exact List.suffix_append front ['\r']

/-- Another carriage return is at the end if there were two. -/
theorem suffix_dropReturn_iff : ['\r'] <:+ dropReturn s ↔ ['\r', '\r'] <:+ s := by
  constructor
  · rintro ⟨front, h⟩
    by_cases hlast : s.getLast? = some '\r'
    · obtain ⟨rest, rfl⟩ := List.getLast?_eq_some_iff.mp hlast
      rw [dropReturn_concat] at h
      exact ⟨front, by rw [← h]; simp⟩
    · rw [dropReturn_of_ne hlast] at h
      exact absurd (by rw [← h]; simp) hlast
  · rintro ⟨front, rfl⟩
    rw [List.append_cons, dropReturn_concat]
    exact List.suffix_append front ['\r']

theorem lines_cons (hc : c ≠ '\n') (hreturn : c = '\r' → s.head? ≠ some '\n') :
    lines (c :: s) =
      match lines s with
      | [] => [[c]]
      | line :: more => (c :: line) :: more := by
  refine lines.eq_4 c s hc fun rest h hs => hreturn h ?_
  rw [hs]
  rfl

/-- A line feed ends a line. -/
theorem lines_append_newline (hs : '\n' ∉ s) (t : Text) :
    lines (s ++ '\n' :: t) = dropReturn s :: lines t := by
  induction s with
  | nil => rfl
  | cons c s ih =>
    rw [List.mem_cons, not_or] at hs
    have hrest := ih hs.2
    by_cases hreturn : c = '\r' ∧ s = []
    · obtain ⟨rfl, rfl⟩ := hreturn
      rfl
    · have hkeep : dropReturn (c :: s) = c :: dropReturn s := by
        by_cases hnil : s = []
        · subst hnil
          exact dropReturn_of_ne fun h => hreturn ⟨by simpa using h, rfl⟩
        · exact dropReturn_append hnil [c]
      rw [List.cons_append, lines_cons (Ne.symm hs.1), hrest, hkeep]
      rintro rfl
      cases s with
      | nil => exact absurd ⟨rfl, rfl⟩ hreturn
      | cons d s =>
        intro h
        exact hs.2 (by rw [← Option.some.inj h]; exact List.mem_cons_self)

/-- A text without a line feed is one line. -/
theorem lines_of_not_mem (hs : '\n' ∉ s) (hne : s ≠ []) : lines s = [s] := by
  induction s with
  | nil => exact absurd rfl hne
  | cons c s ih =>
    rw [List.mem_cons, not_or] at hs
    rw [lines_cons (Ne.symm hs.1)]
    · by_cases hnil : s = []
      · rw [hnil]
        rfl
      · rw [ih hs.2 hnil]
    · intro _ h
      exact hs.2 (List.mem_of_mem_head? h)

theorem lines_ne_nil (h : t ≠ []) : lines t ≠ [] := by
  fun_cases lines t <;> simp_all

/-- A text is one piece without some character, or a piece with the character behind it and the
rest. -/
theorem induction_pieces (c : Char) {P : Text → Prop} (piece : ∀ s, c ∉ s → P s)
    (next : ∀ s t, c ∉ s → P t → P (s ++ c :: t)) (t : Text) : P t := by
  induction hlength : t.length using Nat.strong_induction_on generalizing t with
  | _ n ih =>
    by_cases hmem : c ∈ t
    · obtain ⟨s, rest, rfl, hs⟩ := List.eq_append_cons_of_mem hmem
      refine next s rest hs (ih rest.length ?_ rest rfl)
      rw [← hlength, List.length_append, List.length_cons]
      omega
    · exact piece t hmem

/-- A text is one line, or a line with a line feed behind it and the rest. -/
theorem induction_lines {P : Text → Prop} (line : ∀ s, '\n' ∉ s → P s)
    (next : ∀ s t, '\n' ∉ s → P t → P (s ++ '\n' :: t)) (t : Text) : P t :=
  induction_pieces '\n' line next t

/-! ## Joined lines -/

theorem joinLines_cons (line : Text) {ls : List Text} (h : ls ≠ []) :
    joinLines (line :: ls) = line ++ '\n' :: joinLines ls := by
  cases ls with
  | nil => exact absurd rfl h
  | cons next more => simp [joinLines]

theorem joinLines_append_cons (s line : Text) (ls : List Text) :
    joinLines ((s ++ line) :: ls) = s ++ joinLines (line :: ls) := by
  cases ls with
  | nil => simp [joinLines]
  | cons next more => simp [joinLines_cons, List.append_assoc]

theorem joinLines_concat {ls : List Text} (h : ls ≠ []) (line : Text) :
    joinLines (ls ++ [line]) = joinLines ls ++ '\n' :: line := by
  induction ls with
  | nil => exact absurd rfl h
  | cons first ls ih =>
    by_cases hnil : ls = []
    · subst hnil
      simp [joinLines]
    · rw [List.cons_append, joinLines_cons first (by simp), ih hnil, joinLines_cons first hnil,
        List.append_assoc, List.cons_append]

theorem joinLines_singleton (line : Text) : joinLines [line] = line := by simp [joinLines]

/-- Joined lines end as the last of them does. -/
theorem getLast?_joinLines {ls : List Text} {line : Text} (h : ls.getLast? = some line)
    (hne : line ≠ []) : (joinLines ls).getLast? = line.getLast? := by
  obtain ⟨front, rfl⟩ := List.getLast?_eq_some_iff.mp h
  by_cases hnil : front = []
  · rw [hnil, List.nil_append, joinLines_singleton]
  · rw [joinLines_concat hnil, List.getLast?_append_of_ne_nil _ (List.cons_ne_nil _ _),
      List.getLast?_cons_of_ne_nil hne]

/-- The lines of a text that was joined from several lines. The first one loses a carriage return at
its end. -/
theorem lines_joinLines {first : Text} {more : List Text} (hfirst : '\n' ∉ first)
    (hmore : ∀ line ∈ more, '\n' ∉ line ∧ dropReturn line = line)
    (hlast : ∀ line ∈ more.getLast?, line ≠ []) (hne : more ≠ []) :
    lines (joinLines (first :: more)) = dropReturn first :: more := by
  induction more generalizing first with
  | nil => exact absurd rfl hne
  | cons next more ih =>
    obtain ⟨hnext, hreturn⟩ := hmore next List.mem_cons_self
    rw [joinLines_cons first hne, lines_append_newline hfirst]
    by_cases hnil : more = []
    · subst hnil
      rw [show joinLines [next] = next by simp [joinLines],
        lines_of_not_mem hnext (hlast next rfl)]
    · have hrest : ∀ line ∈ more.getLast?, line ≠ [] := by
        intro line hline
        refine hlast line ?_
        rwa [List.getLast?_cons_of_ne_nil hnil]
      rw [ih hnext (fun line hline => hmore line (List.mem_cons_of_mem _ hline)) hrest hnil,
        hreturn]

/-- The first line begins as the text does. -/
theorem exists_lines_eq_cons (hc : isBlank c = false) (t : Text) :
    ∃ first more, lines (c :: t) = (c :: first) :: more := by
  rw [lines_cons]
  · cases lines t with
    | nil => exact ⟨[], [], rfl⟩
    | cons line more => exact ⟨line, more, rfl⟩
  · rintro rfl
    exact absurd hc (by decide)
  · rintro rfl
    exact absurd hc (by decide)

/-- A piece without some character that a text begins with stands in front of this character. -/
theorem prefix_append_cons_iff {p : Text} (hp : c ∉ p) : p <+: s ++ c :: t ↔ p <+: s := by
  constructor
  · intro h
    rcases prefix_append_cases h with hs | ⟨rest, hrest, rfl⟩
    · exact hs
    · cases rest with
      | nil => exact (List.append_nil s).symm ▸ List.prefix_rfl
      | cons d rest =>
        obtain rfl := (List.cons_prefix_cons.mp hrest).1
        exact absurd (List.mem_append_right s List.mem_cons_self) hp
  · exact fun h => h.trans (List.prefix_append s _)

/-- A piece without some character that a text ends with stands behind this character. -/
theorem suffix_of_suffix_append_cons {p : Text} (hp : c ∉ p) (h : p <:+ s ++ c :: t) : p <:+ t := by
  rcases List.suffix_or_suffix_of_suffix h (List.suffix_append s (c :: t)) with hback | hback
  · rcases List.suffix_cons_iff.mp hback with rfl | hback
    · exact absurd List.mem_cons_self hp
    · exact hback
  · exact absurd (hback.subset List.mem_cons_self) hp

/-- What a text ends with from some character on does not begin in front of the first one. -/
theorem cons_suffix_append_iff {u : Text} (hs : c ∉ s) : c :: u <:+ s ++ t ↔ c :: u <:+ t := by
  induction s with
  | nil => rfl
  | cons d s ih =>
    rw [List.mem_cons, not_or] at hs
    rw [List.cons_append, List.suffix_cons_iff, ih hs.2, or_iff_right]
    exact fun h => hs.1 (List.cons.inj h).1

/-- A piece without blanks that a text ends with is the end of its last line. -/
theorem exists_getLast?_lines_of_suffix {p : Text} (hp : p ≠ [])
    (hblank : ∀ c ∈ p, isBlank c = false) (h : p <:+ t) :
    ∃ last, (lines t).getLast? = some last ∧ p <:+ last := by
  have hline : '\n' ∉ p := fun hmem => absurd (hblank _ hmem) (by decide)
  have hne : ∀ {t : Text}, p <:+ t → t ≠ [] := by
    rintro t hsuffix rfl
    exact hp (List.suffix_nil.mp hsuffix)
  induction t using induction_lines with
  | line s hs => exact ⟨s, by rw [lines_of_not_mem hs (hne h)]; rfl, h⟩
  | next s t hs ih =>
    have hback := suffix_of_suffix_append_cons hline h
    obtain ⟨last, hlast, hsuffix⟩ := ih hback
    rw [lines_append_newline hs, List.getLast?_cons_of_ne_nil (lines_ne_nil (hne hback))]
    exact ⟨last, hlast, hsuffix⟩

/-- The last line ends as the text does. -/
theorem exists_getLast?_lines (hc : isBlank c = false) (ht : t.getLast? = some c) :
    ∃ line, (lines t).getLast? = some line ∧ line.getLast? = some c := by
  obtain ⟨front, rfl⟩ := List.getLast?_eq_some_iff.mp ht
  obtain ⟨last, hlast, rest, rfl⟩ := exists_getLast?_lines_of_suffix (List.cons_ne_nil c [])
    (List.forall_mem_singleton.mpr hc) (List.suffix_append front [c])
  exact ⟨_, hlast, List.getLast?_concat⟩

/-! ## Pieces of a text -/

/-- A piece without some character does not begin with it. -/
theorem infix_cons_iff_of_not_mem {p : Text} (hp : c ∉ p) : p <:+: c :: t ↔ p <:+: t := by
  rw [List.infix_cons_iff, or_iff_right_iff_imp]
  intro h
  rw [← List.nil_append (c :: t), prefix_append_cons_iff hp] at h
  exact List.prefix_nil.mp h ▸ List.nil_infix

/-- A piece without some character stands in front of the character or behind it. -/
theorem infix_append_cons_iff {p : Text} (hp : c ∉ p) :
    p <:+: s ++ c :: t ↔ p <:+: s ∨ p <:+: t := by
  induction s with
  | nil =>
    rw [List.nil_append, infix_cons_iff_of_not_mem hp, iff_or_self, List.infix_nil]
    rintro rfl
    exact List.nil_infix
  | cons d s ih =>
    rw [List.cons_append, List.infix_cons_iff, ih, List.infix_cons_iff, or_assoc,
      ← List.cons_append, prefix_append_cons_iff hp]

/-- What stands in front of a line feed ends a line. -/
theorem infix_append_newline_iff {p : Text} (hs : '\n' ∉ s) (hp : '\n' ∉ p) :
    p ++ ['\n'] <:+: s ++ '\n' :: t ↔ p <:+ s ∨ p ++ ['\n'] <:+: t := by
  constructor
  · rintro ⟨u, v, h⟩
    rw [← List.append_assoc u, List.append_assoc, List.singleton_append] at h
    rcases List.append_eq_append_iff.mp h with ⟨rest, hs', hrest⟩ | ⟨rest, hup, hrest⟩
    · cases rest with
      | nil => exact .inl ⟨u, by rw [hs', List.append_nil]⟩
      | cons c rest =>
        obtain ⟨rfl, -⟩ := List.cons.inj hrest
        exact absurd (hs' ▸ List.mem_append_right _ List.mem_cons_self) hs
    · cases rest with
      | nil => exact .inl ⟨u, by rw [hup, List.append_nil]⟩
      | cons c rest =>
        obtain ⟨rfl, ht⟩ := List.cons.inj hrest
        -- the line feed behind the first line stands in front of the piece, which has none
        rcases List.append_eq_append_iff.mp hup with ⟨inner, -, hpi⟩ | ⟨inner, -, hci⟩
        · exact absurd (hpi ▸ List.mem_append_right _ List.mem_cons_self) hp
        · cases inner with
          | nil =>
            rw [List.nil_append] at hci
            exact absurd (hci ▸ List.mem_cons_self) hp
          | cons e inner =>
            rw [List.cons_append] at hci
            exact .inr ⟨inner, v, by rw [ht, (List.cons.inj hci).2]; simp⟩
  · rintro (⟨u, rfl⟩ | h)
    · exact ⟨u, t, by simp⟩
    · exact h.trans ((List.suffix_cons '\n' t).trans (List.suffix_append s _)).isInfix

/-- Blanks behind a text add no piece without blanks to it. -/
theorem infix_append_blank_iff {p : Text} (hp : p ≠ []) (hblank : ∀ c ∈ p, isBlank c = false)
    (hw : allBlank w = true) : p <:+: s ++ w ↔ p <:+: s := by
  cases w with
  | nil => rw [List.append_nil]
  | cons c w =>
    have hc := List.all_eq_true.mp hw
    have hmem : ∀ d ∈ c :: w, d ∉ p := fun d hd h =>
      absurd (hc d hd) (by rw [hblank d h]; exact Bool.false_ne_true)
    rw [infix_append_cons_iff (hmem c List.mem_cons_self), or_iff_left]
    intro h
    obtain ⟨d, rest, rfl⟩ := List.exists_cons_of_ne_nil hp
    exact hmem d (List.mem_cons_of_mem _ (h.subset List.mem_cons_self)) List.mem_cons_self

/-- Blanks in front of a text add no piece without blanks to it. -/
theorem infix_blank_append_iff {p : Text} (hblank : ∀ c ∈ p, isBlank c = false)
    (hw : allBlank w = true) : p <:+: w ++ s ↔ p <:+: s := by
  induction w with
  | nil => rw [List.nil_append]
  | cons c w ih =>
    rw [allBlank, List.all_cons, Bool.and_eq_true] at hw
    have hc : c ∉ p := fun h => absurd hw.1 (by rw [hblank c h]; exact Bool.false_ne_true)
    rw [List.cons_append, infix_cons_iff_of_not_mem hc, ih hw.2]

/-- A text begins with its first line. -/
theorem prefix_of_lines_eq_cons {first : Text} {more : List Text} (h : lines t = first :: more) :
    first <+: t := by
  fun_induction lines t generalizing first more with
  | case1 => cases h
  | case2 rest ih => exact (List.cons.inj h).1 ▸ List.nil_prefix
  | case3 rest ih => exact (List.cons.inj h).1 ▸ List.nil_prefix
  | case4 d rest _ _ hnil ih => exact (List.cons.inj h).1 ▸ List.prefix_append [d] rest
  | case5 d rest _ _ line others hcons ih =>
    exact (List.cons.inj h).1 ▸ List.cons_prefix_cons.mpr ⟨rfl, ih hcons⟩

/-- A line is a piece of the text. -/
theorem infix_of_mem_lines {line : Text} (h : line ∈ lines t) : line <:+: t := by
  fun_induction lines t generalizing line with
  | case1 => cases h
  | case2 rest ih =>
    rcases List.mem_cons.mp h with rfl | h
    · exact List.nil_infix
    · exact (ih h).trans (List.suffix_cons _ rest).isInfix
  | case3 rest ih =>
    rcases List.mem_cons.mp h with rfl | h
    · exact List.nil_infix
    · exact (ih h).trans (List.suffix_append ['\r', '\n'] rest).isInfix
  | case4 d rest _ _ hnil ih =>
    rw [List.mem_singleton.mp h]
    exact (List.prefix_append [d] rest).isInfix
  | case5 d rest _ _ first more hcons ih =>
    rcases List.mem_cons.mp h with rfl | h
    · exact (List.cons_prefix_cons.mpr ⟨rfl, prefix_of_lines_eq_cons hcons⟩).isInfix
    · exact (ih (hcons ▸ List.mem_cons_of_mem _ h)).trans (List.suffix_cons d rest).isInfix

/-- A piece without a line feed stands on one of the lines. -/
theorem infix_joinLines_iff {p : Text} (hp : '\n' ∉ p) {ls : List Text} (hls : ls ≠ []) :
    p <:+: joinLines ls ↔ ∃ line ∈ ls, p <:+: line := by
  induction ls with
  | nil => exact absurd rfl hls
  | cons line ls ih =>
    by_cases hnil : ls = []
    · subst hnil
      simp [joinLines]
    · rw [joinLines_cons line hnil, infix_append_cons_iff hp, ih hnil, List.exists_mem_cons_iff]

/-- A piece without blanks does not need the carriage return at the end of the first line. -/
theorem infix_joinLines_dropReturn_iff {p : Text} (hp : p ≠ [])
    (hblank : ∀ c ∈ p, isBlank c = false) (first : Text) (more : List Text) :
    p <:+: joinLines (dropReturn first :: more) ↔ p <:+: joinLines (first :: more) := by
  have hline : '\n' ∉ p := fun h => absurd (hblank _ h) (by decide)
  have hfirst : p <:+: dropReturn first ↔ p <:+: first := by
    by_cases hlast : first.getLast? = some '\r'
    · obtain ⟨rest, rfl⟩ := List.getLast?_eq_some_iff.mp hlast
      rw [dropReturn_concat, infix_append_blank_iff hp hblank (by decide)]
    · rw [dropReturn_of_ne hlast]
  rw [infix_joinLines_iff hline (List.cons_ne_nil _ _), List.exists_mem_cons_iff, hfirst,
    ← List.exists_mem_cons_iff, ← infix_joinLines_iff hline (List.cons_ne_nil _ _)]

end Text

end DocComments
