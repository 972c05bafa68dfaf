import DocComments.Comment.Docstring
import DocComments.Proofs.Text.Lines

/-!
# Quotation marks in docstrings

Three quotation marks in a row would end a docstring, so each of three is escaped. Of a longer run
one or two marks can be left, and these stand behind the last mark that was escaped: behind a run of
five marks, or eight, or eleven, there are three in a row again. `double_infix_escapeQuotes_iff`
says that this happens with no other text.
-/

set_option autoImplicit false

namespace DocComments

namespace Docstring

variable {c : Char} {s t : Text}

/-! ## Runs of quotation marks -/

theorem isBlank_of_mem_double (hc : c ∈ double) : Text.isBlank c = false := by
  obtain rfl : c = '"' := List.eq_of_mem_replicate (n := 3) hc
  rfl

/-- The text has a run of five quotation marks, or of eight, eleven and so on. -/
def HasLooseMarks (t : Text) : Prop :=
  ∃ front n back, t = front ++ (List.replicate (3 * n + 5) '"' ++ back) ∧
    front.getLast? ≠ some '"' ∧ back.head? ≠ some '"'

/-- A text is a run of quotation marks, or a run of them with another character and a text
behind. -/
theorem induction_runs {P : Text → Prop} (run : ∀ n, P (List.replicate n '"'))
    (next : ∀ n c t, c ≠ '"' → P t → P (List.replicate n '"' ++ c :: t)) (t : Text) : P t := by
  induction hlength : t.length using Nat.strong_induction_on generalizing t with
  | _ length ih =>
    have hmarks : ∀ c ∈ t.takeWhile (· == '"'), c = '"' :=
      fun c hc => beq_iff_eq.mp (List.mem_takeWhile_imp (p := (· == '"')) hc)
    have hsplit : t.takeWhile (· == '"') ++ t.dropWhile (· == '"') = t :=
      List.takeWhile_append_dropWhile
    rw [List.eq_replicate_of_mem hmarks] at hsplit
    cases hrest : t.dropWhile (· == '"') with
    | nil =>
      rw [hrest, List.append_nil] at hsplit
      exact hsplit ▸ run _
    | cons c rest =>
      have hc : c ≠ '"' := by
        have h := List.head?_dropWhile_not (· == '"') t
        rw [hrest] at h
        simpa using h
      rw [hrest] at hsplit
      have hshorter := congrArg List.length hsplit
      rw [List.length_append, List.length_cons, hlength] at hshorter
      exact hsplit ▸ next _ c rest hc (ih rest.length (by omega) rest rfl)

theorem head?_eq_of_replicate_append {m n : Nat} (hs : s.head? ≠ some '"')
    (ht : t.head? ≠ some '"')
    (h : List.replicate m '"' ++ s = List.replicate n '"' ++ t) : m = n := by
  induction m generalizing n with
  | zero =>
    cases n with
    | zero => rfl
    | succ n => exact absurd (congrArg List.head? h) hs
  | succ m ih =>
    cases n with
    | zero => exact absurd (congrArg List.head? h).symm ht
    | succ n =>
      rw [List.replicate_succ, List.replicate_succ] at h
      rw [ih (List.cons.inj h).2]

theorem hasLooseMarks_replicate_iff {m : Nat} :
    HasLooseMarks (List.replicate m '"') ↔ ∃ n, m = 3 * n + 5 := by
  constructor
  · rintro ⟨front, n, back, h, hfront, hback⟩
    have hall : ∀ c ∈ front ++ (List.replicate (3 * n + 5) '"' ++ back), c = '"' :=
      fun c hc => List.eq_of_mem_replicate (h ▸ hc)
    have hnil : front = [] := by
      by_contra hne
      refine hfront ?_
      rw [List.getLast?_eq_some_getLast hne,
        hall _ (List.mem_append_left _ (List.getLast_mem hne))]
    rw [hnil, List.nil_append, ← List.append_nil (List.replicate m '"')] at h
    exact ⟨n, head?_eq_of_replicate_append (by simp) hback h⟩
  · rintro ⟨n, rfl⟩
    exact ⟨[], n, [], by simp, by simp, by simp⟩

theorem hasLooseMarks_append_iff (hc : c ≠ '"') {m : Nat} :
    HasLooseMarks (List.replicate m '"' ++ c :: t) ↔ (∃ n, m = 3 * n + 5) ∨ HasLooseMarks t := by
  have hhead : (c :: t).head? ≠ some '"' := fun h => hc (Option.some.inj h)
  constructor
  · rintro ⟨front, n, back, h, hfront, hback⟩
    rcases List.append_eq_append_iff.mp h.symm with ⟨inner, hmarks, hrun⟩ | ⟨inner, hfrontEq, hrest⟩
    · -- the front part lies within the first run, and does not end with a mark
      have hnil : front = [] := by
        by_contra hne
        refine hfront ?_
        have hmem := hmarks ▸ List.mem_append_left inner (List.getLast_mem hne)
        rw [List.getLast?_eq_some_getLast hne, List.eq_of_mem_replicate hmem]
      rw [hnil, List.nil_append] at h
      exact .inl ⟨n, head?_eq_of_replicate_append hhead hback h⟩
    · cases inner with
      | nil =>
        rw [List.nil_append] at hrest
        exact absurd (hrest ▸ rfl) hhead
      | cons d inner =>
        rw [List.cons_append] at hrest
        refine .inr ⟨inner, n, back, (List.cons.inj hrest).2, ?_, hback⟩
        intro hlast
        refine hfront ?_
        rw [hfrontEq, List.getLast?_append, List.getLast?_cons, hlast]
        rfl
  · rintro (⟨n, rfl⟩ | ⟨front, n, back, rfl, hfront, hback⟩)
    · exact ⟨[], n, c :: t, rfl, by simp, hhead⟩
    · refine ⟨List.replicate m '"' ++ c :: front, n, back, by simp, ?_, hback⟩
      rw [List.getLast?_append, List.getLast?_cons]
      cases hlast : front.getLast? with
      | none => exact fun h => hc (Option.some.inj h)
      | some d =>
        intro h
        rw [hlast] at hfront
        exact hfront h

/-! ## Escaping -/

def escapedDouble : Text := ['\\', '"', '\\', '"', '\\', '"']

@[simp] theorem escapeQuotes_nil : escapeQuotes [] = [] := rfl

theorem escapeQuotes_double_append (t : Text) :
    escapeQuotes (double ++ t) = escapedDouble ++ escapeQuotes t := rfl

theorem escapeQuotes_cons_of_few (h : ¬ double <+: c :: t) :
    escapeQuotes (c :: t) = c :: escapeQuotes t := by
  rw [escapeQuotes]
  rintro rest rfl rfl
  exact h (List.prefix_append double rest)

/-- A text is empty, or begins with three quotation marks, or with another character or fewer
marks. -/
theorem induction_double {P : Text → Prop} (nil : P []) (marks : ∀ t, P t → P (double ++ t))
    (next : ∀ c t, ¬ double <+: c :: t → P t → P (c :: t)) (t : Text) : P t := by
  induction t using escapeQuotes.induct with
  | case1 => exact nil
  | case2 rest ih => exact marks rest ih
  | case3 c rest hrest ih =>
    refine next c rest (fun hmarks => ?_) ih
    obtain ⟨back, hback⟩ := hmarks
    obtain ⟨hc, htail⟩ := List.cons.inj hback
    exact hrest back hc.symm htail.symm

theorem escapeQuotes_cons (hc : c ≠ '"') (t : Text) :
    escapeQuotes (c :: t) = c :: escapeQuotes t :=
  escapeQuotes_cons_of_few fun h => hc (List.cons_prefix_cons.mp h).1.symm

/-- The first three of the marks in a run are escaped, then the next three, and so on. -/
theorem escapeQuotes_replicate_append (ht : t.head? ≠ some '"') (n r : Nat) (hr : r < 3) :
    escapeQuotes (List.replicate (3 * n + r) '"' ++ t)
      = (List.replicate n escapedDouble).flatten ++ (List.replicate r '"' ++ escapeQuotes t) := by
  induction n with
  | zero =>
    rw [Nat.mul_zero, Nat.zero_add, List.replicate_zero, List.flatten_nil, List.nil_append]
    induction r with
    | zero => rfl
    | succ r ih =>
      have hfew : ¬ double <+: '"' :: (List.replicate r '"' ++ t) := by
        rintro ⟨back, hback⟩
        obtain rfl | rfl : r = 0 ∨ r = 1 := by omega
        · exact ht (congrArg List.head? (List.cons.inj hback).2).symm
        · exact ht (congrArg List.head? (List.cons.inj (List.cons.inj hback).2).2).symm
      rw [List.replicate_succ, List.cons_append, escapeQuotes_cons_of_few hfew,
        ih (by omega), List.cons_append]
  | succ n ih =>
    have hmarks : List.replicate (3 * (n + 1) + r) '"'
        = double ++ List.replicate (3 * n + r) '"' := by
      rw [show 3 * (n + 1) + r = 3 + (3 * n + r) by omega, List.replicate_add]
      rfl
    rw [hmarks, List.append_assoc, escapeQuotes_double_append, ih, List.replicate_succ,
      List.flatten_cons, List.append_assoc]

/-- What stands in front of another character is escaped by itself. -/
theorem escapeQuotes_append_cons (hc : c ≠ '"') (s t : Text) :
    escapeQuotes (s ++ c :: t) = escapeQuotes s ++ c :: escapeQuotes t := by
  induction s using induction_runs with
  | run m =>
    have hhead : (c :: t).head? ≠ some '"' := fun h => hc (Option.some.inj h)
    have hm : m = 3 * (m / 3) + m % 3 := (Nat.div_add_mod m 3).symm
    have hr : m % 3 < 3 := Nat.mod_lt m (by decide)
    have hrun := escapeQuotes_replicate_append (t := []) (by simp) (m / 3) (m % 3) hr
    rw [hm, escapeQuotes_replicate_append hhead _ _ hr, escapeQuotes_cons hc]
    rw [List.append_nil] at hrun
    rw [hrun]
    simp
  | next m d s hd ih =>
    have hhead : ∀ s, (d :: s).head? ≠ some '"' := fun _ h => hd (Option.some.inj h)
    have hm : m = 3 * (m / 3) + m % 3 := (Nat.div_add_mod m 3).symm
    have hr : m % 3 < 3 := Nat.mod_lt m (by decide)
    rw [List.append_assoc, List.cons_append, hm, escapeQuotes_replicate_append (hhead _) _ _ hr,
      escapeQuotes_replicate_append (hhead _) _ _ hr, escapeQuotes_cons hd, escapeQuotes_cons hd,
      ih]
    simp

theorem escapeQuotes_joinLines (ls : List Text) :
    escapeQuotes (Text.joinLines ls) = Text.joinLines (ls.map escapeQuotes) := by
  induction ls with
  | nil => rfl
  | cons line ls ih =>
    by_cases hnil : ls = []
    · subst hnil
      simp [Text.joinLines]
    · rw [Text.joinLines_cons line hnil, escapeQuotes_append_cons (by decide), ih, List.map_cons,
        Text.joinLines_cons _ (by simpa using hnil)]

/-- Without three quotation marks in a row there is nothing to escape. -/
theorem escapeQuotes_eq_self (h : ¬ double <:+: t) : escapeQuotes t = t := by
  induction t using induction_double with
  | nil => rfl
  | marks t ih => exact absurd (List.prefix_append double t).isInfix h
  | next c t hfew ih =>
    rw [escapeQuotes_cons_of_few hfew,
      ih fun hpiece => h (hpiece.trans (List.suffix_cons c t).isInfix)]

theorem prefix_escapeQuotes_iff {p : Text} (hmark : '"' ∉ p) (hslash : '\\' ∉ p) (t : Text) :
    p <+: escapeQuotes t ↔ p <+: t := by
  induction t using induction_double generalizing p with
  | nil => rfl
  | marks t ih =>
    cases p with
    | nil => simp
    | cons d p =>
      rw [List.mem_cons, not_or] at hmark hslash
      change d :: p <+: '\\' :: _ ↔ d :: p <+: '"' :: _
      rw [List.cons_prefix_cons, List.cons_prefix_cons]
      exact iff_of_false (fun h => hslash.1 h.1.symm) fun h => hmark.1 h.1.symm
  | next c t hfew ih =>
    rw [escapeQuotes_cons_of_few hfew]
    cases p with
    | nil => simp
    | cons d p =>
      rw [List.mem_cons, not_or] at hmark hslash
      rw [List.cons_prefix_cons, List.cons_prefix_cons, ih hmark.2 hslash.2]

/-- To escape quotation marks adds and removes no piece without them and without backslashes. -/
theorem infix_escapeQuotes_iff {p : Text} (hmark : '"' ∉ p) (hslash : '\\' ∉ p) (t : Text) :
    p <:+: escapeQuotes t ↔ p <:+: t := by
  induction t using induction_double with
  | nil => rfl
  | marks t ih =>
    rw [escapeQuotes_double_append, escapedDouble, double]
    simp only [List.cons_append, List.nil_append, Text.infix_cons_iff_of_not_mem, hmark, hslash,
      not_false_eq_true, ih]
  | next c t hfew ih =>
    have hprefix := prefix_escapeQuotes_iff hmark hslash (c :: t)
    rw [escapeQuotes_cons_of_few hfew] at hprefix ⊢
    rw [List.infix_cons_iff, List.infix_cons_iff, hprefix, ih]

theorem mem_of_mem_escapeQuotes (hc : c ≠ '\\') (h : c ∈ escapeQuotes t) : c ∈ t := by
  induction t using induction_double with
  | nil => exact h
  | marks t ih =>
    rw [escapeQuotes_double_append, List.mem_append] at h
    rcases h with h | h
    · have hmark : c = '"' := by simpa [escapedDouble, hc] using h
      exact List.mem_append_left _ (hmark ▸ List.mem_cons_self)
    · exact List.mem_append_right _ (ih h)
  | next d t hfew ih =>
    rw [escapeQuotes_cons_of_few hfew] at h
    rcases List.mem_cons.mp h with rfl | h
    · exact List.mem_cons_self
    · exact List.mem_cons_of_mem d (ih h)

theorem count_escapeQuotes (t : Text) : (escapeQuotes t).count '"' = t.count '"' := by
  induction t using induction_double with
  | nil => rfl
  | marks t ih =>
    rw [escapeQuotes_double_append, List.count_append, List.count_append, ih]
    rfl
  | next c t hfew ih =>
    rw [escapeQuotes_cons_of_few hfew, List.count_cons, List.count_cons, ih]

theorem escapeQuotes_ne_nil (h : t ≠ []) : escapeQuotes t ≠ [] := by
  induction t using induction_double with
  | nil => exact absurd rfl h
  | marks t ih => exact List.cons_ne_nil _ _
  | next c t hfew ih =>
    rw [escapeQuotes_cons_of_few hfew]
    exact List.cons_ne_nil _ _

/-- An escaped text begins with a blank where the text does. -/
theorem trimStart_escapeQuotes (h : Text.trimStart t = t) :
    Text.trimStart (escapeQuotes t) = escapeQuotes t := by
  rw [Text.trimStart_eq_self_iff] at h ⊢
  induction t using induction_double with
  | nil => exact h
  | marks t ih =>
    rintro c hc
    obtain rfl : '\\' = c := Option.some.inj hc
    rfl
  | next c t hfew ih =>
    rw [escapeQuotes_cons_of_few hfew]
    exact h

/-- An escaped text ends with the character that the text ends with. -/
theorem getLast?_escapeQuotes (t : Text) : (escapeQuotes t).getLast? = t.getLast? := by
  induction t using induction_double with
  | nil => rfl
  | marks t ih =>
    by_cases hnil : t = []
    · subst hnil
      rfl
    · rw [escapeQuotes_double_append,
        List.getLast?_append_of_ne_nil _ (escapeQuotes_ne_nil hnil),
        List.getLast?_append_of_ne_nil _ hnil, ih]
  | next c t hfew ih =>
    rw [escapeQuotes_cons_of_few hfew]
    by_cases hnil : t = []
    · subst hnil
      rfl
    · rw [List.getLast?_cons_of_ne_nil hnil,
        List.getLast?_cons_of_ne_nil (escapeQuotes_ne_nil hnil), ih]

/-- Three marks are in a row behind escaped ones if two are left, and only then. -/
theorem double_infix_flatten_iff (n r : Nat) (hr : r < 3) :
    double <:+: (List.replicate n escapedDouble).flatten ++ List.replicate r '"' ↔
      0 < n ∧ r = 2 := by
  have hno : '\\' ∉ double := by decide
  have hone : ¬ double <:+: ['"'] := by decide
  have hnone : ¬ double <:+: [] := by decide
  induction n with
  | zero =>
    have hshort : ¬ double <:+: List.replicate r '"' := by
      intro h
      have hle := h.length_le
      rw [List.length_replicate] at hle
      exact absurd hle (by simp [double]; omega)
    simp [hshort]
  | succ n ih =>
    have hcut : (List.replicate (n + 1) escapedDouble).flatten ++ List.replicate r '"'
        = [] ++ '\\' :: (['"'] ++ '\\' :: (['"'] ++ '\\' :: ('"' ::
            ((List.replicate n escapedDouble).flatten ++ List.replicate r '"')))) := by
      simp [List.replicate_succ, escapedDouble]
    rw [hcut, Text.infix_append_cons_iff hno, Text.infix_append_cons_iff hno,
      Text.infix_append_cons_iff hno]
    cases n with
    | zero =>
      have hfew : r = 0 ∨ r = 1 ∨ r = 2 := by omega
      rcases hfew with rfl | rfl | rfl
      · simp [hone, hnone]
      · simp [hone, hnone]; decide
      · simp [double]
    | succ n =>
      have hnext : '"' :: ((List.replicate (n + 1) escapedDouble).flatten
            ++ List.replicate r '"')
          = ['"'] ++ '\\' :: (escapedDouble.tail
            ++ ((List.replicate n escapedDouble).flatten ++ List.replicate r '"')) := by
        simp [List.replicate_succ, escapedDouble]
      have hsame : (List.replicate (n + 1) escapedDouble).flatten ++ List.replicate r '"'
          = [] ++ '\\' :: (escapedDouble.tail
            ++ ((List.replicate n escapedDouble).flatten ++ List.replicate r '"')) := by
        simp [List.replicate_succ, escapedDouble]
      rw [hsame, Text.infix_append_cons_iff hno] at ih
      rw [hnext, Text.infix_append_cons_iff hno]
      simpa [hone, hnone] using ih

/-- Three quotation marks in a row are left behind a run of five, eight, eleven and so on, and
nowhere else. -/
theorem double_infix_escapeQuotes_iff (t : Text) :
    double <:+: escapeQuotes t ↔ HasLooseMarks t := by
  have hloose : ∀ m, (0 < m / 3 ∧ m % 3 = 2) ↔ ∃ n, m = 3 * n + 5 := by
    intro m
    constructor
    · intro h
      exact ⟨m / 3 - 1, by omega⟩
    · rintro ⟨n, rfl⟩
      omega
  induction t using induction_runs with
  | run m =>
    have hm : m = 3 * (m / 3) + m % 3 := (Nat.div_add_mod m 3).symm
    have hr : m % 3 < 3 := Nat.mod_lt m (by decide)
    have hrun := escapeQuotes_replicate_append (t := []) (by simp) (m / 3) (m % 3) hr
    rw [← hm, List.append_nil, escapeQuotes_nil, List.append_nil] at hrun
    rw [hrun, double_infix_flatten_iff _ _ hr, hasLooseMarks_replicate_iff, hloose]
  | next m c t hc ih =>
    have hhead : (c :: t).head? ≠ some '"' := fun h => hc (Option.some.inj h)
    have hm : m = 3 * (m / 3) + m % 3 := (Nat.div_add_mod m 3).symm
    have hr : m % 3 < 3 := Nat.mod_lt m (by decide)
    have hrun := escapeQuotes_replicate_append hhead (m / 3) (m % 3) hr
    rw [← hm, escapeQuotes_cons hc, ← List.append_assoc] at hrun
    rw [hrun, hasLooseMarks_append_iff hc]
    by_cases hslash : c ∈ double
    · exact absurd (by simpa [double] using hslash) hc
    · rw [Text.infix_append_cons_iff hslash, double_infix_flatten_iff _ _ hr, hloose]
      exact or_congr Iff.rfl ih

end Docstring

end DocComments
