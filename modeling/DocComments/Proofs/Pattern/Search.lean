import DocComments.Pattern.Basic

/-!
# What a search finds

A search reads a text once and keeps what is left of a pattern, but what it finds is said by
`Pattern.Matches` alone: a pattern is found exactly if it matches some piece of the text, between
the characters on either side of the piece (`search_iff`). The step is `matches_cons_iff`: a pattern
matches a piece exactly if something that it leaves behind the first character matches the rest.
-/

set_option autoImplicit false

namespace DocComments

namespace Pattern

variable {p q : Pattern} {before after : Option Char} {c : Char} {s t : Text} {least : Nat}
  {most : Option Nat}

/-! ## One pattern and then another -/

theorem matches_empty_iff : Matches empty before s after ↔ s = [] := by
  constructor
  · rintro ⟨⟩
    rfl
  · rintro rfl
    exact .empty

theorem matches_one_iff {cls : CharClass} :
    Matches (one cls) before s after ↔ ∃ d, s = [d] ∧ cls.contains d = true := by
  constructor
  · intro h
    cases h with
    | one h => exact ⟨_, rfl, h⟩
  · rintro ⟨d, rfl, h⟩
    exact .one h

theorem matches_here_iff {anchor : Anchor} :
    Matches (here anchor) before s after ↔ s = [] ∧ anchor.holds before after = true := by
  constructor
  · intro h
    cases h with
    | here h => exact ⟨rfl, h⟩
  · rintro ⟨rfl, h⟩
    exact .here h

theorem matches_either_iff :
    Matches (either p q) before s after ↔ Matches p before s after ∨ Matches q before s after := by
  constructor
  · intro h
    cases h with
    | left h => exact .inl h
    | right h => exact .inr h
  · rintro (h | h)
    · exact .left h
    · exact .right h

theorem matches_seq_iff :
    Matches (seq p q) before s after ↔
      ∃ front back, s = front ++ back ∧ Matches p before front (back.head?.or after) ∧
        Matches q (front.getLast?.or before) back after := by
  constructor
  · intro h
    cases h with
    | seq hp hq => exact ⟨_, _, rfl, hp, hq⟩
  · rintro ⟨front, back, rfl, hp, hq⟩
    exact .seq hp hq

/-- Nothing has to be read for the empty pattern in front of another. -/
theorem matches_andThen_iff :
    Matches (andThen p q) before s after ↔ Matches (seq p q) before s after := by
  cases p with
  | empty =>
    rw [andThen, matches_seq_iff]
    constructor
    · intro h
      exact ⟨[], s, rfl, .empty, h⟩
    · rintro ⟨front, back, rfl, hfront, h⟩
      rw [matches_empty_iff] at hfront
      subst hfront
      exact h
  | _ => exact Iff.rfl

theorem getLast?_cons_or (c : Char) (s : Text) (before : Option Char) :
    (c :: s).getLast?.or before = s.getLast?.or (some c) := by
  rw [List.getLast?_cons]
  cases s.getLast? <;> rfl

/-- The first character of a piece is read by the first pattern, or by the second if the first
matches nothing in front of it. -/
theorem matches_seq_cons_iff :
    Matches (seq p q) before (c :: s) after ↔
      (∃ front back, s = front ++ back ∧ Matches p before (c :: front) (back.head?.or after) ∧
        Matches q (front.getLast?.or (some c)) back after) ∨
      Matches p before [] (some c) ∧ Matches q before (c :: s) after := by
  rw [matches_seq_iff]
  constructor
  · rintro ⟨front, back, hs, hp, hq⟩
    cases front with
    | nil =>
      rw [List.nil_append] at hs
      subst hs
      exact .inr ⟨hp, hq⟩
    | cons d front =>
      obtain ⟨rfl, rfl⟩ := List.cons.inj hs
      rw [getLast?_cons_or] at hq
      exact .inl ⟨front, back, rfl, hp, hq⟩
  · rintro (⟨front, back, rfl, hp, hq⟩ | ⟨hp, hq⟩)
    · refine ⟨c :: front, back, rfl, hp, ?_⟩
      rwa [getLast?_cons_or]
    · exact ⟨[], c :: s, rfl, hp, hq⟩

/-! ## Repetitions -/

abbrev times (p : Pattern) (k : Nat) : Pattern := repeated p k (some k)

theorem matches_times_zero_iff : Matches (times p 0) before s after ↔ s = [] := by
  constructor
  · intro h
    cases h with
    | repeatedNil => rfl
    | repeatedCons hmost => exact absurd rfl hmost
  · rintro rfl
    exact .repeatedNil

theorem matches_times_succ_iff {k : Nat} :
    Matches (times p (k + 1)) before s after ↔ Matches (seq p (times p k)) before s after := by
  rw [matches_seq_iff]
  constructor
  · intro h
    cases h with
    | repeatedCons hmost hp hq => exact ⟨_, _, rfl, hp, hq⟩
  · rintro ⟨front, back, rfl, hp, hq⟩
    exact .repeatedCons (fun h => Nat.succ_ne_zero k (Option.some.inj h)) hp hq

/-- A repetition is a number of times within its bounds. -/
theorem matches_repeated_iff :
    Matches (repeated p least most) before s after ↔
      ∃ k, least ≤ k ∧ (∀ n ∈ most, k ≤ n) ∧ Matches (times p k) before s after := by
  constructor
  · intro h
    generalize hr : repeated p least most = r at h
    induction h generalizing least most with
    | repeatedNil =>
      cases hr
      exact ⟨0, Nat.le_refl 0, fun n _ => Nat.zero_le n, .repeatedNil⟩
    | repeatedCons hmost hp hq _ ih =>
      cases hr
      obtain ⟨k, hleast, hk, hrest⟩ := ih rfl
      refine ⟨k + 1, by omega, fun n hn => ?_, ?_⟩
      · have hne : n ≠ 0 := fun h => hmost (by rw [Option.mem_def.mp hn, h])
        have hle := hk (n - 1) (Option.map_eq_some_iff.mpr ⟨n, hn, rfl⟩)
        omega
      · exact matches_times_succ_iff.mpr (.seq hp hrest)
    | _ => cases hr
  · rintro ⟨k, hleast, hk, h⟩
    induction k generalizing least most before s with
    | zero =>
      obtain rfl := Nat.le_zero.mp hleast
      rw [matches_times_zero_iff] at h
      subst h
      exact .repeatedNil
    | succ k ih =>
      obtain ⟨front, back, rfl, hp, hq⟩ := matches_seq_iff.mp (matches_times_succ_iff.mp h)
      refine .repeatedCons ?_ hp (ih (by omega) (fun n hn => ?_) hq)
      · rintro rfl
        exact absurd (hk 0 rfl) (Nat.not_succ_le_zero k)
      · obtain ⟨m, hm, rfl⟩ := Option.map_eq_some_iff.mp hn
        have hle := hk m hm
        omega

/-- A pattern that matches nothing in front of a character may do so any number of times more. -/
theorem matches_times_add {k : Nat} (hnone : Matches p before [] (some c)) (more : Nat)
    (h : Matches (times p k) before (c :: s) after) :
    Matches (times p (k + more)) before (c :: s) after := by
  induction more with
  | zero => exact h
  | succ more ih =>
    rw [← Nat.add_assoc, matches_times_succ_iff]
    exact matches_seq_cons_iff.mpr (.inr ⟨hnone, ih⟩)

/-- Of so many times that read a piece, some read nothing, one begins with the first character, and
`left` times remain. -/
theorem exists_left_of_matches_times {k : Nat} (h : Matches (times p k) before (c :: s) after) :
    ∃ left, left < k ∧ (left + 1 < k → Matches p before [] (some c)) ∧
      ∃ front back, s = front ++ back ∧ Matches p before (c :: front) (back.head?.or after) ∧
        Matches (times p left) (front.getLast?.or (some c)) back after := by
  induction k with
  | zero => cases matches_times_zero_iff.mp h
  | succ k ih =>
    rcases matches_seq_cons_iff.mp (matches_times_succ_iff.mp h) with hfirst | ⟨hnone, hrest⟩
    · exact ⟨k, Nat.lt_succ_self k, fun hlt => absurd hlt (Nat.lt_irrefl _), hfirst⟩
    · obtain ⟨left, hlt, -, hfirst⟩ := ih hrest
      exact ⟨left, Nat.lt_succ_of_lt hlt, fun _ => hnone, hfirst⟩

/-- The first character of a piece is read by one of the times, and fewer are owed behind it: none
if the pattern matches nothing in front of the character, and one fewer otherwise. -/
theorem matches_repeated_cons_iff :
    Matches (repeated p least most) before (c :: s) after ↔
      (∀ n ∈ most, max least 1 ≤ n) ∧ ∃ front back, s = front ++ back ∧
        Matches p before (c :: front) (back.head?.or after) ∧
        Matches (repeated p (if p.nullable before (some c) then 0 else least - 1)
          (most.map (· - 1))) (front.getLast?.or (some c)) back after := by
  constructor
  · intro h
    obtain ⟨k, hleast, hmost, hk⟩ := matches_repeated_iff.mp h
    obtain ⟨left, hlt, hnone, front, back, rfl, hp, hq⟩ := exists_left_of_matches_times hk
    refine ⟨fun n hn => ?_, front, back, rfl, hp, ?_⟩
    · have hle := hmost n hn
      omega
    · refine matches_repeated_iff.mpr ⟨left, ?_, fun n hn => ?_, hq⟩
      · split
        · exact Nat.zero_le left
        · rename_i hnullable
          -- no time was passed over, for the pattern does not match nothing here
          have hlast : ¬ left + 1 < k := fun hlt => hnullable (nullable_iff.mpr (hnone hlt))
          omega
      · obtain ⟨m, hm, rfl⟩ := Option.map_eq_some_iff.mp hn
        have hle := hmost m hm
        omega
  · rintro ⟨hmost, front, back, rfl, hp, hq⟩
    obtain ⟨left, howed, hleft, hq⟩ := matches_repeated_iff.mp hq
    have honce : Matches (times p (left + 1)) before (c :: (front ++ back)) after :=
      matches_times_succ_iff.mpr (matches_seq_cons_iff.mpr (.inl ⟨front, back, rfl, hp, hq⟩))
    have hbound : ∀ n ∈ most, left + 1 ≤ n := by
      intro n hn
      have hle := hleft (n - 1) (Option.map_eq_some_iff.mpr ⟨n, hn, rfl⟩)
      have hpos := hmost n hn
      omega
    by_cases hnone : p.nullable before (some c) = true
    · -- what is owed may be matched by nothing in front of the character
      refine matches_repeated_iff.mpr ⟨left + 1 + (least - (left + 1)), by omega, fun n hn => ?_,
        matches_times_add (nullable_iff.mp hnone) _ honce⟩
      have hle := hbound n hn
      have hpos := hmost n hn
      omega
    · rw [if_neg hnone] at howed
      exact matches_repeated_iff.mpr ⟨left + 1, by omega, hbound, honce⟩

theorem matches_optional_iff :
    Matches (optional p) before s after ↔ s = [] ∨ Matches p before s after := by
  have honce : Matches (times p 1) before s after ↔ Matches p before s after := by
    rw [matches_times_succ_iff, matches_seq_iff]
    constructor
    · rintro ⟨front, back, rfl, hp, hback⟩
      obtain rfl := matches_times_zero_iff.mp hback
      rwa [List.append_nil]
    · intro h
      exact ⟨s, [], (List.append_nil s).symm, h, matches_times_zero_iff.mpr rfl⟩
  rw [optional, matches_repeated_iff]
  constructor
  · rintro ⟨k, -, hk, h⟩
    match k, hk 1 rfl with
    | 0, _ => exact .inl (matches_times_zero_iff.mp h)
    | 1, _ => exact .inr (honce.mp h)
  · rintro (rfl | h)
    · exact ⟨0, Nat.le_refl 0, fun n _ => Nat.zero_le n, matches_times_zero_iff.mpr rfl⟩
    · exact ⟨1, Nat.zero_le 1, fun n hn => Nat.le_of_eq (Option.some.inj hn), honce.mpr h⟩

/-! ## Reading one character -/

/-- What is left of a repetition, said without the list of it. -/
theorem mem_advance_repeated_iff :
    q ∈ advance before c (repeated p least most) ↔
      (∀ n ∈ most, max least 1 ≤ n) ∧ ∃ left ∈ advance before c p,
        q = andThen left (repeated p (if p.nullable before (some c) then 0 else least - 1)
          (most.map (· - 1))) := by
  rw [advance]
  by_cases hmost : ∀ n ∈ most, max least 1 ≤ n
  · have hany : most.any (· < max least 1) = false := by
      cases most with
      | none => rfl
      | some n => exact decide_eq_false (Nat.not_lt.mpr (hmost n rfl))
    rw [hany, if_neg Bool.false_ne_true, List.mem_map, and_iff_right hmost]
    exact exists_congr fun left => and_congr_right fun _ => eq_comm
  · have hany : most.any (· < max least 1) = true := by
      cases most with
      | none => exact absurd (fun n hn => absurd hn (Option.not_mem_none n)) hmost
      | some n =>
        refine decide_eq_true (Nat.lt_of_not_le fun hle => hmost fun m hm => ?_)
        rwa [← Option.mem_some.mp hm]
    rw [hany, if_pos rfl]
    exact iff_of_false List.not_mem_nil fun h => hmost h.1

/-- A pattern matches a piece exactly if something that it leaves behind the first character matches
the rest. -/
theorem matches_cons_iff :
    Matches p before (c :: s) after ↔ ∃ q ∈ advance before c p, Matches q (some c) s after := by
  induction p generalizing s after with
  | empty => simp [matches_empty_iff, advance]
  | one cls =>
    rw [matches_one_iff, advance]
    by_cases h : cls.contains c = true
    · rw [if_pos h]
      constructor
      · rintro ⟨d, hs, -⟩
        obtain ⟨-, rfl⟩ := List.cons.inj hs
        exact ⟨empty, List.mem_singleton_self empty, .empty⟩
      · rintro ⟨q, hq, hmatch⟩
        obtain rfl := List.mem_singleton.mp hq
        rw [matches_empty_iff] at hmatch
        subst hmatch
        exact ⟨c, rfl, h⟩
    · rw [if_neg h]
      refine iff_of_false ?_ (by simp)
      rintro ⟨d, hs, hd⟩
      obtain ⟨rfl, -⟩ := List.cons.inj hs
      exact h hd
  | here anchor => simp [matches_here_iff, advance]
  | either p q ihp ihq =>
    rw [matches_either_iff, ihp, ihq, advance]
    simp only [List.mem_append, or_and_right, exists_or]
  | seq p q ihp ihq =>
    rw [matches_seq_cons_iff, ihq, ← nullable_iff, advance]
    constructor
    · rintro (⟨front, back, rfl, hp, hq⟩ | ⟨hnone, r, hr, hmatch⟩)
      · obtain ⟨left, hleft, hmatch⟩ := ihp.mp hp
        refine ⟨andThen left q, List.mem_append_left _ (List.mem_map_of_mem hleft), ?_⟩
        exact matches_andThen_iff.mpr (.seq hmatch hq)
      · exact ⟨r, List.mem_append_right _ (by rw [if_pos hnone]; exact hr), hmatch⟩
    · rintro ⟨r, hr, hmatch⟩
      rcases List.mem_append.mp hr with hr | hr
      · obtain ⟨left, hleft, rfl⟩ := List.mem_map.mp hr
        obtain ⟨front, back, rfl, hp, hq⟩ :=
          matches_seq_iff.mp (matches_andThen_iff.mp hmatch)
        exact .inl ⟨front, back, rfl, ihp.mpr ⟨left, hleft, hp⟩, hq⟩
      · split at hr
        · rename_i hnone
          exact .inr ⟨hnone, r, hr, hmatch⟩
        · cases hr
  | repeated p least most ih =>
    rw [matches_repeated_cons_iff]
    simp only [mem_advance_repeated_iff]
    constructor
    · rintro ⟨hmost, front, back, rfl, hp, hq⟩
      obtain ⟨left, hleft, hmatch⟩ := ih.mp hp
      exact ⟨_, ⟨hmost, left, hleft, rfl⟩, matches_andThen_iff.mpr (.seq hmatch hq)⟩
    · rintro ⟨_, ⟨hmost, left, hleft, rfl⟩, hmatch⟩
      obtain ⟨front, back, rfl, hp, hq⟩ := matches_seq_iff.mp (matches_andThen_iff.mp hmatch)
      exact ⟨hmost, front, back, rfl, ih.mpr ⟨left, hleft, hp⟩, hq⟩

theorem matches_star_one_iff {cls : CharClass} :
    Matches (star (one cls)) before s after ↔ ∀ c ∈ s, cls.contains c = true := by
  induction s generalizing before with
  | nil => exact iff_of_true .repeatedNil (List.forall_mem_nil _)
  | cons c s ih =>
    have hadvance : advance before c (star (one cls))
        = if cls.contains c then [star (one cls)] else [] := by
      by_cases h : cls.contains c = true
      · simp [star, advance, h, andThen, nullable]
      · simp [star, advance, h]
    rw [matches_cons_iff, hadvance, List.forall_mem_cons]
    split
    · next h => simp [h, ih]
    · next h => simp [h]

/-! ## Reading a text -/

/-- The pattern matches a piece at the front of a text. -/
def MatchesFront (p : Pattern) (before : Option Char) (t : Text) : Prop :=
  ∃ piece rest, t = piece ++ rest ∧ Matches p before piece rest.head?

/-- The pattern matches a piece somewhere in a text. -/
def MatchesIn (p : Pattern) (before : Option Char) (t : Text) : Prop :=
  ∃ front rest, t = front ++ rest ∧ MatchesFront p (front.getLast?.or before) rest

theorem matchesFront_nil_iff : MatchesFront p before [] ↔ p.nullable before none = true := by
  rw [nullable_iff]
  constructor
  · rintro ⟨piece, rest, hnil, h⟩
    obtain ⟨rfl, rfl⟩ := List.append_eq_nil_iff.mp hnil.symm
    exact h
  · intro h
    exact ⟨[], [], rfl, h⟩

theorem matchesFront_cons_iff :
    MatchesFront p before (c :: t) ↔
      p.nullable before (some c) = true ∨
        ∃ q ∈ advance before c p, MatchesFront q (some c) t := by
  rw [nullable_iff]
  constructor
  · rintro ⟨piece, rest, ht, h⟩
    cases piece with
    | nil =>
      rw [List.nil_append] at ht
      subst ht
      exact .inl h
    | cons d piece =>
      obtain ⟨rfl, rfl⟩ := List.cons.inj ht
      obtain ⟨q, hq, hmatch⟩ := matches_cons_iff.mp h
      exact .inr ⟨q, hq, piece, rest, rfl, hmatch⟩
  · rintro (h | ⟨q, hq, piece, rest, rfl, hmatch⟩)
    · exact ⟨[], c :: t, rfl, h⟩
    · exact ⟨c :: piece, rest, rfl, matches_cons_iff.mpr ⟨q, hq, hmatch⟩⟩

theorem matchesIn_nil_iff : MatchesIn p before [] ↔ MatchesFront p before [] := by
  constructor
  · rintro ⟨front, rest, hnil, h⟩
    obtain ⟨rfl, rfl⟩ := List.append_eq_nil_iff.mp hnil.symm
    exact h
  · intro h
    exact ⟨[], [], rfl, h⟩

theorem matchesIn_cons_iff :
    MatchesIn p before (c :: t) ↔ MatchesFront p before (c :: t) ∨ MatchesIn p (some c) t := by
  constructor
  · rintro ⟨front, rest, ht, h⟩
    cases front with
    | nil =>
      rw [List.nil_append] at ht
      subst ht
      exact .inl h
    | cons d front =>
      obtain ⟨rfl, rfl⟩ := List.cons.inj ht
      rw [getLast?_cons_or] at h
      exact .inr ⟨front, rest, rfl, h⟩
  · rintro (h | ⟨front, rest, rfl, h⟩)
    · exact ⟨[], c :: t, rfl, h⟩
    · refine ⟨c :: front, rest, rfl, ?_⟩
      rwa [getLast?_cons_or]

/-- What is left of earlier beginnings is matched at the front, and the pattern itself anywhere. -/
theorem searchFrom_iff {left : List Pattern} :
    searchFrom p before left t = true ↔
      (∃ q ∈ left, MatchesFront q before t) ∨ MatchesIn p before t := by
  induction t generalizing before left with
  | nil =>
    simp only [searchFrom, List.any_cons, Bool.or_eq_true, List.any_eq_true, matchesIn_nil_iff,
      matchesFront_nil_iff]
    exact or_comm
  | cons c t ih =>
    rw [searchFrom, Bool.or_eq_true, ih, matchesIn_cons_iff]
    simp only [List.any_cons, Bool.or_eq_true, List.any_eq_true, List.mem_eraseDups,
      List.mem_flatMap, List.mem_cons, matchesFront_cons_iff]
    constructor
    · rintro ((hp | ⟨q, hq, hnone⟩) | ⟨r, ⟨q, rfl | hq, hr⟩, hfront⟩ | hin)
      · exact .inr (.inl (.inl hp))
      · exact .inl ⟨q, hq, .inl hnone⟩
      · exact .inr (.inl (.inr ⟨r, hr, hfront⟩))
      · exact .inl ⟨q, hq, .inr ⟨r, hr, hfront⟩⟩
      · exact .inr (.inr hin)
    · rintro (⟨q, hq, hnone | ⟨r, hr, hfront⟩⟩ | (hp | ⟨r, hr, hfront⟩) | hin)
      · exact .inl (.inr ⟨q, hq, hnone⟩)
      · exact .inr (.inl ⟨r, ⟨q, .inr hq, hr⟩, hfront⟩)
      · exact .inl (.inl hp)
      · exact .inr (.inl ⟨r, ⟨p, .inl rfl, hr⟩, hfront⟩)
      · exact .inr (.inr hin)

/-- A pattern is found exactly if it matches a piece of the text. -/
theorem search_iff :
    search p t = true ↔
      ∃ front piece back, t = front ++ (piece ++ back) ∧
        Matches p front.getLast? piece back.head? := by
  rw [search, searchFrom_iff]
  constructor
  · rintro (⟨q, hq, -⟩ | ⟨front, rest, rfl, piece, back, rfl, h⟩)
    · cases hq
    · rw [Option.or_none] at h
      exact ⟨front, piece, back, rfl, h⟩
  · rintro ⟨front, piece, back, rfl, h⟩
    refine .inr ⟨front, piece ++ back, rfl, piece, back, rfl, ?_⟩
    rwa [Option.or_none]

end Pattern

end DocComments
