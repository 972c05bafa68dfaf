import DocComments.Text.Case
import DocComments.Pattern.Property

/-!
# Patterns

Regular expressions over characters, with anchors. `Pattern.Matches p before s after` says that
`p` matches the piece `s` of a text between the character in front of it and the character behind
it. The search reads a text once and keeps the patterns that are left to be matched, the partial
derivatives.
-/

set_option autoImplicit false

namespace DocComments

/-! ## Classes of characters -/

inductive CharClass where
  /-- no character -/
  | empty
  /-- the characters from one code point to another -/
  | range (first last : Nat)
  /-- decimal digits -/
  | digit
  /-- white space -/
  | blank
  /-- characters of words -/
  | word
  /-- the members of two classes -/
  | either (a b : CharClass)
  /-- the common members of two classes -/
  | both (a b : CharClass)
  /-- what is not a member -/
  | complement (a : CharClass)
  /-- what is equal to a member up to case -/
  | anyCase (a : CharClass)
  deriving DecidableEq, Repr

namespace CharClass

def contains : CharClass → Char → Bool
  | empty, _ => false
  | range first last, c => first ≤ c.toNat && c.toNat ≤ last
  | digit, c => Property.isDigit c
  | blank, c => Text.isBlank c
  | word, c => Property.isWord c
  | either a b, c => a.contains c || b.contains c
  | both a b, c => a.contains c && b.contains c
  | complement a, c => !a.contains c
  | anyCase a, c => (Text.caseClass c).any fun d => a.contains d

def single (c : Char) : CharClass := range c.toNat c.toNat

def any : CharClass := range 0 0x10FFFF

@[simp] theorem contains_single {c d : Char} : (single c).contains d = true ↔ d = c := by
  simp only [single, contains, Bool.and_eq_true, decide_eq_true_eq]
  constructor
  · intro h
    exact Char.toNat_inj.mp (by omega)
  · rintro rfl
    exact ⟨Nat.le_refl _, Nat.le_refl _⟩

end CharClass

/-! ## Anchors -/

/-- A condition on the place between two characters. -/
inductive Anchor where
  | textStart
  | textEnd
  | lineStart
  | lineEnd
  /-- one side is part of a word and the other is not -/
  | wordEdge
  /-- not at the edge of a word -/
  | noWordEdge
  /-- a word begins -/
  | wordStart
  /-- a word has ended -/
  | wordEnd
  /-- no part of a word is in front -/
  | noWordBefore
  /-- no part of a word is behind -/
  | noWordAfter
  deriving DecidableEq, Repr

/-- The anchor holds between the character in front and the character behind, where there are
such. -/
def Anchor.holds (before after : Option Char) : Anchor → Bool
  | textStart => before.isNone
  | textEnd => after.isNone
  | lineStart => before.all (· == '\n')
  | lineEnd => after.all (· == '\n')
  | wordEdge => before.any Property.isWord != after.any Property.isWord
  | noWordEdge => before.any Property.isWord == after.any Property.isWord
  | wordStart => !before.any Property.isWord && after.any Property.isWord
  | wordEnd => before.any Property.isWord && !after.any Property.isWord
  | noWordBefore => !before.any Property.isWord
  | noWordAfter => !after.any Property.isWord

/-! ## Patterns and what they match -/

inductive Pattern where
  /-- the empty text -/
  | empty
  /-- one character of a class -/
  | one (cls : CharClass)
  /-- the empty text where an anchor holds -/
  | here (anchor : Anchor)
  /-- one pattern and then another -/
  | seq (p q : Pattern)
  /-- one pattern or another -/
  | either (p q : Pattern)
  /-- a pattern from `least` to `most` times, or without an upper limit -/
  | repeated (p : Pattern) (least : Nat) (most : Option Nat)
  deriving DecidableEq, Repr

namespace Pattern

/-- The pattern matches the middle one of three pieces: between the character in front of it and
the character behind it. -/
inductive Matches : Pattern → Option Char → Text → Option Char → Prop
  | empty {before after : Option Char} : Matches empty before [] after
  | one {cls : CharClass} {c : Char} {before after : Option Char} (h : cls.contains c = true) :
      Matches (one cls) before [c] after
  | here {anchor : Anchor} {before after : Option Char} (h : anchor.holds before after = true) :
      Matches (here anchor) before [] after
  | seq {p q : Pattern} {before after : Option Char} {s t : Text}
      (hp : Matches p before s (t.head?.or after)) (hq : Matches q (s.getLast?.or before) t after) :
      Matches (seq p q) before (s ++ t) after
  | left {p q : Pattern} {before after : Option Char} {s : Text} (h : Matches p before s after) :
      Matches (either p q) before s after
  | right {p q : Pattern} {before after : Option Char} {s : Text} (h : Matches q before s after) :
      Matches (either p q) before s after
  | repeatedNil {p : Pattern} {most : Option Nat} {before after : Option Char} :
      Matches (repeated p 0 most) before [] after
  | repeatedCons {p : Pattern} {least : Nat} {most : Option Nat} {before after : Option Char}
      {s t : Text} (h : most ≠ some 0) (hp : Matches p before s (t.head?.or after))
      (hq : Matches (repeated p (least - 1) (most.map (· - 1))) (s.getLast?.or before) t after) :
      Matches (repeated p least most) before (s ++ t) after

def star (p : Pattern) : Pattern := repeated p 0 none

def optional (p : Pattern) : Pattern := repeated p 0 (some 1)

def concat : List Pattern → Pattern
  | [] => empty
  | [p] => p
  | p :: ps => seq p (concat ps)

/-- One of the patterns, or the empty text if there are none. -/
def anyOf : List Pattern → Pattern
  | [] => empty
  | [p] => p
  | p :: ps => either p (anyOf ps)

/-! ## Search -/

/-- The pattern matches the empty text between two characters. -/
def nullable (before after : Option Char) : Pattern → Bool
  | empty => true
  | one _ => false
  | here anchor => anchor.holds before after
  | seq p q => p.nullable before after && q.nullable before after
  | either p q => p.nullable before after || q.nullable before after
  | repeated p least most =>
    least == 0 || (p.nullable before after && most.all (least ≤ ·))

/-- A pattern and then another, where nothing has to be matched first. -/
def andThen : Pattern → Pattern → Pattern
  | empty, q => q
  | p, q => seq p q

/-- What is left to be matched once the character `c` behind `before` has been read. A pattern that
matches the empty text there may take any of its repetitions for nothing. -/
def advance (before : Option Char) (c : Char) : Pattern → List Pattern
  | empty => []
  | one cls => if cls.contains c then [empty] else []
  | here _ => []
  | seq p q =>
    (p.advance before c).map (andThen · q) ++
      (if p.nullable before (some c) then q.advance before c else [])
  | either p q => p.advance before c ++ q.advance before c
  | repeated p least most =>
    if most.any (· < max least 1) then []
    else
      let owed := if p.nullable before (some c) then 0 else least - 1
      (p.advance before c).map (andThen · (repeated p owed (most.map (· - 1))))

/-- The pattern matches a piece of the text, or one of the patterns `left` a piece in front. -/
def searchFrom (p : Pattern) (before : Option Char) (left : List Pattern) : Text → Bool
  | [] => (p :: left).any (nullable before none)
  | c :: rest =>
    (p :: left).any (nullable before (some c)) ||
      searchFrom p (some c) ((p :: left).flatMap (advance before c)).eraseDups rest

/-- The pattern matches somewhere in the text. -/
def search (p : Pattern) (t : Text) : Bool := searchFrom p none [] t

/-- `nullable` decides whether the empty text is matched. -/
theorem nullable_iff {p : Pattern} {before after : Option Char} :
    p.nullable before after = true ↔ Matches p before [] after := by
  induction p with
  | empty => exact ⟨fun _ => .empty, fun _ => rfl⟩
  | one cls => exact ⟨fun h => by simp [nullable] at h, fun h => by cases h⟩
  | here anchor => exact ⟨fun h => .here h, fun h => by cases h with | here h => exact h⟩
  | seq p q ihp ihq =>
    rw [nullable, Bool.and_eq_true, ihp, ihq]
    constructor
    · rintro ⟨hp, hq⟩
      have := Matches.seq (s := []) (t := []) (by simpa using hp) (by simpa using hq)
      simpa using this
    · intro h
      generalize hs : ([] : Text) = s at h
      cases h with
      | seq hp hq =>
        obtain ⟨rfl, rfl⟩ := List.append_eq_nil_iff.mp hs.symm
        exact ⟨by simpa using hp, by simpa using hq⟩
  | either p q ihp ihq =>
    rw [nullable, Bool.or_eq_true, ihp, ihq]
    constructor
    · rintro (h | h)
      · exact .left h
      · exact .right h
    · intro h
      cases h with
      | left h => exact .inl h
      | right h => exact .inr h
  | repeated p least most ih =>
    simp only [nullable, Bool.or_eq_true, beq_iff_eq, Bool.and_eq_true, ih]
    induction least generalizing most with
    | zero => exact ⟨fun _ => .repeatedNil, fun _ => .inl rfl⟩
    | succ least again =>
      constructor
      · rintro (h | ⟨hp, hmost⟩)
        · exact absurd h (Nat.succ_ne_zero least)
        · have hne : most ≠ some 0 := by rintro rfl; simp at hmost
          have hrest : Matches (repeated p least (most.map (· - 1))) before [] after := by
            refine (again (most.map (· - 1))).mp (.inr ⟨hp, ?_⟩)
            cases most with
            | none => rfl
            | some k => simp only [Option.all_some, Option.map_some, decide_eq_true_eq] at hmost ⊢; omega
          have : Matches (repeated p (least + 1) most) before ([] ++ []) after :=
            .repeatedCons hne (by simpa using hp) (by simpa using hrest)
          simpa using this
      · intro h
        generalize hs : ([] : Text) = s at h
        cases h with
        | repeatedCons hne hp hq =>
          obtain ⟨rfl, rfl⟩ := List.append_eq_nil_iff.mp hs.symm
          have hq := (again (most.map (· - 1))).mpr (by simpa using hq)
          refine .inr ⟨by simpa using hp, ?_⟩
          cases most with
          | none => rfl
          | some k =>
            have : k ≠ 0 := fun h => hne (by rw [h])
            simp only [Option.all_some, Option.map_some, decide_eq_true_eq] at hq ⊢
            rcases hq with hq | ⟨_, hq⟩ <;> omega

end Pattern

end DocComments
