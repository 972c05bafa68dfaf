/-!
# Text as a list of characters

Everything that is read, compared and edited is a list of characters. This file holds the blank
characters, trimming, the split into lines and the search for one text inside another. Its main
statements: a line has no line feed in it (`newline_not_mem_of_mem_lines`), and `occursIn` finds
exactly the infixes of a text (`occursIn_iff`).
-/

set_option autoImplicit false

namespace DocComments

/-- A text, as its characters. Positions in it are byte offsets of its UTF-8 form. -/
abbrev Text := List Char

namespace Text

/-! ## Blank characters -/

/-- The characters with the Unicode property `White_Space`. -/
def isBlank (c : Char) : Bool :=
  let n := c.toNat
  (9 ≤ n && n ≤ 13) || n == 0x20 || n == 0x85 || n == 0xA0 || n == 0x1680 ||
    (0x2000 ≤ n && n ≤ 0x200A) || n == 0x2028 || n == 0x2029 || n == 0x202F || n == 0x205F ||
    n == 0x3000

def allBlank (t : Text) : Bool := t.all isBlank

def trimStart (t : Text) : Text := t.dropWhile isBlank

def trimEnd (t : Text) : Text := (t.reverse.dropWhile isBlank).reverse

def trim (t : Text) : Text := trimEnd (trimStart t)

def trimEndOf (c : Char) (t : Text) : Text := (t.reverse.dropWhile (· == c)).reverse

def trimStartOf (c : Char) (t : Text) : Text := t.dropWhile (· == c)

@[simp] theorem trimStart_nil : trimStart [] = [] := rfl

@[simp] theorem trimEnd_nil : trimEnd [] = [] := rfl

@[simp] theorem trim_nil : trim [] = [] := rfl

/-- Nothing is trimmed in front of a character that is not blank. -/
theorem trimStart_cons_of_not_blank {c : Char} (t : Text) (h : isBlank c = false) :
    trimStart (c :: t) = c :: t := by
  simp [trimStart, h]

/-! ## Lines -/

/-- The lines of a text. A line feed ends a line and takes one carriage return directly before it
along; a text that ends in a line feed has no empty last line. -/
def lines : Text → List Text
  | [] => []
  | '\n' :: rest => [] :: lines rest
  | '\r' :: '\n' :: rest => [] :: lines rest
  | c :: rest =>
    match lines rest with
    | [] => [[c]]
    | line :: more => (c :: line) :: more

/-- Lines joined by line feeds. -/
def joinLines (ls : List Text) : Text := List.intercalate ['\n'] ls

def firstLine (t : Text) : Text := (lines t).headD []

/-- The number of line feeds in a text. -/
def lineBreaks (t : Text) : Nat := t.count '\n'

/-- The part of a text behind its last line feed. -/
def lastLine (t : Text) : Text := (t.reverse.takeWhile (· != '\n')).reverse

@[simp] theorem lines_nil : lines [] = [] := rfl

/-- No line has a line feed in it. -/
theorem newline_not_mem_of_mem_lines {t line : Text} (h : line ∈ lines t) : '\n' ∉ line := by
  fun_induction lines t generalizing line with
  | case1 => simp at h
  | case2 rest ih =>
    rcases List.mem_cons.mp h with rfl | h
    · simp
    · exact ih h
  | case3 rest ih =>
    rcases List.mem_cons.mp h with rfl | h
    · simp
    · exact ih h
  | case4 c rest hc hr hnil ih =>
    simp only [List.mem_singleton] at h
    subst h
    simpa using fun e => hc e.symm
  | case5 c rest hc hr first more hcons ih =>
    rcases List.mem_cons.mp h with rfl | h
    · simp only [List.mem_cons, not_or]
      exact ⟨fun e => hc e.symm, ih (by simp [hcons])⟩
    · exact ih (by simp [hcons, h])

/-! ## Search -/

def occursIn (needle : Text) : Text → Bool
  | [] => needle.isEmpty
  | c :: rest => needle.isPrefixOf (c :: rest) || occursIn needle rest

/-- The characters in front of the last place where `needle` stands, counted. -/
def lastIndexOf? (needle : Text) : Text → Option Nat
  | [] => if needle.isEmpty then some 0 else none
  | c :: rest =>
    match lastIndexOf? needle rest with
    | some i => some (i + 1)
    | none => if needle.isPrefixOf (c :: rest) then some 0 else none

theorem occursIn_iff {needle t : Text} : occursIn needle t = true ↔ needle <:+: t := by
  induction t with
  | nil => simp [occursIn]
  | cons c rest ih =>
    rw [occursIn, Bool.or_eq_true, ih, List.isPrefixOf_iff_prefix]
    constructor
    · rintro (h | h)
      · exact h.isInfix
      · exact h.trans (List.suffix_cons c rest).isInfix
    · intro h
      exact List.infix_cons_iff.mp h

end Text

end DocComments
