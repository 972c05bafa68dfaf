import DocComments.Proofs.Comment.Fence
import DocComments.Proofs.Pattern.Anchored

/-!
# Replies in a fence

Which replies count as fenced blocks is said by a written pattern with one remembered group, the
body (`Fence.written`). The pattern is found in a text exactly if the text is three backticks with
the rest of a line, anything, and three backticks (`Fence.isBlock_iff_searchWritten`). Many cuts of
such a text match it; the one that counts has the shortest body, and this is the body of the block
(`Fence.body?_eq_some_iff_isFirstCut`). So what is taken off a text in a fence is this fence and no
other, whatever backticks and line feeds there are in the text (`Fence.strip_fenced`), and a fence
around a reply changes nothing in the comment (`CommentStyle.render_fenced`).
-/

set_option autoImplicit false

namespace DocComments

open Text

theorem CharClass.contains_any (c : Char) : any.contains c = true := by
  have hvalid : c.toNat ≤ 0x10FFFF := by
    have hval := c.valid
    simp only [UInt32.isValidChar, Nat.isValidChar] at hval
    show c.val.toNat ≤ _
    omega
  rw [any, contains, Bool.and_eq_true, decide_eq_true_iff, decide_eq_true_iff]
  exact ⟨Nat.zero_le _, hvalid⟩

namespace Fence

open Pattern

/-! ## The pattern of fenced blocks -/

/-- The pattern of fenced blocks as it is written. What it remembers is the body. -/
def written : Text := "(?s)\\A\x60\x60\x60[^\\n]*\\n(.*?)\\n?\x60\x60\x60\\z".toList

def noFeed : CharClass := .complement (.either .empty (.single '\n'))

def opening : List Pattern :=
  here .textStart :: (literals mark ++ [star (one noFeed), one (.single '\n')])

/-- What the pattern asks for behind the body: the closing fence, and a line feed in front of it if
there is one. -/
def closing : List Pattern :=
  optional (one (.single '\n')) :: (literals mark ++ [here .textEnd])

theorem read?_written :
    read? written = some (concat (opening ++ star (one .any) :: closing)) := by
  decide

theorem contains_noFeed {c : Char} : noFeed.contains c = true ↔ c ≠ '\n' := by
  rw [noFeed, CharClass.contains, CharClass.contains, CharClass.contains, Bool.false_or,
    Bool.not_eq_true', ← Bool.not_eq_true, CharClass.contains_single]

theorem matches_opening_iff {front : Text} {before after : Option Char} :
    Matches (concat opening) before front after ↔
      before = none ∧ ∃ header, '\n' ∉ header ∧ front = mark ++ (header ++ ['\n']) := by
  have hheader : ∀ {before after : Option Char} {header : Text},
      Matches (star (one noFeed)) before header after ↔ '\n' ∉ header := by
    intro before after header
    rw [matches_star_one_iff]
    simp only [contains_noFeed]
    exact ⟨fun h hmem => h _ hmem rfl, fun h c hc heq => h (heq ▸ hc)⟩
  rw [opening, matches_concat_textStart_cons_iff, matches_concat_literals_append_iff]
  refine and_congr_right fun _ => ?_
  constructor
  · rintro ⟨line, rfl, hline⟩
    obtain ⟨header, feed, rfl, hline, hfeed⟩ :=
      matches_seq_iff.mp (matches_concat_cons_iff.mp hline)
    obtain rfl := matches_one_single_iff.mp hfeed
    exact ⟨header, hheader.mp hline, rfl⟩
  · rintro ⟨header, hline, rfl⟩
    refine ⟨header ++ ['\n'], rfl, matches_concat_cons_iff.mpr (matches_seq_iff.mpr ?_)⟩
    exact ⟨header, ['\n'], rfl, hheader.mpr hline, matches_one_single_iff.mpr rfl⟩

theorem matches_closing_iff {before after : Option Char} {rest : Text} :
    Matches (concat closing) before rest after ↔
      after = none ∧ (rest = mark ∨ rest = '\n' :: mark) := by
  rw [closing, matches_concat_cons_iff, matches_seq_iff]
  simp only [matches_concat_literals_textEnd_iff]
  constructor
  · rintro ⟨feed, rest, rfl, hfeed, rfl, rfl⟩
    rcases matches_optional_iff.mp hfeed with rfl | hfeed
    · exact ⟨rfl, .inl rfl⟩
    · obtain rfl := matches_one_single_iff.mp hfeed
      exact ⟨rfl, .inr rfl⟩
  · rintro ⟨rfl, rfl | rfl⟩
    · exact ⟨[], mark, rfl, matches_optional_iff.mpr (.inl rfl), rfl, rfl⟩
    · refine ⟨['\n'], mark, rfl, matches_optional_iff.mpr (.inr ?_), rfl, rfl⟩
      exact matches_one_single_iff.mpr rfl

/-! ## Which texts are fenced blocks -/

/-- The text is one fenced block: three backticks with the rest of their line, anything, and three
backticks. -/
def IsBlock (t : Text) : Prop :=
  ∃ header inside, '\n' ∉ header ∧ t = mark ++ (header ++ '\n' :: (inside ++ mark))

/-- A cut of a text in three, of which the pattern remembers the second. -/
structure IsCut (t front body rest : Text) : Prop where
  whole : t = front ++ (body ++ rest)
  opens : Matches (concat opening) none front (body ++ rest).head?
  closes : Matches (concat closing) (front ++ body).getLast? rest none

theorem isCut_iff {t front body rest : Text} :
    IsCut t front body rest ↔ t = front ++ (body ++ rest) ∧
      (∃ header, '\n' ∉ header ∧ front = mark ++ (header ++ ['\n'])) ∧
      (rest = mark ∨ rest = '\n' :: mark) := by
  constructor
  · intro h
    exact ⟨h.whole, (matches_opening_iff.mp h.opens).2, (matches_closing_iff.mp h.closes).2⟩
  · rintro ⟨hwhole, hopens, hcloses⟩
    exact ⟨hwhole, matches_opening_iff.mpr ⟨rfl, hopens⟩, matches_closing_iff.mpr ⟨rfl, hcloses⟩⟩

theorem isBlock_iff_exists_isCut {t : Text} :
    IsBlock t ↔ ∃ front body rest, IsCut t front body rest := by
  simp only [isCut_iff]
  constructor
  · rintro ⟨header, inside, hheader, rfl⟩
    exact ⟨_, inside, mark, by simp, ⟨header, hheader, rfl⟩, .inl rfl⟩
  · rintro ⟨_, body, rest, rfl, ⟨header, hheader, rfl⟩, rfl | rfl⟩
    · exact ⟨header, body, hheader, by simp⟩
    · exact ⟨header, body ++ ['\n'], hheader, by simp⟩

/-- The fenced blocks are the texts in which the written pattern is found. -/
theorem isBlock_iff_searchWritten {t : Text} : IsBlock t ↔ searchWritten written t = true := by
  rw [isBlock_iff_exists_isCut, searchWritten, read?_written, Option.any_some, search_iff]
  simp only [isCut_iff]
  constructor
  · rintro ⟨front, body, rest, rfl, hfront, hrest⟩
    refine ⟨[], _, [], (List.append_nil _).symm, matches_concat_append_iff.mpr ?_⟩
    refine ⟨front, body ++ rest, rfl, matches_opening_iff.mpr ⟨?_, hfront⟩, ?_⟩
    · rfl
    · refine matches_concat_cons_iff.mpr (matches_seq_iff.mpr ⟨body, rest, rfl, ?_, ?_⟩)
      · exact matches_star_one_iff.mpr fun c _ => CharClass.contains_any c
      · exact matches_closing_iff.mpr ⟨rfl, hrest⟩
  · rintro ⟨before, piece, after, rfl, h⟩
    obtain ⟨front, inside, rfl, hopens, hinside⟩ := matches_concat_append_iff.mp h
    obtain ⟨body, rest, rfl, -, hcloses⟩ :=
      matches_seq_iff.mp (matches_concat_cons_iff.mp hinside)
    obtain ⟨hbefore, hfront⟩ := matches_opening_iff.mp hopens
    obtain ⟨hafter, hrest⟩ := matches_closing_iff.mp hcloses
    -- nothing stands in front of the piece and nothing behind it
    obtain rfl := List.getLast?_eq_none_iff.mp hbefore
    obtain rfl := List.head?_eq_none_iff.mp hafter
    exact ⟨front, body, rest, by simp, hfront, hrest⟩

/-! ## What the pattern remembers -/

/-- The cut that counts: the repetition in the first line takes as much as it can, and then the one
that is remembered as little as it can. -/
structure IsFirstCut (t front body rest : Text) : Prop extends IsCut t front body rest where
  first : ∀ {front' body' rest' : Text}, IsCut t front' body' rest' →
    front'.length < front.length ∨ front' = front ∧ body.length ≤ body'.length

/-- All cuts of a text are behind its first line. -/
theorem IsCut.front_eq {t front body rest front' body' rest' : Text}
    (h : IsCut t front body rest) (h' : IsCut t front' body' rest') : front' = front := by
  obtain ⟨rfl, ⟨header, hheader, rfl⟩, -⟩ := isCut_iff.mp h
  obtain ⟨hwhole, ⟨header', hheader', rfl⟩, -⟩ := isCut_iff.mp h'
  simp only [List.append_assoc, List.singleton_append, List.append_right_inj] at hwhole
  -- what is behind the first line feed
  have hinside := congrArg (List.dropWhile (· != '\n')) hwhole
  rw [dropWhile_header hheader, dropWhile_header hheader'] at hinside
  rw [hinside] at hwhole
  rw [List.append_cancel_right hwhole]

/-- The remembered piece is as short as it can be if it leaves a line feed to what is behind it. -/
theorem isFirstCut_iff {t front body rest : Text} :
    IsFirstCut t front body rest ↔
      IsCut t front body rest ∧ (rest = mark → ¬ ['\n'] <:+ body) := by
  constructor
  · intro h
    refine ⟨h.toIsCut, ?_⟩
    rintro rfl ⟨shorter, rfl⟩
    obtain ⟨rfl, hfront, -⟩ := isCut_iff.mp h.toIsCut
    have hcut : IsCut (front ++ (shorter ++ ['\n'] ++ mark)) front shorter ('\n' :: mark) :=
      isCut_iff.mpr ⟨by simp, hfront, .inr rfl⟩
    rcases h.first hcut with hlt | ⟨-, hle⟩
    · exact Nat.lt_irrefl _ hlt
    · rw [List.length_append, List.length_singleton] at hle
      omega
  · rintro ⟨h, hfeed⟩
    refine ⟨h, fun {front' body' rest'} h' => .inr ⟨h.front_eq h', ?_⟩⟩
    obtain rfl := h.front_eq h'
    obtain ⟨rfl, -, hrest⟩ := isCut_iff.mp h
    obtain ⟨hwhole, -, hrest'⟩ := isCut_iff.mp h'
    have hinside : body ++ rest = body' ++ rest' := List.append_cancel_left hwhole
    have hlength := congrArg List.length hinside
    simp only [List.length_append] at hlength
    rcases hrest with rfl | rfl
    · rcases hrest' with rfl | rfl
      · omega
      · -- a shorter one would leave the line feed at the end to what is behind it
        rw [List.append_cons body'] at hinside
        exact absurd ⟨body', (List.append_cancel_right hinside).symm⟩ (hfeed rfl)
    · have hle : rest'.length ≤ ('\n' :: mark).length := by
        rcases hrest' with rfl | rfl
        · decide
        · exact Nat.le_refl _
      omega

/-- The body of a fenced block is what the pattern remembers. -/
theorem body?_eq_some_iff_isFirstCut {t body : Text} :
    body? t = some body ↔ ∃ front rest, IsFirstCut t front body rest := by
  simp only [isFirstCut_iff, isCut_iff]
  rw [body?_eq_some_iff]
  constructor
  · rintro ⟨header, hheader, rfl | ⟨rfl, hbody⟩⟩
    · exact ⟨_, '\n' :: mark, ⟨by simp, ⟨header, hheader, rfl⟩, .inr rfl⟩, fun h => by cases h⟩
    · exact ⟨_, mark, ⟨by simp, ⟨header, hheader, rfl⟩, .inl rfl⟩, fun _ => hbody⟩
  · rintro ⟨_, rest, ⟨rfl, ⟨header, hheader, rfl⟩, rfl | rfl⟩, hbody⟩
    · exact ⟨header, hheader, .inr ⟨by simp, hbody rfl⟩⟩
    · exact ⟨header, hheader, .inl (by simp)⟩

theorem isBlock_iff_isSome_body? {t : Text} : IsBlock t ↔ (body? t).isSome = true := by
  rw [Option.isSome_iff_exists]
  constructor
  · rintro ⟨header, inside, hheader, rfl⟩
    obtain ⟨body, -, hbody⟩ := exists_body?_append hheader inside
    exact ⟨body, hbody⟩
  · rintro ⟨body, hbody⟩
    obtain ⟨header, inside, hheader, rfl, -⟩ := exists_inside_of_body? hbody
    exact ⟨header, inside, hheader, rfl⟩

instance : DecidablePred IsBlock :=
  fun t => decidable_of_iff ((body? t).isSome = true) isBlock_iff_isSome_body?.symm

/-! ## Texts in a fence -/

/-- What ends a line of a reply: a line feed, behind a carriage return or not. -/
inductive IsLineBreak : Text → Prop where
  | feed : IsLineBreak ['\n']
  | returned : IsLineBreak ['\r', '\n']

theorem IsLineBreak.exists_eq_concat {s : Text} (h : IsLineBreak s) :
    ∃ w, allBlank w = true ∧ '\n' ∉ w ∧ s = w ++ ['\n'] := by
  cases h with
  | feed => exact ⟨[], rfl, List.not_mem_nil, rfl⟩
  | returned => exact ⟨['\r'], rfl, by decide, rfl⟩

/-- A text `b` in a fence: three backticks and an info string, a first line break, the text, a last
line break and three backticks. -/
def fenced (info first b last : Text) : Text := mark ++ (info ++ (first ++ (b ++ (last ++ mark))))

section Strip

variable {info first b last before after t : Text}

/-- The body is the text in the fence and, in front of the line feed, blanks. -/
theorem exists_body?_fenced (hinfo : '\n' ∉ info) (hfirst : IsLineBreak first)
    (hlast : IsLineBreak last) :
    ∃ w, allBlank w = true ∧ body? (fenced info first b last) = some (b ++ w) := by
  obtain ⟨v, -, hv, rfl⟩ := hfirst.exists_eq_concat
  obtain ⟨w, hw, -, rfl⟩ := hlast.exists_eq_concat
  have hcut : IsCut (fenced info (v ++ ['\n']) b (w ++ ['\n']))
      (mark ++ (info ++ v ++ ['\n'])) (b ++ w) ('\n' :: mark) :=
    isCut_iff.mpr ⟨by simp [fenced], ⟨_, List.not_mem_append hinfo hv, rfl⟩, .inr rfl⟩
  -- a closing fence inside of the text would leave the rest of the text behind it
  have hfirst : IsFirstCut (fenced info (v ++ ['\n']) b (w ++ ['\n']))
      (mark ++ (info ++ v ++ ['\n'])) (b ++ w) ('\n' :: mark) :=
    isFirstCut_iff.mpr ⟨hcut, fun h => by cases h⟩
  exact ⟨w, hw, body?_eq_some_iff_isFirstCut.mpr ⟨_, _, hfirst⟩⟩

/-- A fenced block has no blanks at either end. -/
theorem IsBlock.trim_eq (h : IsBlock t) : trim t = t := by
  obtain ⟨header, inside, -, rfl⟩ := h
  refine trim_eq_self (trimStart_cons_of_not_blank _ (by decide)) ?_
  rw [← List.cons_append, ← List.append_assoc, ← List.append_assoc]
  exact trimEnd_append_of_ne_nil _ (by decide) (by decide)

/-- Of a text in a fence the blanks around it and this fence are taken off, and nothing else. -/
theorem strip_fenced (hbefore : allBlank before = true) (hinfo : '\n' ∉ info)
    (hfirst : IsLineBreak first) (hlast : IsLineBreak last) (hafter : allBlank after = true) :
    strip (before ++ fenced info first b last ++ after) = trim b := by
  obtain ⟨w, hw, hbody⟩ := exists_body?_fenced (b := b) hinfo hfirst hlast
  have hblock : IsBlock (fenced info first b last) :=
    isBlock_iff_isSome_body?.mpr (hbody ▸ Option.isSome_some)
  rw [strip, trim_append_blank _ hafter, trim_blank_append _ hbefore, hblock.trim_eq, hbody]
  exact trim_append_blank b hw

/-- Nothing but blanks is taken off a reply that is not fenced, and of a fenced one more. -/
theorem strip_eq_trim_iff : strip t = trim t ↔ ¬ IsBlock (trim t) := by
  rw [isBlock_iff_isSome_body?, strip]
  cases hbody : body? (trim t) with
  | none => exact iff_of_true rfl (by decide)
  | some body =>
    refine iff_of_false (fun h => ?_) (by simp)
    -- the fence itself is missing from what is left
    have hshorter : (trim body).length ≤ body.length := (infix_trim body).length_le
    obtain ⟨header, inside, -, ht, hinside⟩ := exists_inside_of_body? hbody
    have hlength := congrArg List.length (h.trans ht)
    rcases hinside with rfl | rfl
    · simp only [List.length_append, List.length_cons] at hlength
      omega
    · simp only [List.length_append, List.length_cons] at hlength
      omega

end Strip

end Fence

namespace CommentStyle

/-- A comment is made of what is left of a reply without its fence. -/
theorem render_eq_of_strip_eq {r s : Text} (h : Fence.strip r = Fence.strip s)
    (style : CommentStyle) : style.render r = style.render s := by
  cases style with
  | block => rw [render, render, BlockComment.render, BlockComment.render, h]
  | docstring => rw [render, render, Docstring.render, Docstring.render, h]
  | slashes => rw [render, render, SlashComment.render, SlashComment.render, h]

/-- A text in a fence with blanks around it. The fence and the blanks are taken off, whatever the
text is, and what stands at the ends of the text itself is trimmed only. So if the text is not
fenced itself the comment is the one for the text without the fence. -/
theorem render_fenced {before info first b last after : Text} (hbefore : allBlank before = true)
    (hinfo : '\n' ∉ info) (hfirst : Fence.IsLineBreak first) (hlast : Fence.IsLineBreak last)
    (hafter : allBlank after = true) :
    let reply := before ++ Fence.fenced info first b last ++ after
    Fence.strip reply = trim b ∧
      (¬ Fence.IsBlock (trim b) → ∀ style : CommentStyle, style.render reply = style.render b) := by
  intro reply
  have hstrip : Fence.strip reply = trim b :=
    Fence.strip_fenced hbefore hinfo hfirst hlast hafter
  refine ⟨hstrip, fun hb style => render_eq_of_strip_eq ?_ style⟩
  rw [hstrip, Fence.strip_eq_trim_iff.mpr hb]

/-- A text that begins with a fence, has two more in it and ends with backticks, but not with three
of them. -/
theorem render_fenced_of_backticks :
    let b := "\x60\x60\x60ts\na\n\x60\x60\x60\n\x60\x60\x60 b\x60\x60".toList
    ¬ Fence.IsBlock (trim b) ∧ ∀ style : CommentStyle,
      style.render ([' ', '\n'] ++ Fence.fenced "md".toList ['\n'] b ['\r', '\n'] ++ ['\t'])
        = style.render b := by
  intro b
  have hb : ¬ Fence.IsBlock (trim b) := by decide
  exact ⟨hb, (render_fenced (by decide) (by decide) .feed .returned (by decide)).2 hb⟩

end CommentStyle

end DocComments
