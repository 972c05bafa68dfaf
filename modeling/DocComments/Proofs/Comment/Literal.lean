import DocComments.Proofs.Comment.Docstring

/-!
# Docstrings as string literals

`behindLiteral?` reads the literal that a text begins with: a letter `r` or none, three quotation
marks, and then characters, of which a backslash takes the next one along, up to the first three
quotation marks in a row. For every reply the docstring is read to its end and no further
(`docstring_read_to_its_end`), also where three marks in a row are left in it: at least one of them
is then taken along. What carries the proof is that an escaped text can be read from any point on,
in front of a backslash or behind it, without ending the literal
(`behindMarks?_escapeQuotes_append`). Blanks start the reading anew, so neither the indentation of
the lines nor their trimmed ends matter (`Passed`).
-/

set_option autoImplicit false

namespace DocComments

open Text (joinLines allBlank dropReturn)
open Comment (indentLine)

namespace Docstring

variable {c : Char} {s t v w indent marker first line : Text} {ls more : List Text}

/-! ## Reading a literal -/

/-- What stands behind the first three quotation marks in a row, where a backslash takes the next
character along. -/
def behindMarks? : Text → Option Text
  | [] => none
  | '\\' :: _ :: rest => behindMarks? rest
  | '"' :: '"' :: '"' :: rest => some rest
  | _ :: rest => behindMarks? rest

/-- What stands behind the literal that a text begins with. There may be an `r` in front of it. -/
def behindLiteral? (t : Text) : Option Text :=
  (double.isPrefixOf? t <|> ('r' :: double).isPrefixOf? t).bind behindMarks?

theorem behindMarks?_double_append (t : Text) : behindMarks? (double ++ t) = some t := by
  rw [double, List.cons_append, List.cons_append, List.cons_append, List.nil_append, behindMarks?]

theorem behindMarks?_escaped (c : Char) (t : Text) :
    behindMarks? ('\\' :: c :: t) = behindMarks? t := by
  rw [behindMarks?]

theorem behindMarks?_cons (hmark : c ≠ '"') (hslash : c ≠ '\\') (t : Text) :
    behindMarks? (c :: t) = behindMarks? t := by
  rw [behindMarks?]
  · exact fun _ _ h => absurd h hslash
  · exact fun _ h => absurd h hmark

/-- One mark with fewer than two behind it does not end the literal. -/
theorem behindMarks?_mark (h : ¬ List.replicate 2 '"' <+: t) :
    behindMarks? ('"' :: t) = behindMarks? t := by
  rw [behindMarks?]
  · exact fun _ _ hslash => absurd hslash (by decide)
  · rintro rest - rfl
    exact h ⟨rest, rfl⟩

-- of the three marks behind the letter the first is taken along, so two in a row are left
example : behindLiteral? "r\"\"\"a\\\"\"\"b\"\"\" c".toList = some " c".toList := by decide

example : behindLiteral? "\"\"\"a\\\"\"\"".toList = none := by decide

/-! ## Escaped texts -/

/-- To escape quotation marks puts none in front of a text. -/
theorem replicate_prefix_of_prefix_escapeQuotes {m : Nat}
    (h : List.replicate m '"' <+: escapeQuotes t) : List.replicate m '"' <+: t := by
  induction m generalizing t with
  | zero => exact List.nil_prefix
  | succ m ih =>
    rw [List.replicate_succ] at h ⊢
    induction t using induction_double with
    | nil => exact h
    | marks t => exact absurd (List.cons_prefix_cons.mp h).1 (by decide)
    | next d t hfew =>
      rw [escapeQuotes_cons_of_few hfew, List.cons_prefix_cons] at h
      exact List.cons_prefix_cons.mpr ⟨h.1, ih h.2⟩

/-- An escaped text does not end the literal, whether a backslash takes its first character along
or not. -/
theorem behindMarks?_escapeQuotes_append (hmark : c ≠ '"') (hslash : c ≠ '\\') (t v : Text) :
    behindMarks? (escapeQuotes t ++ c :: v) = behindMarks? v ∧
    behindMarks? ('\\' :: (escapeQuotes t ++ c :: v)) = behindMarks? v := by
  induction t using induction_double with
  | nil => exact ⟨behindMarks?_cons hmark hslash v, behindMarks?_escaped c v⟩
  | marks t ih =>
    rw [escapeQuotes_double_append, escapedDouble]
    refine ⟨ih.1, ?_⟩
    -- the first mark is not escaped any more, but there is a backslash behind it
    have hone : ¬ List.replicate 2 '"' <+:
        '\\' :: '"' :: '\\' :: '"' :: (escapeQuotes t ++ c :: v) := fun h =>
      absurd (List.cons_prefix_cons.mp h).1 (by decide)
    calc behindMarks? ('\\' :: '\\' :: '"' :: '\\' :: '"' :: '\\' :: '"' ::
          (escapeQuotes t ++ c :: v))
        = behindMarks? ('"' :: '\\' :: '"' :: '\\' :: '"' :: (escapeQuotes t ++ c :: v)) :=
          behindMarks?_escaped _ _
      _ = behindMarks? ('\\' :: '"' :: '\\' :: '"' :: (escapeQuotes t ++ c :: v)) :=
          behindMarks?_mark hone
      _ = behindMarks? v := ih.1
  | next d t hfew ih =>
    rw [escapeQuotes_cons_of_few hfew, List.cons_append]
    refine ⟨?_, (behindMarks?_escaped d _).trans ih.1⟩
    -- the first character is a mark, takes the next one along, or is read alone
    by_cases hd : d = '"'
    · subst hd
      have hone : ¬ List.replicate 2 '"' <+: escapeQuotes t ++ c :: v := by
        intro h
        have hfront := (Text.prefix_append_cons_iff (by simpa using hmark)).mp h
        exact hfew (List.cons_prefix_cons.mpr
          ⟨rfl, replicate_prefix_of_prefix_escapeQuotes hfront⟩)
      exact (behindMarks?_mark hone).trans ih.1
    · by_cases hback : d = '\\'
      · subst hback
        exact ih.2
      · exact (behindMarks?_cons hd hback _).trans ih.1

/-- With the blank that guards its end, an escaped text does not end the literal, and the literal
can end right behind it. -/
theorem behindMarks?_guarded (s v : Text) :
    behindMarks? (escapeQuotes s ++ (endGuard (escapeQuotes s) ++ v)) = behindMarks? v := by
  unfold endGuard
  rw [getLast?_escapeQuotes]
  split
  · exact (behindMarks?_escapeQuotes_append (by decide) (by decide) s v).1
  · exact (behindMarks?_escapeQuotes_append (by decide) (by decide) s v).1
  · next hmark hslash =>
    -- there is no guard, and the last character takes its place
    rcases List.eq_nil_or_concat s with rfl | ⟨front, d, rfl⟩
    · rfl
    · rw [List.concat_eq_append, List.getLast?_concat] at hmark hslash
      have hd : d ≠ '"' := fun h => hmark (congrArg some h)
      have hback : d ≠ '\\' := fun h => hslash (congrArg some h)
      have h := (behindMarks?_escapeQuotes_append hd hback front v).1
      rw [List.concat_eq_append, escapeQuotes_append_cons hd, escapeQuotes_nil]
      simpa using h

/-! ## Lines and blanks -/

/-- The literal does not end in the text, and behind a blank it is read as from the beginning. -/
def Passed (s : Text) : Prop :=
  ∀ c v, Text.isBlank c = true → behindMarks? (s ++ c :: v) = behindMarks? v

theorem passed_escapeQuotes (s : Text) : Passed (escapeQuotes s) := by
  intro c v hc
  refine (behindMarks?_escapeQuotes_append ?_ ?_ s v).1
  · rintro rfl
    exact absurd hc (by decide)
  · rintro rfl
    exact absurd hc (by decide)

theorem passed_nil : Passed [] := passed_escapeQuotes []

theorem behindMarks?_blank_append (hw : allBlank w = true) (v : Text) :
    behindMarks? (w ++ v) = behindMarks? v := by
  induction w with
  | nil => rfl
  | cons c w ih =>
    rw [allBlank, List.all_cons, Bool.and_eq_true] at hw
    rw [List.cons_append, ← ih hw.2]
    exact passed_nil c (w ++ v) hw.1

namespace Passed

theorem indented (h : Passed line) (hblank : allBlank indent = true) :
    Passed (indentLine indent line) := by
  unfold indentLine
  split
  · exact passed_nil
  · intro c v hc
    rw [List.append_assoc, behindMarks?_blank_append hblank, h c v hc]

theorem joined (h : ∀ line ∈ ls, Passed line) : Passed (joinLines ls) := by
  induction ls with
  | nil => exact passed_nil
  | cons line ls ih =>
    have hline := h line List.mem_cons_self
    by_cases hnil : ls = []
    · rw [hnil, Text.joinLines_singleton]
      exact hline
    · intro c v hc
      rw [Text.joinLines_cons line hnil, List.append_assoc, List.cons_append,
        hline '\n' _ (by decide)]
      exact ih (fun line hmem => h line (List.mem_cons_of_mem _ hmem)) c v hc

/-- Any blanks will do behind the text. -/
theorem behindMarks?_append (h : Passed s) (hw : allBlank w = true) (hne : w ≠ []) (v : Text) :
    behindMarks? (s ++ (w ++ v)) = behindMarks? v := by
  obtain ⟨c, w, rfl⟩ := List.exists_cons_of_ne_nil hne
  rw [allBlank, List.all_cons, Bool.and_eq_true] at hw
  rw [List.cons_append, h c _ hw.1, behindMarks?_blank_append hw.2]

end Passed

/-! ## Docstrings -/

/-- Escaped lines are read up to the closing marks. -/
theorem behindMarks?_inner (first : Text) (more : List Text) (hblank : allBlank indent = true) :
    behindMarks? (inner indent (escapeQuotes first) (more.map escapeQuotes) ++ double)
      = some [] := by
  have hclose : behindMarks? double = some [] := behindMarks?_double_append []
  rw [inner, List.append_assoc]
  by_cases hnil : more = []
  · subst hnil
    rw [List.map_nil, List.map_nil, Text.joinLines_singleton, List.getLastD_nil, if_pos rfl,
      List.append_nil, behindMarks?_guarded, hclose]
  · have hlines : Passed (joinLines
        (escapeQuotes first :: (more.map escapeQuotes).map (indentLine indent))) := by
      refine Passed.joined fun line hline => ?_
      rcases List.mem_cons.mp hline with rfl | hline
      · exact passed_escapeQuotes first
      · obtain ⟨escaped, hescaped, rfl⟩ := List.mem_map.mp hline
        obtain ⟨plain, -, rfl⟩ := List.mem_map.mp hescaped
        exact (passed_escapeQuotes plain).indented hblank
    have hne : more.map escapeQuotes ≠ [] := by simpa using hnil
    rw [hlines.behindMarks?_append (allBlank_closing hblank _ _) ?_ double, hclose]
    rw [if_neg hne]
    simp

theorem behindLiteral?_framed (hmarker : IsMarker marker) :
    behindLiteral? (framed indent marker first more)
      = behindMarks? (inner indent first more ++ double) := by
  rcases hmarker with rfl | rfl
  · rw [behindLiteral?, framed, List.nil_append, List.isPrefixOf?_eq_some_iff_append_eq.mpr rfl]
    rfl
  · have hplain : double.isPrefixOf? (framed indent ['r'] first more) = none := rfl
    rw [behindLiteral?, hplain, framed, ← List.append_assoc]
    change ((('r' :: double).isPrefixOf? ('r' :: double ++ _)).bind behindMarks?) = _
    rw [List.isPrefixOf?_eq_some_iff_append_eq.mpr rfl]
    rfl

/-- What is rendered is an escaped text in marks. A text that stays raw has nothing to escape. -/
theorem exists_render_eq_quoted (raw : Text) :
    ∃ marker, IsMarker marker ∧
      render raw = quoted marker (guardEnd (escapeQuotes (content raw))) := by
  by_cases hraw : ∃ l, literal? (Fence.strip raw) = some l ∧ l.staysRaw = true
  · obtain ⟨l, hl, hstays⟩ := hraw
    obtain ⟨hrender, hquotes, -⟩ := render_of_staysRaw hl hstays
    exact ⟨['r'], .inr rfl, by rw [hrender, escapeQuotes_eq_self hquotes]⟩
  · exact ⟨[], .inl rfl, render_of_not_staysRaw fun l hl hstays => hraw ⟨l, hl, hstays⟩⟩

theorem dropReturn_escapeQuotes (s : Text) :
    dropReturn (escapeQuotes s) = escapeQuotes (dropReturn s) := by
  by_cases hlast : s.getLast? = some '\r'
  · obtain ⟨front, rfl⟩ := List.getLast?_eq_some_iff.mp hlast
    rw [escapeQuotes_append_cons (by decide), escapeQuotes_nil, Text.dropReturn_concat,
      Text.dropReturn_concat]
  · rw [Text.dropReturn_of_ne hlast, Text.dropReturn_of_ne]
    rwa [getLast?_escapeQuotes]

/-- The docstring at a place has escaped lines. -/
theorem exists_indentMore_render_eq (raw indent : Text) :
    ∃ (marker first : Text) (more : List Text), IsMarker marker ∧
      Comment.indentMore indent (render raw)
        = framed indent marker (escapeQuotes first) (more.map escapeQuotes) := by
  have htrim : Text.trim (Text.trim (unwrap raw)) = Text.trim (unwrap raw) :=
    Text.trim_eq_self (Text.trimStart_trim _) (Text.trimEnd_trim _)
  obtain ⟨first, more, hcontent, hflush⟩ := exists_flush htrim
  obtain ⟨marker, hmarker, hrender⟩ := exists_render_eq_quoted raw
  refine ⟨marker, dropReturn first, more, hmarker, ?_⟩
  rw [hrender, content, hcontent, escapeQuotes_joinLines, List.map_cons,
    hflush.map_escapeQuotes.quoted_guardEnd, indentMore_framed hflush.map_escapeQuotes hmarker,
    dropReturn_escapeQuotes]

end Docstring

namespace Comment

open Docstring

/-- For every reply and place, the docstring is exactly one literal: its first three quotation marks
in a row that no backslash takes along are the ones at its end. -/
theorem docstring_read_to_its_end (raw source : Text) (kind : String) (r : ByteRange) :
    behindLiteral? (ofReply .docstring raw (.ofRange source kind r)).text = some [] := by
  obtain ⟨marker, first, more, hmarker, htext⟩ :=
    exists_indentMore_render_eq raw (Snapshot.ofRange source kind r).indent
  change behindLiteral? (indentMore _ (Docstring.render raw)) = some []
  rw [htext, behindLiteral?_framed hmarker,
    behindMarks?_inner first more (Snapshot.allBlank_indent source kind r)]

end Comment

end DocComments
