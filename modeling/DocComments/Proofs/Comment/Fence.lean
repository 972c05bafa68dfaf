import DocComments.Comment.Style
import DocComments.Proofs.Text.Lines

/-!
# Replies with nothing in them

A reply comes to nothing if it is blank, or if it is a fenced block with nothing but blanks inside
(`Fence.strip_eq_nil_iff`). Each style has one comment for all such replies
(`Comment.ofReply_of_strip_eq_nil`): a block without lines, a literal without a body, or no text at
all.
-/

set_option autoImplicit false

namespace DocComments

open Text

namespace Text

theorem trim_eq_nil_iff {t : Text} : trim t = [] ↔ allBlank t = true := by
  refine ⟨allBlank_of_trim_eq_nil, fun h => ?_⟩
  rw [trim, trimStart_eq_nil h, trimEnd_nil]

end Text

namespace Fence

/-- The text is a fenced block with nothing but blanks inside. -/
def IsHollow (t : Text) : Prop :=
  ∃ header inside, '\n' ∉ header ∧ allBlank inside = true ∧
    t = mark ++ (header ++ '\n' :: (inside ++ mark))

theorem dropWhile_header {header : Text} (h : '\n' ∉ header) (rest : Text) :
    (header ++ '\n' :: rest).dropWhile (· != '\n') = '\n' :: rest := by
  rw [List.dropWhile_append_of_pos]
  · simp
  · intro c hc
    exact bne_iff_ne.mpr fun heq => h (heq ▸ hc)

/-- Behind the first line, only the end of a fenced block is looked at. -/
theorem body?_append {header : Text} (h : '\n' ∉ header) (inside : Text) :
    body? (mark ++ (header ++ '\n' :: inside))
      = (('\n' :: mark).isSuffixOf? inside).or (mark.isSuffixOf? inside) := by
  rw [body?, List.isPrefixOf?_eq_some_iff_append_eq.mpr rfl, Option.bind_eq_bind,
    Option.bind_some, dropWhile_header h]
  simp only [Option.orElse_eq_orElse, Option.orElse_eq_or]

/-- A fenced block has a first line. -/
theorem exists_header_of_body? {t body : Text} (h : body? t = some body) :
    ∃ header inside, '\n' ∉ header ∧ t = mark ++ (header ++ '\n' :: inside) := by
  rw [body?, Option.bind_eq_bind, Option.bind_eq_some_iff] at h
  obtain ⟨rest, hfront, h⟩ := h
  obtain rfl := List.append_eq_of_isPrefixOf?_eq_some hfront
  have hcut : rest.takeWhile (· != '\n') ++ rest.dropWhile (· != '\n') = rest :=
    List.takeWhile_append_dropWhile
  have hheader : '\n' ∉ rest.takeWhile (· != '\n') :=
    fun hmem => absurd (List.mem_takeWhile_imp hmem) (by decide)
  split at h
  · next c inside hdrop =>
    have hc : c = '\n' := by
      have hstop := List.head?_dropWhile_not (· != '\n') rest
      rw [hdrop] at hstop
      simpa using hstop
    rw [hdrop, hc] at hcut
    exact ⟨_, inside, hheader, by rw [hcut]⟩
  · cases h

/-- The body of a fenced block stands between its first line and the closing fence. A line feed in
front of the closing fence is not part of it. -/
theorem body?_eq_some_iff {t body : Text} :
    body? t = some body ↔ ∃ header, '\n' ∉ header ∧
      (t = mark ++ (header ++ '\n' :: (body ++ '\n' :: mark)) ∨
        t = mark ++ (header ++ '\n' :: (body ++ mark)) ∧ ¬ ['\n'] <:+ body) := by
  have hsuffix : ∀ {back inside front : Text}, back.isSuffixOf? inside = some front ↔
      inside = front ++ back := List.isSuffixOf?_eq_some_iff_append_eq.trans eq_comm
  have hplain : ∀ inside, ('\n' :: mark).isSuffixOf? inside = none ∧
      mark.isSuffixOf? inside = some body ↔ inside = body ++ mark ∧ ¬ ['\n'] <:+ body := by
    intro inside
    rw [and_comm, hsuffix]
    refine and_congr_right ?_
    rintro rfl
    rw [Option.eq_none_iff_forall_ne_some, ← not_exists]
    refine not_congr (exists_congr fun front => ?_)
    rw [hsuffix, List.append_cons front, List.append_left_inj, eq_comm]
  constructor
  · intro h
    obtain ⟨header, inside, hheader, rfl⟩ := exists_header_of_body? h
    rw [body?_append hheader, Option.or_eq_some_iff, hsuffix, hplain] at h
    rcases h with rfl | ⟨rfl, hbody⟩
    · exact ⟨header, hheader, .inl rfl⟩
    · exact ⟨header, hheader, .inr ⟨rfl, hbody⟩⟩
  · rintro ⟨header, hheader, rfl | ⟨rfl, hbody⟩⟩
    · rw [body?_append hheader, Option.or_eq_some_iff, hsuffix]
      exact .inl rfl
    · rw [body?_append hheader, Option.or_eq_some_iff, hplain]
      exact .inr ⟨rfl, hbody⟩

/-- Whatever stands between the first line and the closing fence begins with a body. -/
theorem exists_body?_append {header : Text} (h : '\n' ∉ header) (inside : Text) :
    ∃ body, body <+: inside ∧
      body? (mark ++ (header ++ '\n' :: (inside ++ mark))) = some body := by
  by_cases hlast : ['\n'] <:+ inside
  · -- the last line feed inside is not part of the body
    obtain ⟨body, rfl⟩ := hlast
    refine ⟨body, List.prefix_append body _, body?_eq_some_iff.mpr ⟨header, h, .inl ?_⟩⟩
    rw [List.append_assoc, List.singleton_append]
  · exact ⟨inside, List.prefix_rfl, body?_eq_some_iff.mpr ⟨header, h, .inr ⟨rfl, hlast⟩⟩⟩

/-- Inside of a fenced block are its body and perhaps a line feed. -/
theorem exists_inside_of_body? {t body : Text} (h : body? t = some body) :
    ∃ header inside, '\n' ∉ header ∧ t = mark ++ (header ++ '\n' :: (inside ++ mark)) ∧
      (inside = body ∨ inside = body ++ ['\n']) := by
  obtain ⟨header, hheader, rfl | ⟨rfl, -⟩⟩ := body?_eq_some_iff.mp h
  · exact ⟨header, body ++ ['\n'], hheader, by simp, .inr rfl⟩
  · exact ⟨header, body, hheader, rfl, .inl rfl⟩

theorem exists_body?_of_isHollow {t : Text} (h : IsHollow t) :
    ∃ body, body? t = some body ∧ allBlank body = true := by
  obtain ⟨header, inside, hheader, hinside, rfl⟩ := h
  obtain ⟨body, hprefix, hbody⟩ := exists_body?_append hheader inside
  exact ⟨body, hbody, allBlank_of_subset hprefix.subset hinside⟩

theorem isHollow_of_body? {t body : Text} (h : body? t = some body) (hbody : allBlank body = true) :
    IsHollow t := by
  obtain ⟨header, inside, hheader, rfl, rfl | rfl⟩ := exists_inside_of_body? h
  · exact ⟨header, inside, hheader, hbody, rfl⟩
  · refine ⟨header, body ++ ['\n'], hheader, ?_, rfl⟩
    rw [allBlank, List.all_append, Bool.and_eq_true]
    exact ⟨hbody, by decide⟩

/-- There are no blanks around a reply without its fence. -/
theorem strip_eq_nil_iff_allBlank {raw : Text} : strip raw = [] ↔ allBlank (strip raw) = true := by
  have htrimmed : ∃ t, strip raw = trim t := by
    unfold strip
    split
    · next body _ => exact ⟨body, rfl⟩
    · exact ⟨raw, rfl⟩
  obtain ⟨t, ht⟩ := htrimmed
  rw [ht, ← trim_eq_nil_iff, trim_eq_self (trimStart_trim t) (trimEnd_trim t)]

/-- A reply comes to nothing if it is blank or a fence around blanks. -/
theorem strip_eq_nil_iff {raw : Text} :
    strip raw = [] ↔ allBlank raw = true ∨ IsHollow (trim raw) := by
  unfold strip
  constructor
  · intro h
    split at h
    · next body hbody => exact .inr (isHollow_of_body? hbody (trim_eq_nil_iff.mp h))
    · exact .inl (trim_eq_nil_iff.mp h)
  · rintro (h | h)
    · rw [trim_eq_nil_iff.mpr h]
      rfl
    · obtain ⟨body, hbody, hblank⟩ := exists_body?_of_isHollow h
      rw [hbody]
      exact trim_eq_nil_iff.mpr hblank

end Fence

namespace CommentStyle

def emptyComment (indent : Text) : CommentStyle → Text
  | block => BlockComment.opening ++ ['\n'] ++ indent ++ [' '] ++ BlockComment.closing
  | docstring => Docstring.double ++ Docstring.double
  | slashes => []

end CommentStyle

theorem Comment.text_ofReply_of_strip_eq_nil {raw : Text} (h : Fence.strip raw = [])
    (style : CommentStyle) (anchor : Snapshot) :
    (ofReply style raw anchor).text = style.emptyComment anchor.indent := by
  cases style with
  | block =>
    have hrender : CommentStyle.block.render raw = ['/', '*', '*', '\n', ' ', '*', '/'] := by
      rw [CommentStyle.render, BlockComment.render, h]
      rfl
    rw [ofReply, hrender]
    show joinLines [['/', '*', '*'], anchor.indent ++ [' ', '*', '/']] = _
    simp [joinLines, CommentStyle.emptyComment, BlockComment.opening, BlockComment.closing]
  | docstring =>
    have hrender : CommentStyle.docstring.render raw = Docstring.double ++ Docstring.double := by
      rw [CommentStyle.render, Docstring.render, h]
      rfl
    rw [ofReply, hrender]
    rfl
  | slashes =>
    have hrender : CommentStyle.slashes.render raw = [] := by
      rw [CommentStyle.render, SlashComment.render, h]
      rfl
    rw [ofReply, hrender]
    rfl

end DocComments
