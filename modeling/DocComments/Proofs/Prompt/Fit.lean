import DocComments.Proofs.Prompt.Fixed
import DocComments.Proofs.Prompt.Truncate
import Mathlib.Data.List.SplitBy

/-!
# Prompts that fit their limit

A prompt that has too many tokens is rendered with less of its excerpts of low priority. What an
excerpt may have is computed from counts of its pieces, and the pieces are joined differently
afterwards. `Tokenizer.Joins` says what a tokenizer must do for this to come out right, and
`count_render_le` that the prompt then keeps to its limit, if the other sections leave room for the
joins and no more than nine excerpts can be cut. Every tokenizer that cuts a text between characters
by looking at the two of them is of this kind, if it leaves line feeds together
(`Tokenizer.joins_ofRuns`).
-/

set_option autoImplicit false

namespace DocComments

/-! ## What a tokenizer must do -/

namespace Excerpt

def opening (b : Excerpt) : Text := b.name.toList ++ ":\n```".toList ++ b.fence.toList ++ ['\n']

def closing : Text := "\n```".toList

theorem render_eq (b : Excerpt) : b.render = b.opening ++ (b.body ++ closing) := by
  rw [render, opening, closing, List.append_assoc _ b.body]

theorem render_of_body (b : Excerpt) (body : Text) :
    Excerpt.render { b with body := body } = b.opening ++ (body ++ closing) :=
  render_eq { b with body := body }

end Excerpt

/-- Tokens do not get more where texts are joined, and no more than one where the frame of an
excerpt is taken apart. -/
structure Tokenizer.Joins (tk : Tokenizer) : Prop where
  append : ∀ s t : Text, tk.count (s ++ t) ≤ tk.count s + tk.count t
  blankLine : tk.count ['\n', '\n'] ≤ 1
  frame : ∀ b : Excerpt, tk.count b.opening + tk.count Excerpt.closing
    ≤ tk.count (Excerpt.render { b with body := [] }) + 1
  truncate : ∀ (limit : Nat) (t : Text), tk.count (tk.truncate limit t) ≤ limit

namespace Tokenizer.Joins

variable {tk : Tokenizer} (h : tk.Joins)

include h

theorem count_nil : tk.count [] = 0 := by
  have hnil : tk.truncate 0 [] = [] := List.prefix_nil.mp (prefix_truncate tk 0 [])
  have hle := h.truncate 0 []
  rw [hnil] at hle
  exact Nat.le_zero.mp hle

/-- An excerpt has the tokens of its frame and of its body. -/
theorem count_excerpt_le (b : Excerpt) (body : Text) :
    tk.count (Excerpt.render { b with body := body })
      ≤ Prompt.frameCost tk b + tk.count body := by
  have hframe := h.frame b
  calc tk.count (Excerpt.render { b with body := body })
      = tk.count (b.opening ++ (body ++ Excerpt.closing)) := by rw [Excerpt.render_of_body]
    _ ≤ tk.count b.opening + tk.count (body ++ Excerpt.closing) := h.append _ _
    _ ≤ tk.count b.opening + (tk.count body + tk.count Excerpt.closing) :=
        Nat.add_le_add_left (h.append _ _) _
    _ ≤ Prompt.frameCost tk b + tk.count body := by
        rw [Prompt.frameCost]
        omega

/-- A body that is cut has its allowance and the mark. -/
theorem count_cutBody_le (allowance : Nat) (body : Text) :
    tk.count (Prompt.cutBody tk allowance body) ≤ allowance + tk.count Prompt.cutMark := by
  have hkept := h.truncate allowance body
  unfold Prompt.cutBody
  dsimp only
  split
  · have hmark := h.append (tk.truncate allowance body) Prompt.cutMark
    omega
  · omega

end Tokenizer.Joins

namespace Prompt

variable {tk : Tokenizer}

/-! ## Joined sections -/

/-- The tokens of some texts, with one for the join behind each of them. -/
def cost (tk : Tokenizer) (parts : List Text) : Nat := (parts.map fun t => tk.count t + 1).sum

@[simp] theorem cost_nil : cost tk [] = 0 := rfl

@[simp] theorem cost_cons (part : Text) (parts : List Text) :
    cost tk (part :: parts) = tk.count part + 1 + cost tk parts := by
  rw [cost, List.map_cons, List.sum_cons]
  rfl

/-- No join is needed behind the last text. -/
theorem count_joinSections_lt (h : tk.Joins) {parts : List Text} (hne : parts ≠ []) :
    tk.count (joinSections parts) < cost tk parts := by
  induction parts with
  | nil => exact absurd rfl hne
  | cons part parts ih =>
    cases parts with
    | nil => simp [joinSections]
    | cons next more =>
      have hrest := ih (List.cons_ne_nil next more)
      have hjoin : joinSections (part :: next :: more)
          = part ++ (['\n', '\n'] ++ joinSections (next :: more)) := by
        simp [joinSections]
      have hblank := h.blankLine
      have hback := h.append ['\n', '\n'] (joinSections (next :: more))
      have hfront := h.append part (['\n', '\n'] ++ joinSections (next :: more))
      rw [hjoin, cost_cons]
      omega

/-! ## What the sections are given -/

def flexibleCount (p : Prompt) : Nat := (p.filter Section.isFlexible).length

theorem fixedCost_cons_of_fixed {s : Section} (p : Prompt) (h : s.isFlexible = false) :
    fixedCost tk (s :: p) = tk.count s.render + 1 + fixedCost tk p := by
  simp [fixedCost, h]

theorem fixedCost_cons_of_flexible {s : Section} (p : Prompt) (h : s.isFlexible = true) :
    fixedCost tk (s :: p) = fixedCost tk p := by
  simp [fixedCost, h]

theorem flexibleCount_cons_of_fixed {s : Section} (p : Prompt) (h : s.isFlexible = false) :
    flexibleCount (s :: p) = flexibleCount p := by
  simp [flexibleCount, h]

theorem flexibleCount_cons_of_flexible {s : Section} (p : Prompt) (h : s.isFlexible = true) :
    flexibleCount (s :: p) = flexibleCount p + 1 := by
  simp [flexibleCount, h]

/-- The texts have no more tokens than the fixed sections and what is left for the excerpts. The
token that is counted for the join behind an excerpt is used up where its frame is taken apart, so
that these joins come on top. -/
theorem cost_fitSections_le (h : tk.Joins) (remaining : Nat) (p : Prompt) :
    cost tk (fitSections tk remaining p) ≤ fixedCost tk p + remaining + flexibleCount p := by
  -- what an excerpt uses is taken from what is left for those behind it
  induction p generalizing remaining with
  | nil =>
    rw [fitSections, cost_nil]
    exact Nat.zero_le _
  | cons s p ih =>
    cases hs : s.isFlexible with
    | false =>
      have hrest := ih remaining
      rw [fitSections_cons_of_fixed tk remaining p hs, cost_cons, fixedCost_cons_of_fixed p hs,
        flexibleCount_cons_of_fixed p hs]
      omega
    | true =>
      obtain ⟨b, rfl⟩ := exists_of_isFlexible hs
      rw [fixedCost_cons_of_flexible p hs, flexibleCount_cons_of_flexible p hs, fitSections]
      dsimp only
      by_cases hroom : remaining ≤ frameCost tk b + tk.count cutMark
      · have hrest := ih 0
        rw [if_pos hroom]
        omega
      · rw [if_neg hroom, cost_cons]
        generalize hbody : cutBody tk (remaining - frameCost tk b - tk.count cutMark) b.body = body
        have hcut := h.count_cutBody_le (remaining - frameCost tk b - tk.count cutMark) b.body
        rw [hbody] at hcut
        have hrender := h.count_excerpt_le b body
        have hrest := ih (remaining - (frameCost tk b + tk.count body))
        omega

/-- A prompt keeps to its limit if the sections that are not cut leave room for the joins, and at
most nine excerpts may be cut: eight joins are kept free, and there is one fewer than there are
sections. -/
theorem count_render_le (h : tk.Joins) (p : Prompt) (limit : Nat)
    (hlow : (p.filter Section.isFlexible).length ≤ 9)
    (hfixed : fixedCost tk p + slack ≤ limit) :
    tk.count (p.render tk (some limit)) ≤ limit := by
  rw [render]
  by_cases hwhole : tk.count (whole p) ≤ limit
  · rw [if_pos hwhole]
    exact hwhole
  · rw [if_neg hwhole]
    generalize hparts : fitSections tk (limit - (fixedCost tk p + slack)) p = parts
    have hcost := cost_fitSections_le h (limit - (fixedCost tk p + slack)) p
    rw [hparts] at hcost
    by_cases hnil : parts = []
    · rw [hnil, show joinSections [] = [] from rfl, h.count_nil]
      exact Nat.zero_le _
    · have hjoined := count_joinSections_lt h hnil
      have hcount : flexibleCount p ≤ 9 := hlow
      have hslack : slack = 8 := rfl
      omega

end Prompt

/-! ## Tokenizers that look at two characters -/

namespace Tokenizer

/-- The tokenizer that keeps characters together as long as each of them goes with the next. -/
def ofRuns (goes : Char → Char → Bool) : Tokenizer :=
  ⟨fun t => (t.splitBy goes).map Text.byteSize⟩

variable (goes : Char → Char → Bool)

theorem count_ofRuns (t : Text) : (ofRuns goes).count t = (t.splitBy goes).length := by
  rw [count, ofRuns, List.length_map]

/-- A character in front of a text begins a token of its own unless it goes with the next one. -/
theorem length_splitBy_cons_cons (c d : Char) (t : Text) :
    ((c :: d :: t).splitBy goes).length
      = ((d :: t).splitBy goes).length + if goes c d then 0 else 1 := by
  by_cases hgoes : goes c d = true
  · -- the first run of the rest takes the character in
    obtain ⟨hflat, hnil, hruns, hends⟩ := List.splitBy_eq_iff.mp (rfl : (d :: t).splitBy goes = _)
    cases hrest : (d :: t).splitBy goes with
    | nil => cases List.splitBy_eq_nil.mp hrest
    | cons run more =>
      rw [hrest] at hflat hnil hruns hends
      cases run with
      | nil => exact absurd List.mem_cons_self hnil
      | cons e run =>
        obtain ⟨rfl, ht⟩ := List.cons.inj hflat
        have hsplit : (c :: d :: t).splitBy goes = (c :: d :: run) :: more := by
          refine List.splitBy_eq_iff.mpr ⟨?_, ?_, ?_, ?_⟩
          · rw [ht]
            rfl
          · simpa using hnil
          · intro r hr
            rcases List.mem_cons.mp hr with rfl | hr
            · exact List.isChain_cons_cons.mpr ⟨hgoes, hruns _ List.mem_cons_self⟩
            · exact hruns r (List.mem_cons_of_mem _ hr)
          · cases more with
            | nil => exact List.isChain_singleton _
            | cons next more =>
              obtain ⟨⟨_, hnext, hlast⟩, hmore⟩ := List.isChain_cons_cons.mp hends
              refine List.isChain_cons_cons.mpr ⟨⟨List.cons_ne_nil _ _, hnext, ?_⟩, hmore⟩
              rwa [List.getLast_cons (List.cons_ne_nil d run)]
        rw [hsplit, if_pos hgoes]
        rfl
  · have hsplit := List.splitBy_append_cons (r := goes) (l := [c]) (a := d) t
      (by simpa using hgoes)
    rw [List.singleton_append] at hsplit
    rw [hsplit, List.length_append, List.splitBy_of_isChain (List.cons_ne_nil c [])
      (List.isChain_singleton c), if_neg hgoes, List.length_singleton, Nat.add_comm]

/-- Where two texts meet, the last token of one may become one with the first token of the other,
and nothing else changes. -/
theorem length_splitBy_append (s t : Text) :
    ((s ++ t).splitBy goes).length ≤ (s.splitBy goes).length + (t.splitBy goes).length ∧
      (s.splitBy goes).length + (t.splitBy goes).length ≤ ((s ++ t).splitBy goes).length + 1 := by
  induction s with
  | nil => simp
  | cons c s ih =>
    cases s with
    | nil =>
      have hone : ([c].splitBy goes).length = 1 := by
        rw [List.splitBy_of_isChain (List.cons_ne_nil c []) (List.isChain_singleton c)]
        rfl
      cases t with
      | nil => simp
      | cons d t =>
        rw [List.singleton_append, length_splitBy_cons_cons, hone]
        split <;> omega
    | cons d s =>
      rw [List.cons_append, List.cons_append, length_splitBy_cons_cons,
        length_splitBy_cons_cons goes c d s]
      rw [List.cons_append] at ih
      omega

theorem sum_map_byteSize (runs : List Text) :
    (runs.map Text.byteSize).sum = Text.byteSize runs.flatten := by
  induction runs with
  | nil => rfl
  | cons run runs ih => rw [List.map_cons, List.sum_cons, ih, List.flatten_cons,
      Text.byteSize_append]

/-- The first tokens of a text are the tokens of what they make up. -/
theorem splitBy_flatten_take (limit : Nat) (t : Text) :
    ((t.splitBy goes).take limit).flatten.splitBy goes = (t.splitBy goes).take limit := by
  refine List.splitBy_flatten ?_ ?_ ?_
  · exact fun hnil => List.nil_notMem_splitBy goes t (List.mem_of_mem_take hnil)
  · exact fun run hrun => List.isChain_of_mem_splitBy (List.mem_of_mem_take hrun)
  · exact (List.isChain_getLast_head_splitBy goes t).take limit

theorem truncate_ofRuns_of_lt {limit : Nat} {t : Text} (hlimit : limit < (ofRuns goes).count t) :
    (ofRuns goes).truncate limit t = ((t.splitBy goes).take limit).flatten := by
  have hsize : (ofRuns goes).headSize limit t
      = Text.byteSize ((t.splitBy goes).take limit).flatten := by
    rw [headSize, ofRuns, ← List.map_take, sum_map_byteSize]
  have hcut : ((t.splitBy goes).take limit).flatten ++ ((t.splitBy goes).drop limit).flatten
      = t := by
    rw [← List.flatten_append, List.take_append_drop, List.flatten_splitBy]
  have hboundary : Text.isBoundary ((ofRuns goes).headSize limit t) t = true :=
    Text.isBoundary_iff.mpr ⟨_, _, hcut.symm, hsize.symm⟩
  have hfront := congrArg (Text.takeBytes ((ofRuns goes).headSize limit t)) hcut
  rw [truncate_of_isBoundary hlimit hboundary, ← hfront, hsize, Text.takeBytes_byteSize_append]

/-- A tokenizer that looks at two characters counts as it should, if it leaves line feeds
together. -/
theorem joins_ofRuns (hfeeds : goes '\n' '\n' = true) : (ofRuns goes).Joins where
  append s t := by
    rw [count_ofRuns, count_ofRuns, count_ofRuns]
    exact (length_splitBy_append goes s t).1
  blankLine := by
    rw [count_ofRuns, List.splitBy_of_isChain (List.cons_ne_nil _ _)
      (List.isChain_cons_cons.mpr ⟨hfeeds, List.isChain_singleton _⟩)]
    exact Nat.le_refl 1
  frame b := by
    rw [count_ofRuns, count_ofRuns, count_ofRuns, Excerpt.render_of_body, List.nil_append]
    exact (length_splitBy_append goes b.opening Excerpt.closing).2
  truncate limit t := by
    by_cases hlimit : limit < (ofRuns goes).count t
    · rw [truncate_ofRuns_of_lt goes hlimit, count_ofRuns, splitBy_flatten_take]
      exact List.length_take_le _ _
    · rw [truncate_of_count_le (Nat.le_of_not_lt hlimit)]
      exact Nat.le_of_not_lt hlimit

/-- Characters that make up one token of plain words and of the frames around them: letters, with
the blank in front of them, line feeds, dots, the marks of a fence, and a colon at the end of its
line. The word "truncated" is two tokens. -/
def plain (c d : Char) : Bool :=
  c.isAlpha && d.isAlpha && !(c == 'r' && d == 'u') ||
    c == ' ' && (d.isAlpha || d == '[') || c == '.' && d == '.' || c == '\x60' && d == '\x60' ||
    c == ':' && d == '\n' || c == '\n' && d == '\n'

end Tokenizer

namespace Prompt

/-- A file of twenty words, and a line that is always kept. -/
def numerals : Prompt :=
  [.excerpt ⟨"A", "ts", (" ".intercalate (List.replicate 5 "one two three four")).toList⟩ .low,
    .paragraph "end".toList]

/-- The twenty words are cut to three, so that the prompt fits. -/
theorem count_render_numerals_le :
    (Tokenizer.ofRuns Tokenizer.plain).Joins ∧
      (numerals.filter Section.isFlexible).length ≤ 9 ∧
      fixedCost (Tokenizer.ofRuns Tokenizer.plain) numerals + slack ≤ 26 ∧
      (Tokenizer.ofRuns Tokenizer.plain).count (whole numerals) = 29 ∧
      (Tokenizer.ofRuns Tokenizer.plain).count
        (render (Tokenizer.ofRuns Tokenizer.plain) (some 26) numerals) ≤ 26 := by
  have hjoins : (Tokenizer.ofRuns Tokenizer.plain).Joins := Tokenizer.joins_ofRuns _ rfl
  have hfixed : fixedCost (Tokenizer.ofRuns Tokenizer.plain) numerals + slack ≤ 26 := by
    decide
  exact ⟨hjoins, by decide, hfixed, by decide,
    count_render_le hjoins numerals 26 (by decide) hfixed⟩

end Prompt

end DocComments
