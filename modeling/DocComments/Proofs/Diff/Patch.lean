import DocComments.Proofs.Diff.Lines

/-!
# Patches

A hunk of a unified diff has a header and rows; a row is a line behind a sign. `Hunk.lines` is how
it is written, `patch` is what it is good for: the old lines of each hunk are replaced by its new
ones, and the lines between hunks are copied. `Turns` says of hunks that they lead from some old
lines to some new ones; all that a reader of a patch relies on follows from it by induction over
the hunks.
-/

set_option autoImplicit false

namespace DocComments

namespace Diff

/-! ## Hunks -/

inductive Sign where
  /-- the line stands in both texts -/
  | kept
  /-- the old line goes -/
  | gone
  /-- the new line comes -/
  | come
  deriving DecidableEq, Repr

def Sign.char : Sign → Char
  | kept => ' '
  | gone => '-'
  | come => '+'

theorem Sign.char_ne (sign : Sign) : sign.char ≠ '\n' ∧ sign.char ≠ '\r' := by
  cases sign <;> decide

structure Row where
  sign : Sign
  line : Text

def Row.text (r : Row) : Text := r.sign.char :: r.line

def oldOf (rows : List Row) : List Text := (rows.filter (·.sign ≠ .come)).map Row.line

def newOf (rows : List Row) : List Text := (rows.filter (·.sign ≠ .gone)).map Row.line

/-- Lines behind a sign, each with an end. -/
def rowsOf (sign : Sign) (lines : List Text) : List Row := lines.map fun line => ⟨sign, closed line⟩

section Rows

variable (rows more : List Row) (lines : List Text)

@[simp] theorem oldOf_append : oldOf (rows ++ more) = oldOf rows ++ oldOf more := by simp [oldOf]

@[simp] theorem newOf_append : newOf (rows ++ more) = newOf rows ++ newOf more := by simp [newOf]

theorem map_line_filter_rowsOf (sign other : Sign) :
    ((rowsOf sign lines).filter (·.sign ≠ other)).map Row.line
      = if sign = other then [] else lines.map closed := by
  by_cases hsign : sign = other
  · simp [rowsOf, hsign]
  · have hall : ∀ r ∈ rowsOf sign lines, decide (r.sign ≠ other) = true := by
      intro r hr
      obtain ⟨line, -, rfl⟩ := List.mem_map.mp hr
      simpa using hsign
    rw [List.filter_eq_self.mpr hall, if_neg hsign, rowsOf, List.map_map]
    rfl

@[simp] theorem oldOf_rowsOf (sign : Sign) :
    oldOf (rowsOf sign lines) = if sign = .come then [] else lines.map closed :=
  map_line_filter_rowsOf lines sign .come

@[simp] theorem newOf_rowsOf (sign : Sign) :
    newOf (rowsOf sign lines) = if sign = .gone then [] else lines.map closed :=
  map_line_filter_rowsOf lines sign .gone

theorem flatMap_signedLine (sign : Sign) :
    lines.flatMap (signedLine sign.char) = (rowsOf sign lines).flatMap Row.text := by
  rw [rowsOf, List.flatMap_map]
  exact List.flatMap_congr fun line _ => signedLine_eq sign.char line

theorem mem_oldOf_or_mem_newOf {rows : List Row} {r : Row} (hr : r ∈ rows) :
    r.line ∈ oldOf rows ∨ r.line ∈ newOf rows := by
  by_cases hsign : r.sign = .come
  · exact .inr (List.mem_map_of_mem (List.mem_filter.mpr ⟨hr, by simp [hsign]⟩))
  · exact .inl (List.mem_map_of_mem (List.mem_filter.mpr ⟨hr, by simpa using hsign⟩))

end Rows

/-- A hunk: how many lines stand in front of it in each text, and its rows. -/
structure Hunk where
  oldBefore : Nat
  newBefore : Nat
  rows : List Row

namespace Hunk

def oldLines (h : Hunk) : List Text := oldOf h.rows

def newLines (h : Hunk) : List Text := newOf h.rows

/-- The header: the first line and the number of lines in each text, counted from one. -/
def header (h : Hunk) : Text :=
  ("@@ -" ++ (toString (h.oldBefore + 1) ++ "," ++ toString h.oldLines.length) ++
    " +" ++ (toString (h.newBefore + 1) ++ "," ++ toString h.newLines.length) ++
    " @@\n").toList

def lines (h : Hunk) : List Text := h.header :: h.rows.map Row.text

/-- A hunk ends in front of another one, in both texts. -/
def Precedes (h next : Hunk) : Prop :=
  h.oldBefore + h.oldLines.length ≤ next.oldBefore ∧
    h.newBefore + h.newLines.length ≤ next.newBefore

theorem unbroken_toString (n : Nat) : Unbroken (toString n).toList := by
  have hdigits : ∀ c ∈ (toString n).toList, c.isDigit = true := by
    intro c hc
    rw [Nat.toString_eq_repr, Nat.toList_repr] at hc
    exact Nat.isDigit_of_mem_toDigits (by decide) (by decide) hc
  exact ⟨fun hmem => absurd (hdigits _ hmem) (by decide),
    fun hmem => absurd (hdigits _ hmem) (by decide)⟩

/-- A header is one line. -/
theorem isLine_header (h : Hunk) : IsLine h.header := by
  have hspan : ∀ n k : Nat,
      Unbroken ((toString n).toList ++ ",".toList ++ (toString k).toList) :=
    fun n k => ((unbroken_toString n).append ⟨by decide, by decide⟩).append (unbroken_toString k)
  have hend : " @@\n".toList = " @@".toList ++ ['\n'] := by decide
  simp only [header, String.toList_append]
  rw [hend, ← List.append_assoc]
  refine ⟨_, ['\n'], rfl, ?_, .feed⟩
  have hfirst : Unbroken "@@ -".toList := ⟨by decide, by decide⟩
  have hsecond : Unbroken " +".toList := ⟨by decide, by decide⟩
  have hlast : Unbroken " @@".toList := ⟨by decide, by decide⟩
  exact (((hfirst.append (hspan _ _)).append hsecond).append (hspan _ _)).append hlast

theorem head?_header (h : Hunk) : h.header.head? = some '@' := by
  have hfirst : "@@ -".toList = '@' :: "@ -".toList := by decide
  simp only [header, String.toList_append, hfirst, List.cons_append, List.head?_cons]

end Hunk

/-- The lines that come out of the lines from `i` on: the old lines of each hunk are replaced by its
new ones, all others are copied. -/
def patchFrom : Nat → List Text → List Hunk → List Text
  | _, old, [] => old
  | i, old, h :: hs =>
    old.take (h.oldBefore - i) ++ h.newLines ++
      patchFrom (h.oldBefore + h.oldLines.length)
        (old.drop (h.oldBefore - i + h.oldLines.length)) hs

def patch (old : List Text) (hs : List Hunk) : List Text := patchFrom 0 old hs

/-! ## From the old lines to the new ones -/

/-- Hunks lead from the old lines to the new ones, in front of which there are `i` and `j` lines: in
front of a hunk both have the same lines, and the hunk shows what goes and what comes. -/
inductive Turns : Nat → Nat → List Text → List Text → List Hunk → Prop where
  /-- no hunk is left, and the lines are the same -/
  | rest (i j : Nat) (lines : List Text) : Turns i j lines lines []
  /-- some lines are the same, and a hunk comes next -/
  | hunk {i j : Nat} {old new : List Text} {hs : List Hunk} (gap gone come : List Text) (h : Hunk) :
    h.oldBefore = i + gap.length → h.newBefore = j + gap.length →
    h.oldLines = gone.map closed → h.newLines = come.map closed →
    Turns (h.oldBefore + gone.length) (h.newBefore + come.length) old new hs →
    Turns i j (gap ++ (gone ++ old)) (gap ++ (come ++ new)) (h :: hs)

theorem patchFrom_cons {i : Nat} {gap gone old : List Text} {h : Hunk} {hs : List Hunk}
    (hold : h.oldBefore = i + gap.length) (hgone : h.oldLines = gone.map closed) :
    patchFrom i (gap ++ (gone ++ old)) (h :: hs)
      = gap ++ (h.newLines ++ patchFrom (h.oldBefore + gone.length) old hs) := by
  have hgap : h.oldBefore - i = gap.length := by omega
  have hlength : h.oldLines.length = gone.length := by rw [hgone, List.length_map]
  rw [patchFrom, hgap, hlength, List.take_left, List.drop_length_add_append, List.drop_left,
    List.append_assoc]

namespace Turns

variable {i j : Nat} {old new : List Text} {hs : List Hunk}

/-- Without hunks there is no difference. -/
theorem eq_of_nil (h : Turns i j old new []) : old = new := by
  cases h
  rfl

/-- Equal lines in front are copied. -/
theorem skip (gap : List Text) (h : Turns (i + gap.length) (j + gap.length) old new hs) :
    Turns i j (gap ++ old) (gap ++ new) hs := by
  cases h with
  | rest => exact .rest i j _
  | hunk more gone come h hold hnew hgone hcome hrest =>
    rw [← List.append_assoc gap more, ← List.append_assoc gap more]
    refine .hunk (gap ++ more) gone come h ?_ ?_ hgone hcome hrest
    · rw [hold, List.length_append, Nat.add_assoc]
    · rw [hnew, List.length_append, Nat.add_assoc]

theorem le_before (h : Turns i j old new hs) :
    ∀ next ∈ hs, i ≤ next.oldBefore ∧ j ≤ next.newBefore := by
  induction h with
  | rest => exact fun _ hmem => absurd hmem List.not_mem_nil
  | hunk gap gone come h hold hnew _ _ _ ih =>
    rw [List.forall_mem_cons]
    refine ⟨⟨by omega, by omega⟩, fun next hmem => ?_⟩
    have := ih next hmem
    omega

/-- The hunks are in order, and no line is in two of them. -/
theorem pairwise_precedes (h : Turns i j old new hs) : hs.Pairwise Hunk.Precedes := by
  induction h with
  | rest => exact .nil
  | hunk gap gone come h _ _ hgone hcome hrest ih =>
    refine .cons (fun next hmem => ?_) ih
    rw [Hunk.Precedes, hgone, hcome, List.length_map, List.length_map]
    exact hrest.le_before next hmem

/-- A hunk shows the lines at its place in each text. -/
theorem lines_eq (h : Turns i j old new hs) :
    ∀ shown ∈ hs,
      shown.oldLines = ((old.drop (shown.oldBefore - i)).take shown.oldLines.length).map closed ∧
      shown.newLines = ((new.drop (shown.newBefore - j)).take shown.newLines.length).map closed := by
  induction h with
  | rest => exact fun _ hmem => absurd hmem List.not_mem_nil
  | @hunk i j old new hs gap gone come h hold hnew hgone hcome hrest ih =>
    rw [List.forall_mem_cons]
    constructor
    · have hi : h.oldBefore - i = gap.length := by omega
      have hj : h.newBefore - j = gap.length := by omega
      rw [hi, hj, List.drop_left, List.drop_left, hgone, hcome, List.length_map, List.length_map,
        List.take_left, List.take_left]
      exact ⟨rfl, rfl⟩
    · intro shown hmem
      obtain ⟨hi, hj⟩ := hrest.le_before shown hmem
      -- what stands behind the first hunk is looked up from there
      have hdrop : ∀ (part rest : List Text) (n k : Nat), n = gap.length + (part.length + k) →
          (gap ++ (part ++ rest)).drop n = rest.drop k := by
        intro part rest n k hn
        rw [hn, List.drop_length_add_append, List.drop_length_add_append]
      rw [hdrop gone old (shown.oldBefore - i) (shown.oldBefore - (h.oldBefore + gone.length))
          (by omega),
        hdrop come new (shown.newBefore - j) (shown.newBefore - (h.newBefore + come.length))
          (by omega)]
      exact ih shown hmem

/-- The patch leads to the new lines; those that the hunks show have an end. -/
theorem forall₂_shows (h : Turns i j old new hs) :
    List.Forall₂ Shows new (patchFrom i old hs) := by
  have hsame : ∀ lines : List Text, List.Forall₂ Shows lines lines :=
    fun lines => List.forall₂_same.mpr fun _ _ => .inl rfl
  have hclosed : ∀ lines : List Text, List.Forall₂ Shows lines (lines.map closed) :=
    fun lines => List.forall₂_map_right_iff.mpr (List.forall₂_same.mpr fun _ _ => .inr rfl)
  induction h with
  | rest => exact hsame _
  | hunk gap gone come h hold hnew hgone hcome _ ih =>
    rw [patchFrom_cons hold hgone, hcome]
    exact List.rel_append (hsame gap) (List.rel_append (hclosed come) ih)

/-- In front of a hunk stand as many new lines as the old lines there are turned into. -/
theorem length_patchFrom (h : Turns i j old new hs) :
    ∀ front shown back, hs = front ++ shown :: back →
      (patchFrom i (old.take (shown.oldBefore - i)) front).length = shown.newBefore - j := by
  induction h with
  | rest => exact fun front shown back hsplit => by simp at hsplit
  | @hunk i j old new hs gap gone come h hold hnew hgone hcome hrest ih =>
    intro front shown back hsplit
    -- either the first hunk is the one that is asked about, or it is one of those in front
    cases front with
    | nil =>
      obtain ⟨rfl, -⟩ := List.cons.inj hsplit
      have hi : h.oldBefore - i = gap.length := by omega
      rw [hi, List.take_left, patchFrom]
      omega
    | cons first front =>
      obtain ⟨rfl, hback⟩ := List.cons.inj hsplit
      obtain ⟨hi, hj⟩ := hrest.le_before shown (by rw [hback]; simp)
      have htake : (gap ++ (gone ++ old)).take (shown.oldBefore - i)
          = gap ++ (gone ++ old.take (shown.oldBefore - (h.oldBefore + gone.length))) := by
        have hn : shown.oldBefore - i
            = gap.length + (gone.length + (shown.oldBefore - (h.oldBefore + gone.length))) := by
          omega
        rw [hn, List.take_length_add_append, List.take_length_add_append]
      rw [htake, patchFrom_cons hold hgone, List.length_append, List.length_append, hcome,
        List.length_map, ih front shown back hback]
      omega

/-- A hunk is about lines that are there. -/
theorem oldLines_le (h : Turns i j old new hs) :
    ∀ shown ∈ hs, shown.oldBefore + shown.oldLines.length ≤ i + old.length := by
  induction h with
  | rest => exact fun _ hmem => absurd hmem List.not_mem_nil
  | hunk gap gone come h hold _ hgone _ _ ih =>
    simp only [List.length_append]
    rw [List.forall_mem_cons, hgone, List.length_map]
    refine ⟨by omega, fun shown hmem => ?_⟩
    have := ih shown hmem
    omega

/-- The hunks are written line by line. -/
theorem fullLines_flatten (h : Turns i j old new hs) (hold : AreLines old) (hnew : AreLines new) :
    fullLines (hs.flatMap Hunk.lines).flatten = hs.flatMap Hunk.lines := by
  have hpart : ∀ {all part : List Text} {n k : Nat}, AreLines all →
      part = ((all.drop n).take k).map closed → ∀ line ∈ part, IsLine line := by
    rintro all part n k hall rfl line hmem
    obtain ⟨whole, hwhole, rfl⟩ := List.mem_map.mp hmem
    exact hall.isLine_closed whole (List.mem_of_mem_drop (List.mem_of_mem_take hwhole))
  refine Diff.fullLines_flatten fun line hline => ?_
  obtain ⟨hunk, hmem, hline⟩ := List.mem_flatMap.mp hline
  rcases List.mem_cons.mp hline with rfl | hline
  · exact ⟨hunk.isLine_header, by rw [hunk.head?_header]; decide⟩
  · obtain ⟨row, hrow, rfl⟩ := List.mem_map.mp hline
    obtain ⟨hgone, hcome⟩ := h.lines_eq hunk hmem
    obtain ⟨hfeed, hreturn⟩ := row.sign.char_ne
    have hrowLine : IsLine row.line :=
      (mem_oldOf_or_mem_newOf hrow).elim (hpart hold hgone _) (hpart hnew hcome _)
    exact ⟨hrowLine.cons hfeed hreturn, fun hhead => hfeed (Option.some.inj hhead)⟩

end Turns

/-! ## Patches -/

/-- Hunks are a patch that leads from some lines to others. -/
structure IsPatch (old new : List Text) (hs : List Hunk) : Prop where
  /-- they are in order and have no line in common -/
  ordered : hs.Pairwise Hunk.Precedes
  /-- a hunk shows the lines at its place in both texts -/
  shown : ∀ hunk ∈ hs,
    hunk.oldLines = ((old.drop hunk.oldBefore).take hunk.oldLines.length).map closed ∧
    hunk.newLines = ((new.drop hunk.newBefore).take hunk.newLines.length).map closed
  /-- a hunk says how many lines stand in front of it: those of the old text, and what the hunks
  before make of them -/
  before : ∀ front hunk back, hs = front ++ hunk :: back →
    hunk.oldBefore + hunk.oldLines.length ≤ old.length ∧
    (patch (old.take hunk.oldBefore) front).length = hunk.newBefore
  /-- the new lines come out, the last one perhaps with a line feed that it has not -/
  result : patch old hs = new ∨ patch old hs = new.map closed

theorem Turns.isPatch {old new : List Text} {hs : List Hunk} (h : Turns 0 0 old new hs)
    (hnew : AreLines new) : IsPatch old new hs where
  ordered := h.pairwise_precedes
  shown := h.lines_eq
  before := by
    rintro front hunk back rfl
    constructor
    · have hle := h.oldLines_le hunk (by simp)
      rwa [Nat.zero_add] at hle
    · exact h.length_patchFrom front hunk back rfl
  result := hnew.eq_or_eq_map_closed h.forall₂_shows

end Diff

end DocComments
