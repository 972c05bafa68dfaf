import DocComments.Proofs.Diff.Hunk
import DocComments.Proofs.Diff.Patch

/-!
# Diffs that are patches

Blocks align two lists of lines if they follow on each other and equal blocks stand for equal lines
(`Aligns`). The text of a diff is made of its blocks in three steps, and each of them keeps the
alignment: equal lines are cut off at both ends, what is left is split where many equal lines
separate changes, and each piece is written behind a header. So the hunks of an aligned diff turn
the old lines into the new ones (`exists_hunks`).
-/

set_option autoImplicit false

namespace DocComments

namespace Diff

/-- Behind a part of a list the rest of it goes on. -/
theorem drop_add_length {all part more : List Text} {n : Nat} (h : all.drop n = part ++ more) :
    all.drop (n + part.length) = more := by
  rw [← List.drop_drop, h, List.drop_left]

/-- Blocks align old lines and new ones, in front of which there are `i` and `j` lines. -/
inductive Aligns : Nat → Nat → List Text → List Text → List Block → Prop where
  /-- no lines are left -/
  | nil (i j : Nat) : Aligns i j [] [] []
  /-- the same lines come next in both texts -/
  | same {i j : Nat} {old new : List Text} {bs : List Block} (lines : List Text) :
    Aligns (i + lines.length) (j + lines.length) old new bs →
    Aligns i j (lines ++ old) (lines ++ new) (⟨.equal, i, lines.length, j, lines.length⟩ :: bs)
  /-- lines come next that are only in one of the texts -/
  | change {i j : Nat} {old new : List Text} {bs : List Block} {tag : Tag}
    (gone come : List Text) : tag ≠ .equal →
    Aligns (i + gone.length) (j + come.length) old new bs →
    Aligns i j (gone ++ old) (come ++ new) (⟨tag, i, gone.length, j, come.length⟩ :: bs)

namespace Aligns

variable {i j : Nat} {old new : List Text} {bs : List Block}

/-- The block of some equal lines. -/
theorem same_of {b : Block} {lines : List Text} {i' j' : Nat} (htag : b.tag = .equal)
    (hold : b.oldStart = i ∧ b.oldCount = lines.length)
    (hnew : b.newStart = j ∧ b.newCount = lines.length)
    (hi : i' = i + lines.length) (hj : j' = j + lines.length) (h : Aligns i' j' old new bs) :
    Aligns i j (lines ++ old) (lines ++ new) (b :: bs) := by
  subst hi hj
  obtain ⟨tag, oldStart, oldCount, newStart, newCount⟩ := b
  obtain ⟨rfl, rfl⟩ := hold
  obtain ⟨rfl, rfl⟩ := hnew
  obtain rfl : tag = .equal := htag
  exact .same lines h

theorem one_of {b : Block} {lines : List Text} (htag : b.tag = .equal)
    (hold : b.oldStart = i ∧ b.oldCount = lines.length)
    (hnew : b.newStart = j ∧ b.newCount = lines.length) : Aligns i j lines lines [b] := by
  have h := same_of htag hold hnew rfl rfl (.nil _ _)
  rwa [List.append_nil] at h

/-- The first block is about the first lines. -/
theorem exists_first {b : Block} (h : Aligns i j old new (b :: bs)) :
    ∃ gone come old' new', old = gone ++ old' ∧ new = come ++ new' ∧ Aligns i j gone come [b] ∧
      Aligns (i + gone.length) (j + come.length) old' new' bs := by
  cases h with
  | same lines hrest =>
    exact ⟨lines, lines, _, _, rfl, rfl, one_of rfl ⟨rfl, rfl⟩ ⟨rfl, rfl⟩, hrest⟩
  | change gone come htag hrest =>
    refine ⟨gone, come, _, _, rfl, rfl, ?_, hrest⟩
    have hone := change gone come htag (.nil (i + gone.length) (j + come.length))
    rwa [List.append_nil, List.append_nil] at hone

theorem append {old' new' : List Text} {bs' : List Block} (h : Aligns i j old new bs)
    (h' : Aligns (i + old.length) (j + new.length) old' new' bs') :
    Aligns i j (old ++ old') (new ++ new') (bs ++ bs') := by
  induction h with
  | nil => exact h'
  | same lines _ ih =>
    rw [List.append_assoc, List.append_assoc]
    rw [List.length_append, List.length_append, ← Nat.add_assoc, ← Nat.add_assoc] at h'
    exact .same lines (ih h')
  | change gone come htag _ ih =>
    rw [List.append_assoc, List.append_assoc]
    rw [List.length_append, List.length_append, ← Nat.add_assoc, ← Nat.add_assoc] at h'
    exact .change gone come htag (ih h')

theorem start_eq (h : Aligns i j old new bs) {first : Block} (hfirst : bs.head? = some first) :
    first.oldStart = i ∧ first.newStart = j := by
  cases h with
  | nil => cases hfirst
  | same lines _ =>
    cases hfirst
    exact ⟨rfl, rfl⟩
  | change gone come _ _ =>
    cases hfirst
    exact ⟨rfl, rfl⟩

theorem stop_eq (h : Aligns i j old new bs) {last : Block} (hlast : bs.getLast? = some last) :
    last.oldStart + last.oldCount = i + old.length ∧
      last.newStart + last.newCount = j + new.length := by
  induction h with
  | nil => cases hlast
  | @same i j old new bs lines hrest ih =>
    rw [List.length_append, List.length_append, ← Nat.add_assoc, ← Nat.add_assoc]
    cases hrest with
    | nil =>
      cases hlast
      exact ⟨rfl, rfl⟩
    | same => exact ih hlast
    | change => exact ih hlast
  | @change i j old new bs tag gone come htag hrest ih =>
    rw [List.length_append, List.length_append, ← Nat.add_assoc, ← Nat.add_assoc]
    cases hrest with
    | nil =>
      cases hlast
      exact ⟨rfl, rfl⟩
    | same => exact ih hlast
    | change => exact ih hlast

/-! ## Cutting equal lines off -/

/-- Equal lines in front are cut off in both texts. -/
theorem trimFirst (h : Aligns i j old new bs) :
    ∃ gap old' new', old = gap ++ old' ∧ new = gap ++ new' ∧
      Aligns (i + gap.length) (j + gap.length) old' new' (trimFirst bs) := by
  cases h with
  | nil => exact ⟨[], [], [], rfl, rfl, .nil _ _⟩
  | @same _ _ old new bs lines hrest =>
    have hsplit : ∀ rest : List Text, lines ++ rest
        = lines.take (lines.length - context) ++ (lines.drop (lines.length - context) ++ rest) := by
      intro rest
      rw [← List.append_assoc, List.take_append_drop]
    have hcount : lines.length - (lines.length - context)
        = (lines.drop (lines.length - context)).length := List.length_drop.symm
    have hgap : lines.length - context = (lines.take (lines.length - context)).length := by
      rw [List.length_take]
      omega
    refine ⟨_, _, _, hsplit old, hsplit new, ?_⟩
    exact same_of rfl ⟨congrArg (i + ·) hgap, hcount⟩ ⟨congrArg (j + ·) hgap, hcount⟩ (by omega)
      (by omega) hrest
  | change gone come htag hrest =>
    refine ⟨[], _, _, rfl, rfl, ?_⟩
    rw [Diff.trimFirst, if_neg htag]
    exact .change gone come htag hrest

/-- Equal lines at the end are cut off in both texts. -/
theorem trimLast (h : Aligns i j old new bs) :
    ∃ old' new' rest, old = old' ++ rest ∧ new = new' ++ rest ∧
      Aligns i j old' new' (trimLast bs) := by
  induction h with
  | nil => exact ⟨[], [], [], rfl, rfl, .nil _ _⟩
  | @same i j old new bs lines hrest ih =>
    cases bs with
    | nil =>
      cases hrest
      have hsplit : lines ++ [] = lines.take context ++ lines.drop context := by
        rw [List.append_nil, List.take_append_drop]
      have hcount : lines.length - (lines.length - context) = (lines.take context).length := by
        rw [List.length_take]
        omega
      exact ⟨_, _, _, hsplit, hsplit, one_of rfl ⟨rfl, hcount⟩ ⟨rfl, hcount⟩⟩
    | cons b bs =>
      obtain ⟨old', new', rest, rfl, rfl, htrimmed⟩ := ih
      exact ⟨lines ++ old', lines ++ new', rest, (List.append_assoc _ _ _).symm,
        (List.append_assoc _ _ _).symm, .same lines htrimmed⟩
  | @change i j old new bs tag gone come htag hrest ih =>
    cases bs with
    | nil =>
      cases hrest
      refine ⟨gone ++ [], come ++ [], [], (List.append_nil _).symm, (List.append_nil _).symm, ?_⟩
      rw [Diff.trimLast, if_neg htag]
      exact .change gone come htag (.nil _ _)
    | cons b bs =>
      obtain ⟨old', new', rest, rfl, rfl, htrimmed⟩ := ih
      exact ⟨gone ++ old', come ++ new', rest, (List.append_assoc _ _ _).symm,
        (List.append_assoc _ _ _).symm, .change gone come htag htrimmed⟩

/-! ## Writing blocks -/

variable {oldLines newLines : Array Text} {gone come rest rest' : List Text}

/-- Blocks are written as rows: the lines that go, the lines that come, and those that stay. -/
theorem exists_rows (h : Aligns i j gone come bs) (hold : oldLines.toList.drop i = gone ++ rest)
    (hnew : newLines.toList.drop j = come ++ rest') :
    ∃ rows : List Row, bs.flatMap (blockText oldLines newLines) = rows.flatMap Row.text ∧
      oldOf rows = gone.map closed ∧ newOf rows = come.map closed := by
  have hwrite : ∀ {all : Array Text} {n : Nat} {part more : List Text} (sign : Sign),
      all.toList.drop n = part ++ more →
        signedLines sign.char all n part.length = (rowsOf sign part).flatMap Row.text := by
    intro all n part more sign hall
    rw [signedLines, hall, List.take_left, flatMap_signedLine]
  induction h with
  | nil => exact ⟨[], rfl, rfl, rfl⟩
  | @same i j gone come bs lines _ ih =>
    rw [List.append_assoc] at hold hnew
    obtain ⟨rows, htext, hgone, hcome⟩ := ih (drop_add_length hold) (drop_add_length hnew)
    refine ⟨rowsOf .kept lines ++ rows, ?_, ?_, ?_⟩
    · rw [List.flatMap_cons, List.flatMap_append, htext, blockText, if_pos rfl]
      exact congrArg (· ++ _) (hwrite .kept hold)
    · simp [hgone]
    · simp [hcome]
  | @change i j old new bs tag gone come htag _ ih =>
    rw [List.append_assoc] at hold hnew
    obtain ⟨rows, htext, hgone, hcome⟩ := ih (drop_add_length hold) (drop_add_length hnew)
    refine ⟨rowsOf .gone gone ++ (rowsOf .come come ++ rows), ?_, ?_, ?_⟩
    · rw [List.flatMap_cons, List.flatMap_append, List.flatMap_append, htext, blockText,
        if_neg htag, List.append_assoc]
      exact congrArg₂ (· ++ ·) (hwrite .gone hold) (congrArg (· ++ _) (hwrite .come hnew))
    · simp [hgone]
    · simp [hcome]

/-- The blocks of a hunk are written as the hunk. -/
theorem exists_hunk (h : Aligns i j gone come bs) (hne : bs ≠ [])
    (hold : oldLines.toList.drop i = gone ++ rest)
    (hnew : newLines.toList.drop j = come ++ rest') :
    ∃ hunk : Hunk, hunkText? oldLines newLines bs = some hunk.lines.flatten ∧
      hunk.oldBefore = i ∧ hunk.newBefore = j ∧
      hunk.oldLines = gone.map closed ∧ hunk.newLines = come.map closed := by
  obtain ⟨rows, htext, hgone, hcome⟩ := h.exists_rows hold hnew
  refine ⟨⟨i, j, rows⟩, ?_, rfl, rfl, hgone, hcome⟩
  obtain ⟨first, hfirst⟩ := Option.isSome_iff_exists.mp (List.isSome_head?.mpr hne)
  obtain ⟨last, hlast⟩ := Option.isSome_iff_exists.mp (List.getLast?_isSome.mpr hne)
  obtain ⟨hi, hj⟩ := h.start_eq hfirst
  obtain ⟨hstop, hstop'⟩ := h.stop_eq hlast
  have hspan : ∀ n k : Nat, span? n (n + k) = some (toString (n + 1) ++ "," ++ toString k) := by
    intro n k
    rw [span?, if_pos (Nat.le_add_right n k), Nat.add_sub_cancel_left]
  have hlines : Hunk.oldLines ⟨i, j, rows⟩ = gone.map closed := hgone
  have hlines' : Hunk.newLines ⟨i, j, rows⟩ = come.map closed := hcome
  simp only [hunkText?, hfirst, hlast, header?, hi, hj, hstop, hstop', hspan, htext]
  simp only [Hunk.lines, Hunk.header, hlines, hlines', List.length_map, List.flatten_cons,
    List.flatMap_def]
  rfl

end Aligns

def Writes (old new : Array Text) (group : List Block) (hunk : Hunk) : Prop :=
  hunkText? old new group = some hunk.lines.flatten

section Hunks

variable {oldLines newLines : Array Text} {i j : Nat} {gone come old new rest : List Text}
  {current bs : List Block}

/-- Many lines have a beginning and an end. -/
theorem exists_ends {lines : List Text} {n : Nat} (h : 2 * n ≤ lines.length) :
    ∃ front middle back, lines = front ++ (middle ++ back) ∧
      front.length = n ∧ back.length = n := by
  refine ⟨lines.take n, (lines.drop n).take (lines.length - 2 * n),
    (lines.drop n).drop (lines.length - 2 * n), ?_, ?_, ?_⟩
  · rw [List.take_append_drop, List.take_append_drop]
  · rw [List.length_take]
    omega
  · rw [List.length_drop, List.length_drop]
    omega

/-- A hunk comes in front of those for the lines behind it. -/
theorem exists_hunks_cons {groups : List (List Block)} {hs : List Hunk}
    (hcurrent : Aligns i j gone come current) (hne : current ≠ [])
    (hold : oldLines.toList.drop i = gone ++ old) (hnew : newLines.toList.drop j = come ++ new)
    (hwrites : List.Forall₂ (Writes oldLines newLines) groups hs)
    (hturns : Turns (i + gone.length) (j + come.length) old new hs) :
    ∃ hs, List.Forall₂ (Writes oldLines newLines) (current :: groups) hs ∧
      Turns i j (gone ++ old) (come ++ new) hs := by
  obtain ⟨hunk, hwrite, rfl, rfl, hgone, hcome⟩ := hcurrent.exists_hunk hne hold hnew
  exact ⟨hunk :: hs, .cons hwrite hwrites, .hunk [] gone come hunk rfl rfl hgone hcome hturns⟩

/-- A hunk that is read so far ends behind some equal lines, and those behind them are in no
hunk. -/
theorem exists_hunks_gap {front middle : List Text} {groups : List (List Block)} {hs : List Hunk}
    (hcurrent : Aligns i j gone come current) (hfront : front.length = context)
    (hold : oldLines.toList.drop i = (gone ++ front) ++ (middle ++ old))
    (hnew : newLines.toList.drop j = (come ++ front) ++ (middle ++ new))
    (hwrites : List.Forall₂ (Writes oldLines newLines) groups hs)
    (hturns : Turns (i + (gone ++ front).length + middle.length)
      (j + (come ++ front).length + middle.length) old new hs) :
    ∃ hs, List.Forall₂ (Writes oldLines newLines)
        ((current ++ [⟨.equal, i + gone.length, context, j + come.length, context⟩]) :: groups) hs ∧
      Turns i j ((gone ++ front) ++ (middle ++ old)) ((come ++ front) ++ (middle ++ new)) hs := by
  have hhead : Aligns (i + gone.length) (j + come.length) front front
      [⟨.equal, i + gone.length, context, j + come.length, context⟩] :=
    Aligns.one_of rfl ⟨rfl, hfront.symm⟩ ⟨rfl, hfront.symm⟩
  exact exists_hunks_cons (hcurrent.append hhead) (by simp) hold hnew hwrites (hturns.skip middle)

/-- The last hunk; equal lines alone are in none. -/
theorem exists_hunks_hunkOf (hcurrent : Aligns i j gone come current)
    (hold : oldLines.toList.drop i = gone ++ rest)
    (hnew : newLines.toList.drop j = come ++ rest) :
    ∃ hs, List.Forall₂ (Writes oldLines newLines) (hunkOf current) hs ∧
      Turns i j (gone ++ rest) (come ++ rest) hs := by
  have hone : current ≠ [] → ∃ hs, List.Forall₂ (Writes oldLines newLines) [current] hs ∧
      Turns i j (gone ++ rest) (come ++ rest) hs :=
    fun hne => exists_hunks_cons hcurrent hne hold hnew .nil (.rest _ _ rest)
  unfold hunkOf
  split
  · cases hcurrent
    exact ⟨[], .nil, .rest i j rest⟩
  · next b =>
    split
    · next htag =>
      cases hcurrent with
      | same lines hnil =>
        cases hnil
        exact ⟨[], .nil, .rest i j _⟩
      | change _ _ hother _ => exact absurd htag hother
    · exact hone (List.cons_ne_nil _ _)
  · next hempty _ => exact hone hempty

/-- Where many equal lines separate changes a hunk ends and the next one begins, and the lines
between them are in no hunk. -/
theorem exists_hunks_splitHunks (hcurrent : Aligns i j gone come current)
    (hbs : Aligns (i + gone.length) (j + come.length) old new bs)
    (hold : oldLines.toList.drop i = gone ++ (old ++ rest))
    (hnew : newLines.toList.drop j = come ++ (new ++ rest)) :
    ∃ hs, List.Forall₂ (Writes oldLines newLines) (splitHunks current bs) hs ∧
      Turns i j (gone ++ (old ++ rest)) (come ++ (new ++ rest)) hs := by
  -- the blocks of `current` are those that the hunk has so far
  induction bs generalizing current i j gone come old new with
  | nil =>
    cases hbs
    exact exists_hunks_hunkOf hcurrent hold hnew
  | cons b bs ih =>
    unfold splitHunks
    split
    · next hlong =>
      cases hbs with
      | change _ _ hother _ => exact absurd hlong.1 hother
      | @same _ _ old new _ lines hmore =>
        obtain ⟨front, middle, back, rfl, hfront, hback⟩ := exists_ends (Nat.le_of_lt hlong.2)
        have hlines : ∀ part more : List Text, part ++ ((front ++ (middle ++ back)) ++ more ++ rest)
            = (part ++ front) ++ (middle ++ (back ++ (more ++ rest))) := by simp
        have hindex : ∀ (n : Nat) (part : List Text),
            n + part.length + ((front ++ (middle ++ back)).length - context)
                = n + (part ++ front).length + middle.length ∧
              n + part.length + (front ++ (middle ++ back)).length
                = n + (part ++ front).length + middle.length + back.length := by
          intro n part
          simp only [List.length_append]
          omega
        rw [hlines] at hold hnew ⊢
        rw [hlines]
        rw [(hindex i gone).2, (hindex j come).2] at hmore
        dsimp only [Block.down]
        rw [(hindex i gone).1, (hindex j come).1]
        -- the hunk ends behind `front`, and the next one begins with `back`
        have hstart : Aligns (i + (gone ++ front).length + middle.length)
            (j + (come ++ front).length + middle.length) back back
            [⟨.equal, i + (gone ++ front).length + middle.length, context,
              j + (come ++ front).length + middle.length, context⟩] :=
          Aligns.one_of rfl ⟨rfl, hback.symm⟩ ⟨rfl, hback.symm⟩
        obtain ⟨hs, hwrites, hturns⟩ := ih hstart hmore
          (drop_add_length (drop_add_length hold)) (drop_add_length (drop_add_length hnew))
        exact exists_hunks_gap hcurrent hfront hold hnew hwrites hturns
    · obtain ⟨gone', come', old', new', rfl, rfl, hb, hmore⟩ := hbs.exists_first
      have hassoc : ∀ front lines back : List Text,
          (front ++ lines) ++ (back ++ rest) = front ++ ((lines ++ back) ++ rest) := by simp
      rw [Nat.add_assoc, Nat.add_assoc, ← List.length_append, ← List.length_append] at hmore
      have hnext := ih (hcurrent.append hb) hmore (hold.trans (hassoc gone gone' old').symm)
        (hnew.trans (hassoc come come' new').symm)
      rwa [hassoc, hassoc] at hnext

/-- The hunks of aligned blocks turn the old lines into the new ones. -/
theorem exists_hunks (h : Aligns 0 0 oldLines.toList newLines.toList bs) :
    ∃ hs, List.Forall₂ (Writes oldLines newLines) (hunks bs) hs ∧
      Turns 0 0 oldLines.toList newLines.toList hs := by
  obtain ⟨gap, old', new', hold, hnew, htrimmed⟩ := h.trimFirst
  obtain ⟨old, new, rest, rfl, rfl, hblocks⟩ := htrimmed.trimLast
  obtain ⟨hs, hwrites, hturns⟩ := exists_hunks_splitHunks (.nil _ _) hblocks
    (drop_add_length hold) (drop_add_length hnew)
  refine ⟨hs, hwrites, ?_⟩
  rw [hold, hnew]
  exact Turns.skip gap hturns

end Hunks

/-- A list is mapped to something if all its members are. -/
theorem mapM_eq_some {α β γ : Type} {f : α → Option β} {g : γ → β} {l : List α} {cs : List γ}
    (h : List.Forall₂ (fun a c => f a = some (g c)) l cs) : l.mapM f = some (cs.map g) := by
  induction h with
  | nil => rfl
  | cons hfirst _ ih => simp [hfirst, ih]

/-- The unified diff of two texts whose blocks align their lines is there, and it is empty exactly
if the texts are equal. Read line by line it is made of hunks, each a header and rows: they are in
order and have no line in common, the header says where the hunk stands and how many lines of each
text it shows, these are the lines that stand there, and if the old lines of each hunk are replaced
by its new ones, the lines of the second text come out of those of the first. -/
theorem unified_is_patch {before after : Text}
    (h : Aligns 0 0 (fullLines before) (fullLines after)
      (blocks (fullLines before).toArray (fullLines after).toArray)) :
    ∃ diff hs, unified? before after = some diff ∧ (diff = [] ↔ before = after) ∧
      fullLines diff = hs.flatMap Hunk.lines ∧
      IsPatch (fullLines before) (fullLines after) hs := by
  have hlines : Aligns 0 0 (fullLines before).toArray.toList (fullLines after).toArray.toList
      (blocks (fullLines before).toArray (fullLines after).toArray) := h
  obtain ⟨hs, hwrites, hturns⟩ := exists_hunks hlines
  have hdiff : unified? before after = some (hs.flatMap Hunk.lines).flatten := by
    simp only [unified?, mapM_eq_some hwrites, Option.map_some]
    rw [List.flatMap_def, List.flatten_flatten, List.map_map]
    rfl
  refine ⟨_, hs, hdiff, ⟨fun hnil => ?_, fun heq => ?_⟩,
    hturns.fullLines_flatten (areLines_fullLines before) (areLines_fullLines after),
    hturns.isPatch (areLines_fullLines after)⟩
  · cases hs with
    | nil =>
      have hlines := congrArg List.flatten hturns.eq_of_nil
      rwa [flatten_fullLines, flatten_fullLines] at hlines
    | cons hunk hs =>
      have hheader := hunk.head?_header
      rw [List.flatMap_cons, Hunk.lines, List.cons_append, List.flatten_cons,
        List.append_eq_nil_iff] at hnil
      rw [hnil.1] at hheader
      cases hheader
  · rw [heq, unified?_self] at hdiff
    exact (Option.some.inj hdiff).symm

example : unified? "a\nb".toList "a\nb\nc".toList
    = some "@@ -1,2 +1,3 @@\n a\n-b\n+b\n+c\n".toList := by cbv

/-- A line comes at the end, behind one that had no line break. -/
theorem unified_is_patch_of_line_at_end :
    Aligns 0 0 (fullLines "a\nb".toList) (fullLines "a\nb\nc".toList)
      (blocks (fullLines "a\nb".toList).toArray (fullLines "a\nb\nc".toList).toArray) ∧
    ∃ diff hs, unified? "a\nb".toList "a\nb\nc".toList = some diff ∧ diff ≠ [] ∧
      fullLines diff = hs.flatMap Hunk.lines ∧
      IsPatch (fullLines "a\nb".toList) (fullLines "a\nb\nc".toList) hs := by
  have hblocks : blocks (fullLines "a\nb".toList).toArray (fullLines "a\nb\nc".toList).toArray
      = [⟨.equal, 0, 1, 0, 1⟩, ⟨.replace, 1, 1, 1, 2⟩] := by cbv
  have hchange : Aligns 1 1 ["b".toList] ["b\n".toList, "c".toList] [⟨.replace, 1, 1, 1, 2⟩] :=
    .change ["b".toList] ["b\n".toList, "c".toList] (by decide) (.nil 2 3)
  have halign : Aligns 0 0 (fullLines "a\nb".toList) (fullLines "a\nb\nc".toList)
      (blocks (fullLines "a\nb".toList).toArray (fullLines "a\nb\nc".toList).toArray) := by
    rw [hblocks]
    exact .same ["a\n".toList] hchange
  obtain ⟨diff, hs, hdiff, hempty, hlines, hpatch⟩ := unified_is_patch halign
  exact ⟨halign, diff, hs, hdiff, fun hnil => absurd (hempty.mp hnil) (by decide), hlines, hpatch⟩

end Diff

end DocComments
