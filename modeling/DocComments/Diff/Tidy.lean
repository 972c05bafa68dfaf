import DocComments.Diff.Script

/-!
# Tidying edit scripts

A deletion or an insertion can often be moved past equal lines without a change of its meaning.
Every change is moved up as far as it goes and then down as far as it goes, so that changes meet
and join. Afterwards a deletion and an insertion between the same equal lines become one
replacement.
-/

set_option autoImplicit false

namespace DocComments

namespace Diff

/-! ## Moving a change -/

/-- A bound on the moves past the blocks in a direction. -/
def weight (blocks : List Block) : Nat := (blocks.map fun b => b.oldCount + 1).foldr (· + ·) 0

/-- The blocks behind a change that has moved up past `s` lines: these lines join the equal block
behind it. -/
def giveDown (s : Nat) (p change : Block) (after : List Block) : List Block :=
  match after with
  | q :: rest =>
    if q.tag = .equal then (q.up s).grow s :: rest
    else ⟨.equal, p.oldStart + p.oldCount - s, s, change.newStart + change.newCount - s, s⟩ :: after
  | [] => [⟨.equal, p.oldStart + p.oldCount - s, s, change.newStart + change.newCount - s, s⟩]

/-- The blocks in front of a change, the nearest first, after it has moved down past `s` lines:
these lines join the equal block in front of it. -/
def giveUp (s : Nat) (q change : Block) (before : List Block) : List Block :=
  match before with
  | p :: rest =>
    if p.tag = .equal then p.grow s :: rest
    else ⟨.equal, q.oldStart, s, change.newStart, s⟩ :: before
  | [] => [⟨.equal, q.oldStart, s, change.newStart, s⟩]

/-- A change among the blocks in front of it, the nearest first, and the blocks behind it. -/
structure Spot where
  before : List Block
  change : Block
  after : List Block

/-- Moves a change up: past equal lines that it repeats, past changes of the other kind, and into
changes of its own kind. -/
def slideUp (old new : Array Text) (before : List Block) (change : Block) (after : List Block) :
    Spot :=
  match before with
  | [] => ⟨[], change, after⟩
  | p :: rest =>
    if p.tag = .equal then
      -- only an insertion can repeat lines in front of it: a deletion has no new lines
      let s := commonBack old new (min p.oldCount change.newCount) (p.oldStart + p.oldCount)
        (change.newStart + change.newCount)
      if _h : 0 < s then
        let p' := p.shrink s
        if p'.isEmpty then slideUp old new rest (change.up s) (giveDown s p change after)
        else slideUp old new (p' :: rest) (change.up s) (giveDown s p change after)
      else if p.isEmpty then slideUp old new rest change after
      else ⟨before, change, after⟩
    else if change.tag ≠ p.tag then slideUp old new rest change (p :: after)
    else slideUp old new rest (p.grow change.size) after
termination_by weight before
decreasing_by
  · simp [weight]
  · have hs : s ≤ p.oldCount := Nat.le_trans (commonBack_le ..) (Nat.min_le_left ..)
    simp_all [weight, Block.shrink]; omega
  · simp [weight]
  · simp [weight]
  · simp [weight]

/-- Moves a change down: past equal lines that it repeats, past changes of the other kind, and
takes changes of its own kind in. -/
def slideDown (old new : Array Text) (before : List Block) (change : Block) (after : List Block) :
    Spot :=
  match after with
  | [] => ⟨before, change, []⟩
  | q :: rest =>
    if q.tag = .equal then
      let s := commonFront old new (min q.oldCount change.newCount) q.oldStart change.newStart
      if _h : 0 < s then
        -- the equal block loses its first lines, so that it starts further down
        let q' := (q.down s).shrink s
        if q'.isEmpty then slideDown old new (giveUp s q change before) (change.down s) rest
        else slideDown old new (giveUp s q change before) (change.down s) (q' :: rest)
      else if q.isEmpty then slideDown old new before change rest
      else ⟨before, change, after⟩
    else if change.tag ≠ q.tag then slideDown old new (q :: before) change rest
    else slideDown old new before (change.grow q.size) rest
termination_by weight after
decreasing_by
  · simp [weight]
  · have hs : s ≤ q.oldCount := Nat.le_trans (commonFront_le ..) (Nat.min_le_left ..)
    simp_all [weight, Block.shrink, Block.down]; omega
  · simp [weight]
  · simp [weight]
  · simp [weight]

/-- Moves every change of one kind, from the first block on. `before` are the blocks already
passed, the nearest first. -/
def slideEach (old new : Array Text) (tag : Tag) : Nat → List Block → List Block → List Block
  | 0, before, after => before.reverse ++ after
  | _ + 1, before, [] => before.reverse
  | fuel + 1, before, b :: after =>
    if b.tag = tag then
      let raised := slideUp old new before b after
      let settled := slideDown old new raised.before raised.change raised.after
      slideEach old new tag fuel (settled.change :: settled.before) settled.after
    else slideEach old new tag fuel (b :: before) after

/-- A bound on the number of blocks that are passed: every line can be a block of its own. -/
def passes (old new : Array Text) (blocks : List Block) : Nat :=
  2 * (old.size + new.size + blocks.length) + 2

def slideAll (old new : Array Text) (blocks : List Block) : List Block :=
  let blocks := slideEach old new .delete (passes old new blocks) [] blocks
  slideEach old new .insert (passes old new blocks) [] blocks

/-! ## Joining -/

def join? (read : Option Block) (b : Block) (n : Nat) : Block :=
  match read with
  | some first => first.grow n
  | none => b

def changeOf : Option Block → Option Block → List Block
  | some d, some i => [⟨.replace, d.oldStart, d.oldCount, i.newStart, i.newCount⟩]
  | some d, none => [d]
  | none, some i => [i]
  | none, none => []

/-- Joins neighbouring blocks. `same` are the equal lines read last, or `gone` and `come` the
deletion and the insertion read last. -/
def joinFrom (same gone come : Option Block) : List Block → List Block
  | [] => same.toList ++ changeOf gone come
  | b :: blocks =>
    match b.tag with
    | .equal => changeOf gone come ++ joinFrom (some (join? same b b.oldCount)) none none blocks
    | .delete => same.toList ++ joinFrom none (some (join? gone b b.oldCount)) come blocks
    | _ => same.toList ++ joinFrom none gone (some (join? come b b.newCount)) blocks

def blocks (old new : Array Text) : List Block :=
  joinFrom none none none (slideAll old new (script old new ⟨0, old.size, 0, new.size⟩))

end Diff

end DocComments
