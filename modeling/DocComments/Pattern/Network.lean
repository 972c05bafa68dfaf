import Std.Data.HashMap
import DocComments.Pattern.Normal
import DocComments.Pattern.Octets
import DocComments.Text.Utf8

/-!
# Networks

A pattern is run as two networks of states over octets: one for texts that are read from the front,
which remembers the matches of groups, and one for texts that are read from the back. Here their
sizes are taken without building them: the number of states, and the octets that states take for
their ways out. A pattern whose networks are too large is not valid (`Normal.fits`).

States for the same octets with the same ways out are shared as far as a table of slots remembers
them. The slot of a state depends on the numbers of the states that it leads to, which is why the
number of states is passed through everywhere.
-/

set_option autoImplicit false

namespace DocComments

namespace Pattern

/-- The end of a text from which it is read. -/
inductive Direction where
  | forward
  | backward
  deriving DecidableEq, Repr

structure Network where
  /-- the number of states -/
  states : Nat
  /-- the octets that states take for their ways out -/
  ways : Nat

namespace Network

/-! ## Growth -/

/-- The octets that every state takes. -/
def stateSize : Nat := 32

/-- The octets of a way out that depends on the next octet of the text. -/
def stepSize : Nat := 8

/-- The octets of a way out of a fork. -/
def forkSize : Nat := 4

def size (n : Network) : Nat := stateSize * n.states + n.ways

/-- The largest size of a network: ten mebibytes. -/
def limit : Nat := 10485760

/-- The network with more states and more octets for their ways out. -/
def plus (n : Network) (states ways : Nat) : Network := ⟨n.states + states, n.ways + ways⟩

/-- The network with more states and ways out, unless it gets too large. -/
def grow (n : Network) (states ways : Nat) : Option Network :=
  if (n.plus states ways).size ≤ limit then some (n.plus states ways) else none

theorem size_le_limit_of_grow {n m : Network} {states ways : Nat}
    (h : n.grow states ways = some m) : m.size ≤ limit := by
  unfold grow at h
  split at h
  · rename_i hle
    cases h
    exact hle
  · cases h

/-- The network with a way out of its last state. Only a fork takes more room for it. -/
def lead (n : Network) (isFork : Bool) : Option Network :=
  if isFork then n.grow 0 forkSize else some n

/-- What is laid out behind a network: whether the last state is a fork, and the larger network. -/
abbrev Layout := Network → Option (Bool × Network)

/-- A layout so many times in a row. `isFork` tells of the state in front. -/
def copies (layout : Layout) : Nat → Bool → Layout
  | 0, isFork, n => some (isFork, n)
  | k + 1, isFork, n =>
    match layout n with
    | none => none
    | some (next, n) =>
      match n.lead isFork with
      | none => none
      | some n => copies layout k next n

/-- A layout so many times at most, each time behind a fork that may leave it out. -/
def options (layout : Layout) : Nat → Bool → Layout
  | 0, isFork, n => some (isFork, n)
  | k + 1, isFork, n =>
    match (n.grow 1 (2 * forkSize)).bind layout with
    | none => none
    | some (next, n) =>
      match n.lead isFork with
      | none => none
      | some n => options layout k next n

/-! ## Slots -/

def hashSeed : UInt64 := 14695981039346656037

def hashWith (hash : UInt64) (n : Nat) : UInt64 := (hash ^^^ n.toUInt64) * 1099511628211

/-- The states that are remembered, each in its slot. -/
abbrev Slots (State : Type) := Std.HashMap Nat (State × Nat)

/-- A network and the states of it that may be shared. -/
structure Shared (State : Type) where
  network : Network
  slots : Slots State

/-- The number of a state, which is added unless its slot remembers it. -/
def Shared.add {State : Type} [BEq State] (s : Shared State) (state : State) (slot ways : Nat) :
    Option (Nat × Shared State) :=
  match s.slots[slot]?.filter fun (known, _) => known == state with
  | some (_, number) => some (number, s)
  | none =>
    (s.network.grow 1 ways).map fun n =>
      (s.network.states, ⟨n, s.slots.insert slot (state, s.network.states)⟩)

/-! ## Classes -/

/-- The ways out of a state: the octets, and the number of the next state. -/
abbrev Steps := List (OctetRange × Nat)

/-- The slot of a state, out of ten thousand. -/
def slotOfSteps (steps : Steps) : Nat :=
  let hash := steps.foldl (fun hash ((first, last), next) =>
    hashWith (hashWith (hashWith hash first) last) next) hashSeed
  hash.toNat % 10000

/-- Sequences in groups with a common first range: the range, and the rests of the sequences. -/
def heads (sequences : List OctetSequence) : List (OctetRange × List OctetSequence) :=
  (sequences.splitBy fun a b => a.head? == b.head?).filterMap fun group =>
    (group.head?.bind List.head?).map fun range => (range, group.map List.tail)

/-- The state that some sequences begin with, of at most so many ranges each. They lead to the state
`last`, and what follows equal ranges is laid out before the state itself. -/
def layOctets (last : Nat) : Nat → List OctetSequence → Shared Steps → Option (Nat × Shared Steps)
  | 0, _, s => some (last, s)
  | more + 1, sequences, s =>
    if sequences == [[]] then some (last, s)
    else do
      -- states behind come first, so that equal ones in different places are found equal
      let (steps, s) ← (heads sequences).foldlM
        (fun (steps, s) (range, rests) => do
          let (next, s) ← layOctets last more rests s
          return ((range, next) :: steps, s))
        (([] : Steps), s)
      let steps := steps.reverse
      s.add steps (slotOfSteps steps) (stepSize * steps.length)

/-- The states of a sequence that is read from the back, behind the state `last`. -/
def layBack (last : Nat) (sequence : OctetSequence) (s : Shared (Nat × OctetRange)) :
    Option (Nat × Shared (Nat × OctetRange)) :=
  sequence.foldlM
    (fun (next, s) range =>
      let hash := hashWith (hashWith (hashWith hashSeed next) range.1) range.2
      s.add (next, range) (hash.toNat % 1000) 0)
    (last, s)

def layClass (d : Direction) (ranges : Ranges) (n : Network) : Option Network :=
  if ranges.isAscii then n.grow 2 (stepSize * ranges.length)
  else
    match d with
    | .forward => do
      let exit := n.states
      let n ← n.grow 1 0
      let (_, s) ← layOctets exit 4 ranges.sequences ⟨n, ∅⟩
      return s.network
    | .backward => do
      let exit := n.states + 1
      let n ← n.grow 2 0
      let s ← ranges.sequences.foldlM
        (fun (s : Shared (Nat × OctetRange)) sequence => do
          let (_, s) ← layBack exit sequence s
          return { s with network := ← s.network.lead true })
        ⟨n, ∅⟩
      return s.network

/-! ## Words -/

/-- The octets of a word in the order in which they are read. -/
def octetsIn (d : Direction) (word : Text) : List UInt8 :=
  let octets := (Utf8.encode word).data.toList
  match d with
  | .forward => octets
  | .backward => octets.reverse

/-- The states of a tree of words, of which none has `depth` octets. A word that ends at a state
divides the octets behind it: those of earlier words come first. -/
def tree : Nat → List (List UInt8) → Network
  | 0, _ => ⟨0, 0⟩
  | _ + 1, [word] => ⟨2 * word.length, forkSize * word.length⟩
  | depth + 1, words =>
    let behind := words.dropWhile List.isEmpty
    let ends := (words.head?.any List.isEmpty).toNat + behind.countP List.isEmpty
    let parts := (behind.splitBy fun a b => a.isEmpty == b.isEmpty).filter fun part =>
      !part.any List.isEmpty
    let below := parts.map fun part =>
      let firsts := (part.filterMap List.head?).eraseDups
      let trees := firsts.map fun first =>
        tree depth ((part.filter fun word => word.head? == some first).map List.tail)
      (⟨(trees.map states).sum + 1,
        (trees.map ways).sum + if firsts.length < 2 then 0 else stepSize * firsts.length⟩ : Network)
    if behind.isEmpty then ⟨0, 0⟩
    else ⟨(below.map states).sum + 1, (below.map ways).sum + forkSize * (ends + parts.length)⟩

def layWords (d : Direction) (words : List Text) (n : Network) : Option Network :=
  let words := words.map (octetsIn d)
  let depth := (words.map List.length).foldl max 0
  let all := tree (depth + 1) words
  n.grow (all.states + 1) all.ways

end Network

namespace Normal

open Network

/-! ## Layout -/

def literal? : Normal → Option Text
  | literal t => some t
  | _ => none

mutual

def lay (d : Direction) : Normal → Layout
  | empty, n => (n.grow 1 0).map (false, ·)
  | literal t, n => (n.grow (octetsOf t) 0).map (false, ·)
  | cls ranges, n => (layClass d ranges n).map (false, ·)
  | here _, n => (n.grow 1 0).map (false, ·)
  | repeated e 0 (some 1) _, n => do
    -- a fork leads through the form or around it, and both ways meet in the state behind
    let (isFork, n) ← lay d e (← n.grow 1 (2 * forkSize))
    return (false, ← (← n.lead isFork).grow 1 0)
  | repeated e 0 none _, n =>
    if e.shortest.any (0 < ·) then do
      -- the form leads back to the fork in front of it
      let (isFork, n) ← lay d e (← n.grow 1 forkSize)
      return (true, ← n.lead isFork)
    else do
      -- what may match nothing is taken once or more, or not at all
      let (isFork, n) ← lay d e n
      return (false, ← (← n.lead isFork).grow 3 (4 * forkSize))
  | repeated e (least + 1) none _, n => do
    -- the fork behind the last copy leads back to it
    let (isFork, n) ← copies (lay d e) (least + 1) false n
    return (true, ← (← n.lead isFork).grow 1 forkSize)
  | repeated e 0 (some most) _, n => do
    let (isFork, n) ← options (lay d e) most false (← n.grow 2 0)
    return (false, ← n.lead isFork)
  | repeated e (least + 1) (some most) _, n => do
    let (isFork, n) ← copies (lay d e) (least + 1) false n
    if most = least + 1 then return (isFork, n)
    else do
      let (isFork, n) ← options (lay d e) (most - (least + 1)) isFork (← n.grow 1 0)
      return (false, ← n.lead isFork)
  | group e, n =>
    match d with
    | .backward => lay d e n
    | .forward => do
      let (isFork, n) ← lay d e (← n.grow 1 0)
      return (false, ← (← n.lead isFork).grow 1 0)
  | concat es, n => layTogether d es false n
  | either es, n =>
    match es.mapM literal? with
    | some words => (layWords d words n).map (false, ·)
    | none => (layAmong d es 0 n).map (false, ·)

/-- Lays out pieces in a row. `isFork` tells of the state in front. -/
def layTogether (d : Direction) : List Normal → Bool → Layout
  | [], isFork, n => some (isFork, n)
  | e :: es, isFork, n =>
    match lay d e n with
    | none => none
    | some (next, n) =>
      match n.lead isFork with
      | none => none
      | some n => layTogether d es next n

/-- Lays out branches, the first of which has so many in front. The fork that leads to all of them
and the state where they meet come behind the second one. -/
def layAmong (d : Direction) : List Normal → Nat → Network → Option Network
  | [], _, n => some n
  | e :: es, place, n =>
    match lay d e n with
    | none => none
    | some (isFork, n) =>
      match (n.lead isFork).bind fun n => n.grow (if place = 1 then 2 else 0) forkSize with
      | none => none
      | some n => layAmong d es (place + 1) n

end

/-- The form is laid out between the state where a match begins and the one where it ends. A match
that need not begin at the end of the text from where it is read is tried at every octet. -/
def layWhole (d : Direction) (e : Normal) : Option Network := do
  let (e, anchor) := match d with
    | .forward => (e, Anchor.textStart)
    | .backward => (e.mirrored, Anchor.textEnd)
  let start : Network := ⟨0, 0⟩
  let n ← if e.opensWith anchor then start.grow 1 0 else start.grow 3 (stepSize + 2 * forkSize)
  let (isFork, n) ← lay d (group e) n
  (← n.lead isFork).grow 1 0

/-- So many words are looked up in a list, for which no network is needed. -/
def manyWords : Nat := 3000

def isWordList : Normal → Bool
  | either es => manyWords ≤ es.length && (es.mapM literal?).isSome
  | _ => false

def fits (e : Normal) : Bool :=
  e.isWordList || ((layWhole .forward e).isSome && (layWhole .backward e).isSome)

end Normal

end Pattern

end DocComments
