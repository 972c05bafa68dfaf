import DocComments.Pattern.Expr
import DocComments.Pattern.Ranges

/-!
# The normal form of written patterns

Before a pattern is laid out as a network of states it is brought into a form where neighbouring
literals are one, sequences and choices are not nested in each other, a choice between single
characters is a class, and what all branches of a choice begin with stands in front of it. The
functions named for an operation make up normal forms from normal forms.
-/

set_option autoImplicit false

namespace DocComments

namespace Pattern

/-- A written pattern in normal form. -/
inductive Normal where
  /-- the empty text -/
  | empty
  /-- a text, which is not empty -/
  | literal (t : Text)
  /-- a character out of some ranges, of which there are none or at least two characters -/
  | cls (ranges : Ranges)
  | here (anchor : Anchor)
  | repeated (e : Normal) (least : Nat) (most : Option Nat) (isLazy : Bool)
  /-- a group whose match is remembered -/
  | group (e : Normal)
  /-- one piece after the other, at least two -/
  | concat (es : List Normal)
  /-- one of some branches, at least two -/
  | either (es : List Normal)

namespace Normal

/-! ## Equality -/

mutual

/-- The two forms are the same. Groups never are, for each remembers a match of its own. -/
def same : Normal → Normal → Bool
  | empty, empty => true
  | literal s, literal t => s == t
  | cls rs, cls ss => rs == ss
  | here a, here b => a == b
  | repeated d least most isLazy, repeated e least' most' isLazy' =>
    least == least' && most == most' && isLazy == isLazy' && d.same e
  | concat ds, concat es => allSame ds es
  | either ds, either es => allSame ds es
  | _, _ => false

def allSame : List Normal → List Normal → Bool
  | [], [] => true
  | d :: ds, e :: es => d.same e && allSame ds es
  | _, _ => false

end

/-! ## Lengths -/

def octets (n : Nat) : Nat := (Char.ofNat n).utf8Size

def octetsOf (t : Text) : Nat := (t.map Char.utf8Size).foldr (· + ·) 0

mutual

/-- The number of octets of the shortest match. There is none where a class without members has to
be matched. -/
def shortest : Normal → Option Nat
  | empty => some 0
  | literal t => some (octetsOf t)
  | cls ranges => ranges.head?.map fun (first, _) => octets first
  | here _ => some 0
  | repeated e least _ _ => e.shortest.map (· * least)
  | group e => e.shortest
  | concat es => shortestTogether es
  | either es => shortestAmong es

def shortestTogether : List Normal → Option Nat
  | [] => some 0
  | e :: es => do return (← e.shortest) + (← shortestTogether es)

def shortestAmong : List Normal → Option Nat
  | [] => none
  | [e] => e.shortest
  | e :: es => do return min (← e.shortest) (← shortestAmong es)

end

mutual

/-- The number of octets of the longest match. There is none where a class without members has to be
matched, and none where matches are as long as one likes. -/
def longest : Normal → Option Nat
  | empty => some 0
  | literal t => some (octetsOf t)
  | cls ranges => ranges.getLast?.map fun (_, last) => octets last
  | here _ => some 0
  | repeated e _ most _ => do return (← e.longest) * (← most)
  | group e => e.longest
  | concat es => longestTogether es
  | either es => longestAmong es

def longestTogether : List Normal → Option Nat
  | [] => some 0
  | e :: es => do return (← e.longest) + (← longestTogether es)

def longestAmong : List Normal → Option Nat
  | [] => some 0
  | e :: es => do return max (← e.longest) (← longestAmong es)

end

def isEmptyOnly (e : Normal) : Bool := e.longest == some 0

mutual

/-- Every match begins where the anchor holds. -/
def opensWith (anchor : Anchor) : Normal → Bool
  | empty => false
  | literal _ => false
  | cls _ => false
  | here a => a == anchor
  | repeated e least _ _ => least != 0 && e.opensWith anchor
  | group e => e.opensWith anchor
  | concat es => openTogether anchor es
  | either es => eachOpens anchor es

/-- A piece that is reached before any character opens with the anchor. -/
def openTogether (anchor : Anchor) : List Normal → Bool
  | [] => false
  | e :: es => e.opensWith anchor || (e.isEmptyOnly && openTogether anchor es)

def eachOpens (anchor : Anchor) : List Normal → Bool
  | [] => true
  | e :: es => e.opensWith anchor && eachOpens anchor es

end

/-! ## Operations -/

def ofRanges (rs : Ranges) : Normal :=
  match rs.only? with
  | some n => literal [Char.ofNat n]
  | none => cls rs

def pieces : Normal → List Normal
  | empty => []
  | concat es => es
  | e => [e]

/-- A piece in front of others. Two literals become one. -/
def before : Normal → List Normal → List Normal
  | literal s, literal t :: es => literal (s ++ t) :: es
  | e, es => e :: es

def sequence (es : List Normal) : Normal :=
  match (es.flatMap pieces).foldr before [] with
  | [] => empty
  | [e] => e
  | es => concat es

@[simp] theorem sequence_nil : sequence [] = empty := rfl

def branches : Normal → List Normal
  | either es => es
  | e => [e]

def character? : Normal → Option Nat
  | literal [c] => some c.toNat
  | _ => none

def ranges? : Normal → Option Ranges
  | cls rs => some rs
  | _ => none

/-- The pieces of a sequence of at least two. -/
def concat? : Normal → Option (List Normal)
  | concat es => some es
  | _ => none

def commonStart : List Normal → List Normal → List Normal
  | d :: ds, e :: es => if d.same e then d :: commonStart ds es else []
  | _, _ => []

/-- What all of some branches begin with, if each of them is a sequence. -/
def sharedStart (es : List Normal) : List Normal :=
  match es.mapM concat? with
  | some (first :: others) => others.foldl commonStart first
  | _ => []

/-- One of some forms. Every step takes what all branches begin with away from them, so that `fuel`
is enough if it is the number of pieces in them. -/
def choiceWithin : Nat → List Normal → Normal
  | fuel, es =>
    let es := es.flatMap branches
    match es, es.mapM character?, es.mapM ranges? with
    | [], _, _ => cls []
    | [e], _, _ => e
    | _, some characters, _ => ofRanges (Ranges.arrange (characters.map fun n => (n, n)))
    | _, none, some classes => ofRanges (Ranges.arrange classes.flatten)
    | es, none, none =>
      -- the rests are a choice of their own, in which characters may have come to light
      match fuel, sharedStart es with
      | fuel + 1, e :: shared =>
        let rests := es.map fun d => sequence (d.pieces.drop (shared.length + 1))
        sequence (e :: shared ++ [choiceWithin fuel rests])
      | _, _ => either es

mutual

def count : Normal → Nat
  | empty => 1
  | literal _ => 1
  | cls _ => 1
  | here _ => 1
  | repeated e _ _ _ => e.count + 1
  | group e => e.count + 1
  | concat es => countAll es + 1
  | either es => countAll es + 1

def countAll : List Normal → Nat
  | [] => 0
  | e :: es => e.count + countAll es

end

def choice : List Normal → Normal
  | [e] => e
  | es => choiceWithin (countAll es) es

@[simp] theorem choice_singleton (e : Normal) : choice [e] = e := rfl

/-- A form again and again. What matches nothing but the empty text is repeated once at most. -/
def repetition (e : Normal) (least : Nat) (most : Option Nat) (isLazy : Bool) : Normal :=
  let once := e.isEmptyOnly
  let least := if once then min least 1 else least
  let most := if once then some ((most.map (min · 1)).getD 1) else most
  if most == some 0 then empty
  else if least == 1 && most == some 1 then e
  else repeated e least most isLazy

/-! ## The form of a tree -/

mutual

def ofExpr : Expr → Normal
  | .flags => empty
  | .one c _ => ofRanges c.ranges
  | .here anchor => here anchor
  | .repeated e least most isLazy => repetition (ofExpr e) least most isLazy
  | .group e isRemembered => if isRemembered then group (ofExpr e) else ofExpr e
  | .concat es => sequence (ofExprs es)
  | .either es => choice (ofExprs es)

def ofExprs : List Expr → List Normal
  | [] => []
  | e :: es => ofExpr e :: ofExprs es

end

mutual

/-- The form for texts that are read from the back. -/
def mirrored : Normal → Normal
  | empty => empty
  | literal t => literal t
  | cls ranges => cls ranges
  | here anchor => here anchor
  | repeated e least most isLazy => repeated e.mirrored least most isLazy
  | group e => group e.mirrored
  | concat es => concat (mirroredAll es).reverse
  | either es => either (mirroredAll es)

def mirroredAll : List Normal → List Normal
  | [] => []
  | e :: es => e.mirrored :: mirroredAll es

end

end Normal

end Pattern

end DocComments
