import DocComments.Prompt.Tokens

/-!
# Prompts

A prompt is a list of sections. Paragraphs and excerpts of high priority are always kept whole; excerpts
of low priority are cut, and then left out, until the prompt fits its limit of tokens.
-/

set_option autoImplicit false

namespace DocComments

/-- How readily an excerpt gives way to the limit. -/
inductive Priority where
  /-- the excerpt is cut first -/
  | low
  /-- the excerpt is never cut -/
  | high
  deriving DecidableEq, Repr

/-- Named content between code fences. -/
structure Excerpt where
  name : String
  fence : String
  body : Text
  deriving DecidableEq, Repr

def Excerpt.render (b : Excerpt) : Text :=
  b.name.toList ++ ":\n```".toList ++ b.fence.toList ++ ['\n'] ++ b.body ++ "\n```".toList

inductive Section where
  | paragraph (t : Text)
  | excerpt (b : Excerpt) (priority : Priority)
  deriving DecidableEq, Repr

namespace Section

def render : Section → Text
  | paragraph t => t
  | excerpt b _ => b.render

def isFlexible : Section → Bool
  | excerpt _ .low => true
  | _ => false

end Section

abbrev Prompt := List Section

namespace Prompt

/-- What stands at the end of an excerpt that was cut. -/
def cutMark : Text := "\n... [truncated]".toList

/-- Tokens kept free for what joins the sections. -/
def slack : Nat := 8

def joinSections (parts : List Text) : Text := List.intercalate ['\n', '\n'] parts

/-- The tokens that cannot be saved, with one for the join behind each section. -/
def fixedCost (tk : Tokenizer) (p : Prompt) : Nat :=
  ((p.filter fun s => !s.isFlexible).map fun s => tk.count s.render + 1).foldr (· + ·) 0

/-- The tokens of an excerpt apart from its body, with one for the join. -/
def frameCost (tk : Tokenizer) (b : Excerpt) : Nat := tk.count { b with body := [] }.render + 1

def cutBody (tk : Tokenizer) (allowance : Nat) (body : Text) : Text :=
  let kept := tk.truncate allowance body
  if kept.length < body.length then kept ++ cutMark else kept

/-- The texts of the sections when `remaining` tokens are left for the bodies of excerpts of low
priority. An excerpt for which nothing is left takes what is left from those behind it. -/
def fitSections (tk : Tokenizer) (remaining : Nat) : Prompt → List Text
  | [] => []
  | .excerpt b .low :: p =>
    let frame := frameCost tk b
    let mark := tk.count cutMark
    if remaining ≤ frame + mark then fitSections tk 0 p
    else
      let body := cutBody tk (remaining - frame - mark) b.body
      { b with body := body }.render :: fitSections tk (remaining - (frame + tk.count body)) p
  | s :: p => s.render :: fitSections tk remaining p

def whole (p : Prompt) : Text := joinSections (p.map Section.render)

/-- The prompt within a limit of tokens, if there is one. -/
def render (tk : Tokenizer) (limit : Option Nat) (p : Prompt) : Text :=
  match limit with
  | none => whole p
  | some n =>
    if tk.count (whole p) ≤ n then whole p
    else joinSections (fitSections tk (n - (fixedCost tk p + slack)) p)

end Prompt

end DocComments
