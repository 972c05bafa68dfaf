import DocComments.CommandLine.Basic

/-!
# Reading a command line

Flags and parameters may stand anywhere between paths; behind two dashes everything is a path. The
value of a parameter follows an equals sign or is the next word. A value is looked at only when the
word behind it is known to be right, so that a wrong name is reported before a wrong value in front
of it.
-/

set_option autoImplicit false

namespace DocComments

inductive Word where
  /-- a path or a value -/
  | plain (t : Text)
  /-- the two dashes in front of paths -/
  | dashes
  /-- a name behind two dashes, and the value behind its equals sign -/
  | long (name : Text) (value : Option Text)
  /-- letters behind one dash -/
  | short (letters : Text)
  deriving DecidableEq, Repr

def Word.ofText (t : Text) : Word :=
  match t with
  | ['-', '-'] => dashes
  | '-' :: '-' :: rest =>
    let name := rest.takeWhile (· != '=')
    match rest.drop name.length with
    | _ :: value => long name (some value)
    | [] => long name none
  | ['-'] => plain t
  | '-' :: letters => short letters
  | _ => plain t

inductive Pending where
  | nothing
  /-- a parameter, with its value if that was read -/
  | parameter (p : Parameter) (value : Option Text)
  /-- paths, in order -/
  | paths (ps : List Text)
  deriving DecidableEq, Repr

namespace Pending

def settle (pending : Pending) (a : Arguments) : Except UsageError Arguments :=
  match pending with
  | nothing => .ok a
  | parameter p (some value) => a.give p value
  | parameter _ none => .error .missingValue
  | paths ps => a.giveAll ps

end Pending

namespace Arguments

def raiseLetters (a : Arguments) : Text → Except UsageError Arguments
  | [] => .ok a
  | c :: rest =>
    match Flag.ofLetter? c with
    | none => .error .unknownArgument
    | some flag => (a.raise flag).bind fun a => raiseLetters a rest

/-- Takes up what is pending and the flags that letters stand for. An unknown letter in front counts
before what is pending. -/
def settleLetters (pending : Pending) (a : Arguments) (letters : Text) :
    Except UsageError Arguments :=
  if (letters.head?.bind Flag.ofLetter?).isNone then .error .unknownArgument
  else (pending.settle a).bind fun a => a.raiseLetters letters

def readFrom (pending : Pending) (a : Arguments) : List Text → Except UsageError Arguments
  | [] => pending.settle a
  | word :: words =>
    match Word.ofText word with
    | .dashes => (pending.settle a).bind fun a => a.giveAll words
    | .short letters => (settleLetters pending a letters).bind fun a => readFrom .nothing a words
    | .long name value =>
      match Flag.all.find? (fun f => f.name.toList == name),
        Parameter.all.find? (fun p => p.name.toList == name), value with
      | some _, _, some _ => .error .unneededValue
      | some flag, _, none =>
        ((pending.settle a).bind fun a => a.raise flag).bind fun a => readFrom .nothing a words
      | none, some p, some v =>
        ((pending.settle a).bind fun a => a.give p v).bind fun a => readFrom .nothing a words
      | none, some p, none => (pending.settle a).bind fun a => readFrom (.parameter p none) a words
      | none, none, _ => .error .unknownArgument
    | .plain t =>
      match pending with
      | .parameter p none => readFrom (.parameter p (some t)) a words
      | .paths ps => readFrom (.paths (ps ++ [t])) a words
      | _ => (pending.settle a).bind fun a => readFrom (.paths [t]) a words

/-- The arguments that the words of a command line are written for. Without a path there is nothing
to do but to show rules. -/
def read (words : List Text) : Except UsageError Arguments :=
  match readFrom .nothing empty words with
  | .error e => .error e
  | .ok a =>
    if a.paths.isEmpty && a.printRule.isNone then .error .missingArgument else .ok a

end Arguments

end DocComments
