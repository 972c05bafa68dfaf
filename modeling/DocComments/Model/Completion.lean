import DocComments.Json.Reader

/-!
# Completions

What a chat model answers: a JSON text with choices, of which the first one counts, and the tokens
that the call used.
-/

set_option autoImplicit false

namespace DocComments

inductive ModelError where
  /-- nothing came back -/
  | dropped
  /-- the answer has a status of failure -/
  | status (code : Nat) (body : Text)
  /-- the answer is not written as it should be -/
  | malformed
  /-- the answer has no text in it -/
  | empty
  deriving DecidableEq, Repr

def ModelError.message : ModelError → Text
  | dropped => "LLM request failed".toList
  | status code body => ("LLM API error " ++ toString code ++ ": ").toList ++ body
  | malformed => "LLM response parse error".toList
  | empty => "LLM response has no content".toList

/-- The text of a model and the tokens that the call used. -/
structure Completion where
  content : Text
  tokens : Nat
  deriving DecidableEq, Repr

namespace Completion

/-- What a choice says, `none` inside if it says nothing. -/
def choice? (j : WrittenJson) : Option (Option Text) :=
  match j.record? ["message"] with
  | some [some message] =>
    match message.record? ["content"] with
    | some [none] => some none
    | some [some .null] => some none
    | some [some content] => content.text?.map some
    | _ => none
  | _ => none

/-- The tokens that a call reports. Where nothing is reported it is zero. -/
def tokens? : Option WrittenJson → Option Nat
  | none => some 0
  | some .null => some 0
  | some usage =>
    match usage.record? ["total_tokens"] with
    | some [none] => some 0
    | some [some n] => n.word?
    | _ => none

def parts? (body : Text) : Option (List (Option Text) × Nat) := do
  let answer ← WrittenJson.read? body
  match ← answer.record? ["choices", "usage"] with
  | [some choices, usage] => do
    let listed ← choices.list?
    some (← listed.mapM choice?, ← tokens? usage)
  | _ => none

/-- The completion in the body of an answer: what its first choice says. -/
def read (body : Text) : Except ModelError Completion :=
  match parts? body with
  | none => .error .malformed
  | some (some content :: _, tokens) => .ok ⟨content, tokens⟩
  | some _ => .error .empty

end Completion

end DocComments
