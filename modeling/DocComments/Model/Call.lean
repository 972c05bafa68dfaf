import DocComments.Model.Completion
import DocComments.Model.Labels
import DocComments.Model.Usage
import DocComments.Prompt.Basic

/-!
# Calls to models

One model drafts comments and one judges them. What they answer may depend on a state that their
calls change, such as the place in a script or the files that they see.
-/

set_option autoImplicit false

namespace DocComments

structure DraftRequest where
  prompt : Prompt
  /-- what the model is told to be -/
  system : Option Text
  model : Text
  temperature : Option Float32
  maxContextTokens : Option Nat

/-- The prompt of a request, cut to the tokens that it may have. -/
def DraftRequest.text (tk : Tokenizer) (r : DraftRequest) : Text :=
  r.prompt.render tk r.maxContextTokens

structure Draft where
  text : Text
  usage : Usage

structure Question where
  prompt : Text
  labels : LabelSet
  deriving DecidableEq, Repr

structure Verdict where
  /-- the label in the answer, if there is one -/
  label : Option String
  answer : Text
  usage : Usage

def Verdict.accepts (v : Verdict) (labels : LabelSet) : Bool := labels.accepts v.label

/-- The models of a run, with the state that their calls change. -/
structure Models (σ : Type) where
  draft : DraftRequest → σ → Except ModelError Draft × σ
  judge : Question → σ → Except ModelError Verdict × σ

namespace Models

def placeholderText : Text := "Placeholder documentation generated in mock mode.".toList

/-- No models: every comment is a placeholder, and every comment is accepted. -/
def placeholder {σ : Type} : Models σ where
  draft _ s := (.ok ⟨placeholderText, .zero⟩, s)
  judge q s := (.ok ⟨some q.labels.accepting, q.labels.accepting.toList, .zero⟩, s)

end Models

end DocComments
