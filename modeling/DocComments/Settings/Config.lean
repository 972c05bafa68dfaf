import DocComments.Settings.Load

/-!
# Configurations

A configuration is what a run goes by: settings with everything that they leave open filled in.
-/

set_option autoImplicit false

namespace DocComments

/-- What a run goes by. -/
structure Config where
  kinds : List EntityKind
  exportsOnly : Bool
  /-- show what would be written and write nothing -/
  dryRun : Bool
  /-- ask no model -/
  mock : Bool
  /-- have drafts judged -/
  judge : Bool
  maxEdits : Option Nat
  maxContextTokens : Option Nat
  instructions : Option Text
  /-- add comments that are missing -/
  missing : Bool
  /-- bring comments up to date -/
  update : Bool
  model : Text
  judgeModel : Text
  apiBase : Text
  apiKeyVariable : Text
  temperature : Option Float32
  price : Float
  maxFileSize : Nat

namespace Config

/-- A limit of zero is none. -/
def limit (n : Nat) : Option Nat := if n = 0 then none else some n

/-- The kinds that a list asks for. An empty one asks for all. -/
def kindsOf : Option (List EntityKind) → List EntityKind
  | some (kind :: kinds) => EntityKind.inOrder (kind :: kinds)
  | _ => EntityKind.all

def ofSettings (s : Settings) : Config :=
  let model := s.models.model.getD "gpt-4o-mini".toList
  { kinds := kindsOf s.run.kinds
    exportsOnly := s.run.exportsOnly.getD false
    dryRun := s.run.dryRun.getD false
    mock := s.run.mock.getD false
    judge := s.run.judge.getD true
    maxEdits := limit (s.run.maxEdits.getD 50)
    maxContextTokens := limit (s.run.maxContextTokens.getD 12000)
    instructions := s.run.instructions.filter fun t => !(Text.trim t).isEmpty
    missing := s.run.missing.getD true
    update := s.run.update.getD false
    model := model
    judgeModel := s.models.judgeModel.getD model
    apiBase := s.models.apiBase.getD "https://api.openai.com/v1".toList
    apiKeyVariable := s.models.apiKeyVariable.getD "OPENAI_API_KEY".toList
    temperature := some (s.models.temperature.getD 0.2)
    price := s.models.price.getD 0
    maxFileSize := s.run.maxFileSize.getD (1024 * 1024) }

def standard : Config := ofSettings .none

def isValid (c : Config) : Bool := c.missing || c.update

def apiKey (c : Config) (env : Environment) : Option Text := env.value? c.apiKeyVariable

end Config

end DocComments
