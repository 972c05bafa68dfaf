import DocComments.Entity
import DocComments.Text.Basic

/-!
# Settings

What a settings file may say. Everything is optional; of two layers of settings, what the upper one
says counts, and what it leaves open is taken from the lower one.
-/

set_option autoImplicit false

namespace DocComments

structure ModelSettings where
  model : Option Text
  judgeModel : Option Text
  /-- where the interface of the models is found -/
  apiBase : Option Text
  /-- the environment variable with the key for it -/
  apiKeyVariable : Option Text
  temperature : Option Float32
  /-- the price of a thousand tokens -/
  price : Option Float

structure RunSettings where
  kinds : Option (List EntityKind)
  exportsOnly : Option Bool
  judge : Option Bool
  maxEdits : Option Nat
  maxContextTokens : Option Nat
  instructions : Option Text
  maxFileSize : Option Nat
  missing : Option Bool
  update : Option Bool
  dryRun : Option Bool
  mock : Option Bool

/-- The contents of a settings file. -/
structure Settings where
  models : ModelSettings
  run : RunSettings

namespace Settings

def none : Settings :=
  ⟨⟨.none, .none, .none, .none, .none, .none⟩,
    ⟨.none, .none, .none, .none, .none, .none, .none, .none, .none, .none, .none⟩⟩

/-- The settings of a lower layer under those of an upper one. -/
def under (lower upper : Settings) : Settings :=
  { models :=
      { model := upper.models.model.or lower.models.model
        judgeModel := upper.models.judgeModel.or lower.models.judgeModel
        apiBase := upper.models.apiBase.or lower.models.apiBase
        apiKeyVariable := upper.models.apiKeyVariable.or lower.models.apiKeyVariable
        temperature := upper.models.temperature.or lower.models.temperature
        price := upper.models.price.or lower.models.price }
    run :=
      { kinds := upper.run.kinds.or lower.run.kinds
        exportsOnly := upper.run.exportsOnly.or lower.run.exportsOnly
        judge := upper.run.judge.or lower.run.judge
        maxEdits := upper.run.maxEdits.or lower.run.maxEdits
        maxContextTokens := upper.run.maxContextTokens.or lower.run.maxContextTokens
        instructions := upper.run.instructions.or lower.run.instructions
        maxFileSize := upper.run.maxFileSize.or lower.run.maxFileSize
        missing := upper.run.missing.or lower.run.missing
        update := upper.run.update.or lower.run.update
        dryRun := upper.run.dryRun.or lower.run.dryRun
        mock := upper.run.mock.or lower.run.mock } }

@[simp] theorem under_none (s : Settings) : s.under none = s := rfl

end Settings

end DocComments
