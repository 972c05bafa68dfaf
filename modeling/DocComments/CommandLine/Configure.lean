import DocComments.CommandLine.Basic
import DocComments.Settings.Config

/-!
# Arguments on top of settings

What the command line says counts before what settings say.
-/

set_option autoImplicit false

namespace DocComments

namespace Arguments

/-- The models that a configuration has under the arguments. A judge that is the drafting model
stays so when only the latter is named. -/
def models (a : Arguments) (c : Config) : Config :=
  let judge :=
    match a.judgeModel, a.model with
    | some judge, _ => judge
    | none, some model => if c.judgeModel = c.model then model else c.judgeModel
    | none, none => c.judgeModel
  { c with model := a.model.getD c.model, judgeModel := judge }

def limits (a : Arguments) (c : Config) : Config :=
  { c with
    maxEdits := a.maxEdits.elim c.maxEdits Config.limit
    maxContextTokens := a.maxContextTokens.elim c.maxContextTokens Config.limit }

def configure (a : Arguments) (c : Config) : Config :=
  let c := a.limits (a.models c)
  { c with
    missing := a.missing.getD c.missing
    update := a.update || c.update
    exportsOnly := a.exportsOnly || c.exportsOnly
    kinds := if a.kinds.isEmpty then c.kinds else EntityKind.inOrder a.kinds
    dryRun := a.dryRun || c.dryRun
    mock := a.mock || c.mock
    judge := !a.noJudge && c.judge
    instructions := a.instructions.or c.instructions
    apiBase := a.apiBase.getD c.apiBase }

end Arguments

end DocComments
