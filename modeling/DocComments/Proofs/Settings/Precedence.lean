import DocComments.CommandLine.Configure
import DocComments.CommandLine.Reader

/-!
# Which setting counts

Arguments count before the settings of the user, these before those for everybody, and where nothing
is given there is a standard. `settled_precedence` says so of each setting. The judge is an
exception where settings name as the judge the very model that they draft with: a configuration does
not remember that the judge was named, so that arguments with another drafting model take the judge
along (`Arguments.TakesJudgeAlong`).
-/

set_option autoImplicit false

namespace DocComments

namespace Settings

/-- What counts of an argument, a setting of the user and one for everybody: the first that is
given, or else the standard. -/
def firstGiven {α : Type} (argument user system : Option α) (standard : α) : α :=
  argument.getD (user.getD (system.getD standard))

/-- Layers of settings are laid one upon the other before arguments come in. -/
theorem getD_getD_or {α : Type} (argument user system : Option α) (standard : α) :
    argument.getD ((user.or system).getD standard) = firstGiven argument user system standard := by
  cases user <;> rfl

theorem elim_limit (argument user system : Option Nat) (standard : Nat) :
    argument.elim (Config.limit ((user.or system).getD standard)) Config.limit
      = Config.limit (firstGiven argument user system standard) := by
  rw [← getD_getD_or]
  cases argument <;> rfl

end Settings

namespace Config

/-- Only a limit of zero is none. -/
theorem limit_eq_some_iff {n m : Nat} : limit m = some n ↔ n ≠ 0 ∧ m = n := by
  unfold limit
  split
  · next h =>
    refine iff_of_false (by simp) ?_
    rintro ⟨hne, heq⟩
    exact hne (heq.symm.trans h)
  · next h =>
    rw [Option.some.injEq]
    exact ⟨fun heq => ⟨heq ▸ h, heq⟩, And.right⟩

theorem kindsOf_eq (kinds : List EntityKind) :
    kindsOf (some kinds)
      = EntityKind.all.filter fun kind => kinds.isEmpty || kinds.contains kind := by
  cases kinds with
  | nil => exact (List.filter_eq_self.mpr fun _ _ => rfl).symm
  | cons kind kinds => rfl

end Config

namespace Arguments

open Settings (firstGiven getD_getD_or)

/-- The configuration under arguments over two layers of settings. -/
def settled (a : Arguments) (system user : Settings) : Config :=
  a.configure (.ofSettings (system.under user))

def kinds? (a : Arguments) : Option (List EntityKind) :=
  if a.kinds = [] then none else some a.kinds

/-- The kinds that are asked for. An empty list asks for all. -/
def askedKinds (a : Arguments) (system user : Settings) : List EntityKind :=
  firstGiven a.kinds? user.run.kinds system.run.kinds EntityKind.all

/-- The judge that is asked for: the first that is named, or else the drafting model. -/
def askedJudge (a : Arguments) (system user : Settings) : Text :=
  firstGiven a.judgeModel user.models.judgeModel system.models.judgeModel
    (a.settled system user).model

/-- Arguments name a drafting model and no judge, and another model is both the judge that settings
name and the one that they draft with. -/
def TakesJudgeAlong (a : Arguments) (system user : Settings) : Prop :=
  a.judgeModel = none ∧ ∃ model judge, a.model = some model ∧ judge ≠ model ∧
    user.models.judgeModel.or system.models.judgeModel = some judge ∧
    firstGiven none user.models.model system.models.model "gpt-4o-mini".toList = judge

variable (a : Arguments) (system user : Settings)

theorem kinds_settled :
    (a.settled system user).kinds = EntityKind.all.filter fun kind =>
      (a.askedKinds system user).isEmpty || (a.askedKinds system user).contains kind := by
  have hlayers : Config.kindsOf (user.run.kinds.or system.run.kinds)
      = Config.kindsOf (some (firstGiven none user.run.kinds system.run.kinds EntityKind.all)) := by
    rw [← getD_getD_or]
    cases user.run.kinds.or system.run.kinds <;> rfl
  rw [← Config.kindsOf_eq]
  show (if a.kinds.isEmpty then Config.kindsOf (user.run.kinds.or system.run.kinds)
    else EntityKind.inOrder a.kinds) = _
  unfold askedKinds kinds?
  cases hkinds : a.kinds with
  | nil => exact hlayers
  | cons kind kinds => rfl

/-! ## The judge -/

/-- The judge under arguments over settings that name a judge or not and have a drafting model. -/
theorem judgeModel_settled :
    (a.settled system user).judgeModel
      = (let drafting := (Config.ofSettings (system.under user)).model
        let judge := (user.models.judgeModel.or system.models.judgeModel).getD drafting
        match a.judgeModel, a.model with
        | some judge, _ => judge
        | none, some model => if judge = drafting then model else judge
        | none, none => judge) := rfl

/-- The judge is the one that is asked for, unless it is taken along. -/
theorem judgeModel_settled_cases :
    (a.TakesJudgeAlong system user →
      (a.settled system user).judgeModel = (a.settled system user).model ∧
        (a.settled system user).judgeModel ≠ a.askedJudge system user) ∧
    (¬ a.TakesJudgeAlong system user →
      (a.settled system user).judgeModel = a.askedJudge system user) := by
  have hdrafting : (Config.ofSettings (system.under user)).model
      = firstGiven none user.models.model system.models.model "gpt-4o-mini".toList :=
    getD_getD_or none user.models.model system.models.model _
  have hmodel : (a.settled system user).model
      = a.model.getD (Config.ofSettings (system.under user)).model := rfl
  unfold TakesJudgeAlong askedJudge
  rw [judgeModel_settled, hmodel, ← getD_getD_or a.judgeModel, ← hdrafting]
  -- all that counts is which of three models are named, and the one that settings draft with
  generalize user.models.judgeModel.or system.models.judgeModel = named
  generalize (Config.ofSettings (system.under user)).model = drafting
  cases a.judgeModel with
  | some judge => simp
  | none =>
    cases a.model with
    | none => simp
    | some model =>
      cases named with
      | none => simp
      | some judge =>
        by_cases hsame : judge = drafting
        · -- as if no judge were named: this matters unless the models are all the same
          subst hsame
          by_cases hmodel : judge = model
          · simp [hmodel]
          · simp [hmodel, Ne.symm hmodel]
        · simp [hsame]

theorem judgeModel_settled_iff :
    (a.settled system user).judgeModel = a.askedJudge system user
      ↔ ¬ a.TakesJudgeAlong system user := by
  obtain ⟨htaken, hkept⟩ := judgeModel_settled_cases a system user
  exact ⟨fun heq halong => (htaken halong).2 heq, hkept⟩

end Arguments

open Settings (firstGiven)

/-- Of the argument, the user's setting and the one for everybody the first that is given counts, or
else the standard. A limit of zero is none, and an empty list of kinds asks for all. This holds of
the judge too, for which the standard is the drafting model that counts, unless it is taken along:
then it is that drafting model though settings name it. -/
theorem settled_precedence (a : Arguments) (system user : Settings) :
    (a.settled system user).model
        = firstGiven a.model user.models.model system.models.model "gpt-4o-mini".toList ∧
    (a.settled system user).apiBase
        = firstGiven a.apiBase user.models.apiBase system.models.apiBase
            "https://api.openai.com/v1".toList ∧
    (∀ n, (a.settled system user).maxEdits = some n
        ↔ n ≠ 0 ∧ firstGiven a.maxEdits user.run.maxEdits system.run.maxEdits 50 = n) ∧
    (∀ n, (a.settled system user).maxContextTokens = some n
        ↔ n ≠ 0 ∧ firstGiven a.maxContextTokens user.run.maxContextTokens
            system.run.maxContextTokens 12000 = n) ∧
    (a.settled system user).kinds = EntityKind.all.filter (fun kind =>
        (a.askedKinds system user).isEmpty || (a.askedKinds system user).contains kind) ∧
    ((a.settled system user).judgeModel = a.askedJudge system user
        ↔ ¬ a.TakesJudgeAlong system user) ∧
    (a.TakesJudgeAlong system user →
      (a.settled system user).judgeModel = (a.settled system user).model) := by
  have hedits : (a.settled system user).maxEdits
      = Config.limit (firstGiven a.maxEdits user.run.maxEdits system.run.maxEdits 50) :=
    Settings.elim_limit _ _ _ _
  have htokens : (a.settled system user).maxContextTokens
      = Config.limit (firstGiven a.maxContextTokens user.run.maxContextTokens
          system.run.maxContextTokens 12000) :=
    Settings.elim_limit _ _ _ _
  refine ⟨Settings.getD_getD_or _ _ _ _, Settings.getD_getD_or _ _ _ _, fun n => ?edits,
    fun n => ?tokens, a.kinds_settled system user, a.judgeModel_settled_iff system user,
    fun halong => ((a.judgeModel_settled_cases system user).1 halong).1⟩
  case edits => rw [hedits, Config.limit_eq_some_iff]
  case tokens => rw [htokens, Config.limit_eq_some_iff]

/-- A user's settings name the standard model as the judge. Where the command line names another
drafting model, that one judges. -/
theorem named_judge_taken_along :
    ∃ a, Arguments.read ["src".toList, "--model".toList, "local-coder".toList] = .ok a ∧
      ∃ user, Settings.read? "llm:\n  judge_model: gpt-4o-mini\n".toList = some user ∧
        user.models.judgeModel = some "gpt-4o-mini".toList ∧
        a.askedJudge .none user = "gpt-4o-mini".toList ∧
        (a.settled .none user).judgeModel = "local-coder".toList := by
  have hread : (Settings.read? "llm:\n  judge_model: gpt-4o-mini\n".toList).map
      (fun user => (user.models.model, user.models.judgeModel))
        = some (none, some "gpt-4o-mini".toList) := by decide +kernel
  obtain ⟨user, huser, hmodels⟩ := Option.map_eq_some_iff.mp hread
  obtain ⟨hmodel, hjudge⟩ := Prod.mk.inj hmodels
  let a : Arguments :=
    { Arguments.empty with paths := ["src".toList], model := some "local-coder".toList }
  have halong : a.TakesJudgeAlong .none user := by
    refine ⟨rfl, "local-coder".toList, "gpt-4o-mini".toList, rfl, by decide, ?_, ?_⟩
    · rw [hjudge]
      rfl
    · rw [hmodel]
      rfl
  refine ⟨a, rfl, user, huser, hjudge, ?_, ((a.judgeModel_settled_cases .none user).1 halong).1⟩
  rw [Arguments.askedJudge, hjudge]
  rfl

end DocComments
