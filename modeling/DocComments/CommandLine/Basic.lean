import DocComments.Decimal.Read
import DocComments.Entity
import DocComments.Files.Path

/-!
# Arguments of the program

The flags and options that a command line may have, and what one with them asks for. Each may be
given once, except for kinds, which add up, and for the two flags about missing comments, of which
the later one counts.
-/

set_option autoImplicit false

namespace DocComments

/-- An argument without a value. -/
inductive Flag where
  | missing
  | noMissing
  | update
  | exportsOnly
  | dryRun
  | mock
  | noJudge
  | verbose
  | help
  deriving DecidableEq, Repr

namespace Flag

def all : List Flag :=
  [missing, noMissing, update, exportsOnly, dryRun, mock, noJudge, verbose, help]

def name : Flag → String
  | missing => "missing"
  | noMissing => "no-missing"
  | update => "update"
  | exportsOnly => "exports-only"
  | dryRun => "dry-run"
  | mock => "mock"
  | noJudge => "no-judge"
  | verbose => "verbose"
  | help => "help"

def ofLetter? (c : Char) : Option Flag :=
  if c = 'v' then some verbose else if c = 'h' then some help else none

end Flag

/-- An argument with a value. -/
inductive Parameter where
  | glob
  | kinds
  | maxEdits
  | maxContextTokens
  | instructions
  | model
  | judgeModel
  | apiBase
  | conf
  | printRule
  deriving DecidableEq, Repr

namespace Parameter

def all : List Parameter :=
  [glob, kinds, maxEdits, maxContextTokens, instructions, model, judgeModel, apiBase, conf,
    printRule]

def name : Parameter → String
  | glob => "glob"
  | kinds => "kinds"
  | maxEdits => "max-edits"
  | maxContextTokens => "max-context-tokens"
  | instructions => "instructions"
  | model => "model"
  | judgeModel => "judge-model"
  | apiBase => "api-base"
  | conf => "conf"
  | printRule => "print-rule"

end Parameter

inductive UsageError where
  /-- help was asked for -/
  | help
  /-- no flag or parameter has this name -/
  | unknownArgument
  /-- no path was given -/
  | missingArgument
  /-- a parameter or a path is empty -/
  | missingValue
  /-- a value is not of its kind -/
  | badValue
  /-- a flag was given a value -/
  | unneededValue
  /-- an argument was given twice -/
  | repeatedArgument
  deriving DecidableEq, Repr

structure Arguments where
  paths : List Path
  glob : Option Text
  /-- whether missing comments are added, as the later of two flags says -/
  missing : Option Bool
  update : Bool
  exportsOnly : Bool
  kinds : List EntityKind
  dryRun : Bool
  mock : Bool
  noJudge : Bool
  maxEdits : Option Nat
  maxContextTokens : Option Nat
  instructions : Option Text
  model : Option Text
  judgeModel : Option Text
  apiBase : Option Text
  /-- where the settings of the user are -/
  conf : Option Path
  verbose : Bool
  /-- the language whose rules are to be shown -/
  printRule : Option Text
  deriving DecidableEq, Repr

namespace Arguments

def empty : Arguments where
  paths := []
  glob := none
  missing := none
  update := false
  exportsOnly := false
  kinds := []
  dryRun := false
  mock := false
  noJudge := false
  maxEdits := none
  maxContextTokens := none
  instructions := none
  model := none
  judgeModel := none
  apiBase := none
  conf := none
  verbose := false
  printRule := none

/-- Turns a flag on that must still be off. -/
def once (isOn : Bool) (on : Arguments) : Except UsageError Arguments :=
  if isOn then .error .repeatedArgument else .ok on

def raise (a : Arguments) : Flag → Except UsageError Arguments
  | .missing => once (a.missing == some true) { a with missing := some true }
  | .noMissing => once (a.missing == some false) { a with missing := some false }
  | .update => once a.update { a with update := true }
  | .exportsOnly => once a.exportsOnly { a with exportsOnly := true }
  | .dryRun => once a.dryRun { a with dryRun := true }
  | .mock => once a.mock { a with mock := true }
  | .noJudge => once a.noJudge { a with noJudge := true }
  | .verbose => once a.verbose { a with verbose := true }
  | .help => .error .help

/-- Puts a value in a place that must still be empty. -/
def fill {α : Type} (old : Option α) (read : Except UsageError α) (set : α → Arguments) :
    Except UsageError Arguments :=
  if old.isSome then .error .repeatedArgument else read.map set

def number (value : Text) : Except UsageError Nat :=
  (Decimal.unsigned? value).elim (.error .badValue) .ok

def path (value : Text) : Except UsageError Path :=
  if value = [] then .error .missingValue else .ok value

def kind (piece : Text) : Except UsageError EntityKind :=
  (EntityKind.ofName (String.ofList piece)).mapError fun _ => .badValue

def commaPieces : Text → List Text
  | [] => [[]]
  | ',' :: rest => [] :: commaPieces rest
  | c :: rest =>
    match commaPieces rest with
    | [] => [[c]]
    | first :: more => (c :: first) :: more

def give (a : Arguments) (p : Parameter) (value : Text) : Except UsageError Arguments :=
  match p with
  | .glob => fill a.glob (.ok value) fun v => { a with glob := some v }
  | .kinds => ((commaPieces value).mapM kind).map fun ks => { a with kinds := a.kinds ++ ks }
  | .maxEdits => fill a.maxEdits (number value) fun n => { a with maxEdits := some n }
  | .maxContextTokens =>
    fill a.maxContextTokens (number value) fun n => { a with maxContextTokens := some n }
  | .instructions => fill a.instructions (.ok value) fun v => { a with instructions := some v }
  | .model => fill a.model (.ok value) fun v => { a with model := some v }
  | .judgeModel => fill a.judgeModel (.ok value) fun v => { a with judgeModel := some v }
  | .apiBase => fill a.apiBase (.ok value) fun v => { a with apiBase := some v }
  | .conf => fill a.conf (path value) fun v => { a with conf := some v }
  | .printRule => fill a.printRule (.ok value) fun v => { a with printRule := some v }

def giveAll (a : Arguments) (paths : List Text) : Except UsageError Arguments :=
  (paths.mapM path).map fun ps => { a with paths := a.paths ++ ps }

end Arguments

end DocComments
