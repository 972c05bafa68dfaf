import DocComments.Decimal.Read
import DocComments.Settings.Basic
import DocComments.Text.Utf8
import DocComments.Yaml.Reader

/-!
# Written settings

Reads settings from YAML. A field of the wrong type, a field given twice and a section that is no
mapping make the whole text invalid; fields that are not known do not matter.
-/

set_option autoImplicit false

namespace DocComments

namespace Yaml

/-! ## Typed values

A value is read here with its alias resolved. -/

def nullWords : List Text := ["~", "null", "Null", "NULL"].map String.toList

def isNullWord (t : Text) : Bool := nullWords.contains t

/-- A value of some type, or nothing. A tag says that there is something, unless it is the one of
nothing. -/
def optional {α : Type} (read : Yaml → Option α) (v : Yaml) : Option (Option α) :=
  match v with
  | scalar none .plain t => if t.isEmpty || isNullWord t then some none else (read v).map some
  | scalar (some tag) .plain t =>
    if tag = coreTag "null" then (if isNullWord t then some none else none)
    else (read v).map some
  | _ => (read v).map some

def text? : Yaml → Option Text
  | scalar _ _ t => some t
  | _ => none

/-- The word for a value of a type: a scalar without quotes, or the lines of a block with the tag of
the type. -/
def word? (tag : Tag) : Yaml → Option Text
  | scalar _ .plain t => some t
  | scalar (some given) .literal t => if given = tag then some t else none
  | _ => none

def boolOfWord? (t : Text) : Option Bool :=
  if ["true", "True", "TRUE"].any fun w => w.toList == t then some true
  else if ["false", "False", "FALSE"].any fun w => w.toList == t then some false
  else none

def bool? (v : Yaml) : Option Bool := (word? (coreTag "bool") v).bind boolOfWord?

/-- The digits of a whole number behind the mark of its base. -/
def basedWord? (t : Text) : Option Nat :=
  match t with
  | '0' :: 'x' :: rest => Decimal.word? 16 rest
  | '0' :: 'o' :: rest => Decimal.word? 8 rest
  | '0' :: 'b' :: rest => Decimal.word? 2 rest
  | _ => none

def hasLeadingZero (t : Text) : Bool :=
  match t with
  | '0' :: c :: rest => (c :: rest).all Char.isDigit
  | _ => false

def natOfWord? (t : Text) : Option Nat :=
  let unsigned := if t.head? = some '+' then t.tail else t
  match basedWord? unsigned with
  | some n => some n
  | none => if hasLeadingZero unsigned then none else Decimal.word? 10 unsigned

def nat? (v : Yaml) : Option Nat := (word? (coreTag "int") v).bind natOfWord?

def floatOfWord? (t : Text) : Option Float :=
  let unsigned := if t.head? = some '+' then t.tail else t
  if [".inf", ".Inf", ".INF"].any fun w => w.toList == unsigned then some (1 / 0)
  else if ["-.inf", "-.Inf", "-.INF"].any fun w => w.toList == t then some (-1 / 0)
  else if [".nan", ".NaN", ".NAN"].any fun w => w.toList == t then
    some (Float.ofBits 0x7ff8000000000000)
  else if t.head? = some '+' ∧ unsigned.head? = some '-' then none
  else Decimal.finite? unsigned

def float? (v : Yaml) : Option Float := (word? (coreTag "float") v).bind floatOfWord?

/-- The value is left out, perhaps behind a tag. -/
def isLeftOut : Yaml → Bool
  | scalar _ .plain t => t.isEmpty
  | _ => false

/-- A list of values. One that is left out is empty. -/
def list? {α : Type} (d : Document) (read : Yaml → Option α) : Yaml → Option (List α)
  | sequence items => items.mapM fun v => read (d.resolve v)
  | v => if v.isLeftOut then some [] else none

/-- The name of a case in a tag: what follows its mark, or the mark where it stands alone. A tag
without the mark names no case. -/
def caseName? (tag : Tag) : Option Text :=
  match tag with
  | [] => none
  | mark :: rest =>
    if mark = 33 then (Utf8.decode ⟨(if rest = [] then tag else rest).toArray⟩).toOption else none

/-- One of some cases that have names. The name is the text or, in front of nothing, the tag. -/
def case? {α : Type} (ofName : Text → Option α) : Yaml → Option α
  | scalar tag style t =>
    match tag.bind caseName? with
    | none => ofName t
    | some name => if style = .plain ∧ (t.isEmpty ∨ isNullWord t) then ofName name else none
  | _ => none

/-! ## Sections -/

/-- The entries of a mapping by their names. A section that is left out has none. -/
def entries? (d : Document) : Yaml → Option (List (Text × Yaml))
  | mapping entries =>
    entries.mapM fun (k, v) => (text? (d.resolve k)).map fun name => (name, d.resolve v)
  | v => if v.isLeftOut then some [] else none

/-- A field that is given at most once. -/
def field? {α : Type} (entries : List (Text × Yaml)) (name : String)
    (read : Yaml → Option (Option α)) : Option (Option α) :=
  match entries.filter fun entry => entry.1 == name.toList with
  | [] => some none
  | [(_, v)] => read v
  | _ => none

end Yaml

namespace Settings

open Yaml

def kind? (v : Yaml) : Option EntityKind :=
  case? (fun t => EntityKind.ofExactName? (String.ofList t)) v

def models? (d : Document) (v : Yaml) : Option ModelSettings := do
  let es ← entries? d v
  return {
    model := ← field? es "model" (optional text?)
    judgeModel := ← field? es "judge_model" (optional text?)
    apiBase := ← field? es "api_base" (optional text?)
    apiKeyVariable := ← field? es "api_key_env" (optional text?)
    temperature := ← field? es "temperature" (optional fun v => (float? v).map Float.toFloat32)
    price := ← field? es "cost_per_1k_tokens" (optional float?) }

def run? (d : Document) (v : Yaml) : Option RunSettings := do
  let es ← entries? d v
  return {
    kinds := ← field? es "entity_kinds" (optional (list? d kind?))
    exportsOnly := ← field? es "exports_only" (optional bool?)
    judge := ← field? es "judge" (optional bool?)
    maxEdits := ← field? es "max_edits" (optional nat?)
    maxContextTokens := ← field? es "max_context_tokens" (optional nat?)
    instructions := ← field? es "instructions" (optional text?)
    maxFileSize := ← field? es "max_file_size" (optional nat?)
    missing := ← field? es "missing" (optional bool?)
    update := ← field? es "update" (optional bool?)
    dryRun := ← field? es "dry_run" (optional bool?)
    mock := ← field? es "mock" (optional bool?) }

def ofValue? (d : Document) (v : Yaml) : Option Settings := do
  let es ← entries? d v
  let models ← field? es "llm" fun v => (models? d v).map some
  let run ← field? es "docs" fun v => (run? d v).map some
  return ⟨models.getD none.models, run.getD none.run⟩

/-- The settings of a document. An empty one says nothing. -/
def ofDocument? (d : Document) : Option Settings :=
  (optional (ofValue? d) d.root).map fun s => s.getD none

def read? (t : Text) : Option Settings := (Yaml.read? t).bind ofDocument?

end Settings

end DocComments
