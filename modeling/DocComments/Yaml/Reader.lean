import DocComments.Yaml.Layout

/-!
# Reading YAML

Puts the tokens of a document together. The functions take fuel, of which every token needs a
bounded amount; `Yaml.read?` gives them enough.

A name gets the number of names that are known in front of it, so that a name given again shares
its number with the next new one. The last value that gets a number keeps it.
-/

set_option autoImplicit false

namespace DocComments

namespace Yaml

/-! ## Names of values -/

/-- What is known of the names of values. -/
structure Names where
  /-- the names and their numbers -/
  numbers : List (Text × Nat)
  /-- the numbers and their values, which are counted in the order in which they begin; the last one
  first -/
  holders : List (Nat × Nat)
  /-- the values that are complete, by their count -/
  values : List (Nat × Yaml)

namespace Names

def empty : Names := ⟨[], [], []⟩

def declare (names : Names) (name : Text) : Names :=
  let number := names.numbers.length
  { names with
    numbers := (name, number) :: names.numbers.filter fun entry => entry.1 != name
    holders := (number, names.holders.length) :: names.holders }

/-- The value is complete that began as the given one. -/
def complete (names : Names) (count : Nat) (v : Yaml) : Names :=
  { names with values := (count, v) :: names.values }

/-- The value of each number. -/
def named (names : Names) : List (Nat × Yaml) :=
  names.holders.filterMap fun (number, count) => (names.values.lookup count).map fun v => (number, v)

end Names

/-! ## Values -/

/-- What was read, the names known behind it, and the tokens that follow. -/
abbrev Parsed (α : Type) := α × Names × List Token

def nextIn (ts : List Token) (tokens : List Token) : Bool := tokens.head?.any ts.contains

/-- The name and the tag in front of a value, in either order, and the tokens that follow. -/
def properties : List Token → Option Text × Option WrittenTag × List Token
  | .anchor name :: .tag t :: rest | .tag t :: .anchor name :: rest => (some name, some t, rest)
  | .anchor name :: rest => (some name, none, rest)
  | .tag t :: rest => (none, some t, rest)
  | rest => (none, none, rest)

/-- The tag of a value, if its handle stands for something. -/
def resolveTag? (handles : Handles) : Option WrittenTag → Option (Option Tag)
  | none => some none
  | some t => (t.resolve? handles).map some

mutual

/-- A value, with a name or without. `block` allows values told by indentation, `dashes` a sequence
that is not indented. -/
def node (handles : Handles) (block dashes : Bool) : Nat → Names → List Token → Option (Parsed Yaml)
  | 0, _, _ => none
  | fuel + 1, names, tokens =>
    match tokens with
    | .reference name :: rest =>
      (names.numbers.lookup name).map fun number => (reference number, names, rest)
    | _ => do
      let (name, written, rest) := properties tokens
      let tag ← resolveTag? handles written
      match name with
      | none => content handles tag tag.isSome block dashes fuel names rest
      | some name =>
        let count := names.holders.length
        let (v, names, rest) ← content handles tag true block dashes fuel (names.declare name) rest
        return (v, names.complete count v, rest)

/-- A value behind its name and its tag. If it has one of them, it may be missing. -/
def content (handles : Handles) (tag : Option Tag) (isMarked block dashes : Bool) :
    Nat → Names → List Token → Option (Parsed Yaml)
  | 0, _, _ => none
  | fuel + 1, names, tokens =>
    match tokens with
    | .scalar style text :: rest => some (scalar tag style text, names, rest)
    | .flowSequence :: rest => do
      let (items, names, rest) ← flowItems handles true fuel names rest
      return (sequence items, names, rest)
    | .flowMapping :: rest => do
      let (entries, names, rest) ← flowEntries handles true fuel names rest
      return (mapping entries, names, rest)
    | .item :: _ =>
      if dashes then do
        let (items, names, rest) ← dashItems handles fuel names tokens
        return (sequence items, names, rest)
      else if isMarked then some (scalar tag .plain [], names, tokens)
      else none
    | .blockSequence :: rest =>
      if block then do
        let (items, names, rest) ← blockItems handles fuel names rest
        return (sequence items, names, rest)
      else if isMarked then some (scalar tag .plain [], names, tokens)
      else none
    | .blockMapping :: rest =>
      if block then do
        let (entries, names, rest) ← blockEntries handles fuel names rest
        return (mapping entries, names, rest)
      else if isMarked then some (scalar tag .plain [], names, tokens)
      else none
    | _ => if isMarked then some (scalar tag .plain [], names, tokens) else none

def blockItems (handles : Handles) : Nat → Names → List Token → Option (Parsed (List Yaml))
  | 0, _, _ => none
  | fuel + 1, names, tokens =>
    match tokens with
    | .item :: rest => do
      let (v, names, rest) ←
        if nextIn [.item, .blockEnd] rest then some (missing, names, rest)
        else node handles true false fuel names rest
      let (items, names, rest) ← blockItems handles fuel names rest
      return (v :: items, names, rest)
    | .blockEnd :: rest => some ([], names, rest)
    | _ => none

/-- The items of a sequence in a mapping that is not indented further. -/
def dashItems (handles : Handles) : Nat → Names → List Token → Option (Parsed (List Yaml))
  | 0, _, _ => none
  | fuel + 1, names, tokens =>
    match tokens with
    | .item :: rest => do
      let (v, names, rest) ←
        if nextIn [.item, .key, .value, .blockEnd] rest then some (missing, names, rest)
        else node handles true false fuel names rest
      let (items, names, rest) ← dashItems handles fuel names rest
      return (v :: items, names, rest)
    | _ => some ([], names, tokens)

def blockEntries (handles : Handles) :
    Nat → Names → List Token → Option (Parsed (List (Yaml × Yaml)))
  | 0, _, _ => none
  | fuel + 1, names, tokens =>
    match tokens with
    | .key :: rest => do
      let (k, names, rest) ← blockPart handles fuel names rest
      let (v, names, rest) ←
        match rest with
        | .value :: rest => blockPart handles fuel names rest
        | _ => some (missing, names, rest)
      let (entries, names, rest) ← blockEntries handles fuel names rest
      return ((k, v) :: entries, names, rest)
    | .blockEnd :: rest => some ([], names, rest)
    | _ => none

def blockPart (handles : Handles) : Nat → Names → List Token → Option (Parsed Yaml)
  | 0, _, _ => none
  | fuel + 1, names, tokens =>
    if nextIn [.key, .value, .blockEnd] tokens then some (missing, names, tokens)
    else node handles true true fuel names tokens

/-- The items of a sequence in brackets. Behind the first one stands a comma. A question mark
without a key takes the token behind it along. -/
def flowItems (handles : Handles) (first : Bool) :
    Nat → Names → List Token → Option (Parsed (List Yaml))
  | 0, _, _ => none
  | fuel + 1, names, tokens =>
    match tokens with
    | .flowSequenceEnd :: rest => some ([], names, rest)
    | _ => do
      let tokens ←
        match first, tokens with
        | true, _ => some tokens
        | false, .comma :: rest => some rest
        | false, _ => none
      match tokens with
      | .flowSequenceEnd :: rest => some ([], names, rest)
      | .key :: rest => do
        let (k, names, rest) ←
          if nextIn [.value, .comma, .flowSequenceEnd] rest then some (missing, names, rest.drop 1)
          else node handles false false fuel names rest
        let (v, names, rest) ← flowValue handles [.comma, .flowSequenceEnd] fuel names rest
        let (items, names, rest) ← flowItems handles false fuel names rest
        return (mapping [(k, v)] :: items, names, rest)
      | _ => do
        let (v, names, rest) ← node handles false false fuel names tokens
        let (items, names, rest) ← flowItems handles false fuel names rest
        return (v :: items, names, rest)

/-- The entries of a mapping in braces. Behind the first one stands a comma. -/
def flowEntries (handles : Handles) (first : Bool) :
    Nat → Names → List Token → Option (Parsed (List (Yaml × Yaml)))
  | 0, _, _ => none
  | fuel + 1, names, tokens =>
    match tokens with
    | .flowMappingEnd :: rest => some ([], names, rest)
    | _ => do
      let tokens ←
        match first, tokens with
        | true, _ => some tokens
        | false, .comma :: rest => some rest
        | false, _ => none
      match tokens with
      | .flowMappingEnd :: rest => some ([], names, rest)
      | .key :: rest => do
        let (k, names, rest) ←
          if nextIn [.value, .comma, .flowMappingEnd] rest then some (missing, names, rest)
          else node handles false false fuel names rest
        let (v, names, rest) ← flowValue handles [.comma, .flowMappingEnd] fuel names rest
        let (entries, names, rest) ← flowEntries handles false fuel names rest
        return ((k, v) :: entries, names, rest)
      | _ => do
        let (k, names, rest) ← node handles false false fuel names tokens
        let (entries, names, rest) ← flowEntries handles false fuel names rest
        return ((k, missing) :: entries, names, rest)

/-- The value behind a key in brackets or braces, if there is one in front of the tokens that end
the entry. -/
def flowValue (handles : Handles) (ends : List Token) :
    Nat → Names → List Token → Option (Parsed Yaml)
  | 0, _, _ => none
  | fuel + 1, names, tokens =>
    match tokens with
    | .value :: rest =>
      if nextIn ends rest then some (missing, names, rest)
      else node handles false false fuel names rest
    | _ => some (missing, names, tokens)

end

/-! ## Documents -/

def fuelPerToken : Nat := 4

def documentValue (handles : Handles) (tokens : List Token) : Option (Document × List Token) :=
  (node handles true false (fuelPerToken * (tokens.length + 1)) .empty tokens).map
    fun (v, names, rest) => (⟨v, names.named⟩, rest)

def Token.isOutside : Token → Bool
  | version _ _ | handle _ _ | documentStart | documentEnd => true
  | _ => false

/-- The directives in front of a document: the handles that they give, and the tokens that follow.
`versioned` says that the version has been given. Nothing may be given twice. -/
def directives (versioned : Bool) (handles : Handles) : List Token → Option (Handles × List Token)
  | .version major minor :: rest =>
    if versioned ∨ major ≠ 1 ∨ (minor ≠ 1 ∧ minor ≠ 2) then none else directives true handles rest
  | .handle name beginning :: rest =>
    if handles.any fun entry => entry.1 == name then none
    else directives versioned ((name, beginning) :: handles) rest
  | rest => some (handles, rest)

/-- The document at the head of some tokens, and those that follow. Directives ask for a mark. -/
def document? : List Token → Option (Document × List Token)
  | [] => some (⟨missing, []⟩, [])
  | .documentEnd :: _ => none
  | t :: rest =>
    if t.isOutside then
      match directives false [] (t :: rest) with
      | some (handles, .documentStart :: rest) =>
        if rest.head?.all Token.isOutside then some (⟨missing, []⟩, rest)
        else documentValue (handles ++ commonHandles) rest
      | _ => none
    else documentValue commonHandles (t :: rest)

def ofTokens? (tokens : List Token) : Option Document := do
  let (d, rest) ← document? tokens
  if rest.all (· == .documentEnd) then return d else none

def read? (t : Text) : Option Document := (tokens? t).bind ofTokens?

end Yaml

end DocComments
