import DocComments.Declaration.Plan
import DocComments.Files.Path
import DocComments.Model.Usage

/-!
# Reports

What a pass over a file did with the declarations that it treated, and what a run over many files
did altogether.
-/

set_option autoImplicit false

namespace DocComments

structure PassReport where
  file : Path
  pass : Pass
  /-- the usage of drafts -/
  drafting : Usage
  /-- the usage of judgements -/
  judging : Usage
  /-- comments that were added -/
  generated : Nat
  /-- comments that were replaced -/
  updated : Nat
  /-- new comments that the judge refused -/
  refused : Nat
  /-- new versions of comments that the judge found no better -/
  nits : Nat
  /-- comments that stay as they are -/
  skipped : Nat
  /-- declarations that were given up -/
  failed : Nat
  /-- what would have been written, in a run that writes nothing -/
  diff : Option Text

namespace PassReport

def start (file : Path) (pass : Pass) : PassReport :=
  ⟨file, pass, .zero, .zero, 0, 0, 0, 0, 0, 0, none⟩

/-- The number of declarations with a new comment. -/
def edits (r : PassReport) : Nat := r.generated + r.updated

def absorb (r other : PassReport) : PassReport :=
  { r with
    drafting := r.drafting + other.drafting
    judging := r.judging + other.judging
    generated := r.generated + other.generated
    updated := r.updated + other.updated
    refused := r.refused + other.refused
    nits := r.nits + other.nits
    skipped := r.skipped + other.skipped
    failed := r.failed + other.failed }

end PassReport

structure RunReport where
  /-- the reports of the passes that came to an end, in order -/
  passes : List PassReport
  /-- the files that could not be read or written -/
  failedFiles : List Path
  /-- a declaration was left out because the budget was used up -/
  budgetExhausted : Bool

namespace RunReport

def start : RunReport := ⟨[], [], false⟩

def totalEdits (r : RunReport) : Nat := (r.passes.map PassReport.edits).foldr (· + ·) 0

def totals (r : RunReport) : PassReport :=
  r.passes.foldl PassReport.absorb (.start "total".toList .missing)

/-- What would have been written, in order. -/
def diffs (r : RunReport) : List Text := r.passes.filterMap PassReport.diff

end RunReport

end DocComments
