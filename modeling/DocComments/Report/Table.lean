import DocComments.Decimal.Fixed
import DocComments.Report.Basic

/-!
# The table of a run

One row for each pass over a file and one for the sums. Names stand at the left of their columns and
numbers at the right.
-/

set_option autoImplicit false

namespace DocComments

namespace Table

abbrev Row := List Text

def titles : Row :=
  ["file", "mode", "gen tokens", "gen cost", "judge tokens", "judge cost", "generated", "updated",
    "refused", "nits", "skipped", "failed"].map String.toList

def nameColumns : Nat := 2

/-- Costs have four places. -/
def cost (x : Float) : Text := (Decimal.fixed 4 x).toList

def count (n : Nat) : Text := (toString n).toList

def row (r : PassReport) (mode : String) : Row :=
  [r.file, mode.toList, count r.drafting.tokens, cost r.drafting.cost, count r.judging.tokens,
    cost r.judging.cost, count r.generated, count r.updated, count r.refused, count r.nits,
    count r.skipped, count r.failed]

/-- The width of each column, from the rows on top of each other. -/
def widths (rows : List Row) : List Nat :=
  rows.foldl (fun ws row => List.zipWith (fun w cell => max w cell.length) ws row)
    (titles.map List.length)

def pad (column width : Nat) (cell : Text) : Text :=
  let blanks := List.replicate (width - cell.length) ' '
  if column < nameColumns then cell ++ blanks else blanks ++ cell

def padAll (column : Nat) : List Nat → Row → Row
  | w :: ws, cell :: cells => pad column w cell :: padAll (column + 1) ws cells
  | _, _ => []

def line (ws : List Nat) (row : Row) : Text :=
  Text.trimEnd (List.intercalate " | ".toList (padAll 0 ws row)) ++ ['\n']

/-- The line below the titles. -/
def ruler (ws : List Nat) : Text :=
  List.intercalate "-+-".toList (ws.map fun w => List.replicate w '-') ++ ['\n']

end Table

def RunReport.table (r : RunReport) : Text :=
  let rows := r.passes.map (fun p => Table.row p p.pass.name) ++ [Table.row r.totals ""]
  let ws := Table.widths rows
  Table.line ws Table.titles ++ Table.ruler ws ++ rows.flatMap (Table.line ws)

end DocComments
