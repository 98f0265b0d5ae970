/-!
# Bordered tables

A table of text in a frame with rounded corners. Every column is as wide as its widest cell, cells
start at the left with one space on either side, and a line separates the rows.
-/

namespace CurveArea.Text

/-- The width of each column: that of its widest cell. -/
def columnWidths : List (List String) → List Nat
  | [] => []
  | row :: rest => widen (row.map String.length) (columnWidths rest)
where
  widen : List Nat → List Nat → List Nat
    | w :: ws, v :: vs => max w v :: widen ws vs
    | ws, [] => ws
    | [], vs => vs

/-- A line of the frame between two rows, from its left end to its right end. -/
def ruleLine (left cross right : String) (widths : List Nat) : String :=
  left ++ cross.intercalate (widths.map fun w => "".pushn '─' (w + 2)) ++ right ++ "\n"

/-- A row: each cell filled up to the width of its column. -/
def rowLine (widths : List Nat) (cells : List String) : String :=
  "│" ++ "│".intercalate
    (widths.zip cells |>.map fun (w, cell) => " " ++ cell.pushn ' ' (w - cell.length + 1)) ++
      "│\n"

/-- A table in a frame. -/
def bordered (rows : List (List String)) : String :=
  let widths := columnWidths rows
  ruleLine "╭" "┬" "╮" widths ++
    (ruleLine "├" "┼" "┤" widths).intercalate (rows.map (rowLine widths)) ++
      ruleLine "╰" "┴" "╯" widths

end CurveArea.Text
