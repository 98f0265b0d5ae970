import CurveArea.Text.Bordered
import Mathlib.Data.List.Basic

/-!
# Bordered tables of two columns

What a bordered table of two columns looks like, line by line: a line of the frame above, between
and below the rows, and each row with its cells filled up to the widest one of their column.
-/

namespace CurveArea.Text

/-- Lines as a text: each is closed by a line feed. -/
def unlines (lines : List String) : String := String.join (lines.map (· ++ "\n"))

theorem unlines_nil : unlines [] = "" := rfl

theorem unlines_cons (line : String) (lines : List String) :
    unlines (line :: lines) = line ++ "\n" ++ unlines lines := by
  rw [unlines, List.map_cons, String.join_cons, unlines]

theorem unlines_append (lines others : List String) :
    unlines (lines ++ others) = unlines lines ++ unlines others := by
  rw [unlines, List.map_append, String.join_append, unlines, unlines]

theorem intercalate_map_feed (between : String) (lines : List String) :
    (between ++ "\n").intercalate (lines.map (· ++ "\n")) =
      unlines (lines.intersperse between) := by
  induction lines with
  | nil => rfl
  | cons line rest ih =>
    cases rest with
    | nil => rw [List.map_singleton, String.intercalate_singleton, List.intersperse_singleton,
        unlines_cons, unlines_nil, String.append_empty]
    | cons next rest =>
      rw [List.map_cons] at ih
      rw [List.map_cons, List.map_cons, String.intercalate_cons_cons, ih,
        List.intersperse_cons_cons, unlines_cons, unlines_cons, String.append_assoc]

/-- The length of the longest of some cells. -/
def widest (cells : List String) : Nat := (cells.map String.length).foldr max 0

/-- A line of the frame over two columns. -/
def pairRule (left cross right : String) (w v : Nat) : String :=
  left ++ "".pushn '─' (w + 2) ++ cross ++ "".pushn '─' (v + 2) ++ right

/-- A row of two columns. -/
def pairRow (w v : Nat) (row : String × String) : String :=
  "│ " ++ row.1.pushn ' ' (w - row.1.length) ++ " │ " ++ row.2.pushn ' ' (v - row.2.length) ++ " │"

/-- The lines of a table of two columns. -/
def pairLines (rows : List (String × String)) : List String :=
  let w := widest (rows.map Prod.fst)
  let v := widest (rows.map Prod.snd)
  pairRule "╭" "┬" "╮" w v ::
    (rows.map (pairRow w v)).intersperse (pairRule "├" "┼" "┤" w v) ++ [pairRule "╰" "┴" "╯" w v]

theorem columnWidths_pairs {rows : List (String × String)} (some_row : rows ≠ []) :
    columnWidths (rows.map fun row => [row.1, row.2]) =
      [widest (rows.map Prod.fst), widest (rows.map Prod.snd)] := by
  induction rows with
  | nil => exact absurd rfl some_row
  | cons row rest ih =>
    cases rest with
    | nil => simp [columnWidths, columnWidths.widen, widest]
    | cons next rest =>
      rw [List.map_cons, columnWidths, ih (List.cons_ne_nil _ _)]
      rfl

theorem ruleLine_pair (left cross right : String) (w v : Nat) :
    ruleLine left cross right [w, v] = pairRule left cross right w v ++ "\n" := by
  rw [ruleLine, pairRule, List.map_cons, List.map_singleton, String.intercalate_cons_cons,
    String.intercalate_singleton]
  simp only [String.append_assoc]

theorem rowLine_pair (w v : Nat) (row : String × String) :
    rowLine [w, v] [row.1, row.2] = pairRow w v row ++ "\n" := by
  -- the blank behind a cell is one more of those that fill it up
  have filled (cell : String) (k : Nat) : cell.pushn ' ' (k + 1) = cell.pushn ' ' k ++ " " :=
    String.append_singleton.symm
  rw [rowLine, pairRow]
  simp only [List.zip_cons_cons, List.zip_nil_left, List.map_cons, List.map_nil, filled,
    String.intercalate_cons_cons, String.intercalate_singleton]
  have left : "│ " = "│" ++ " " := rfl
  have middle : " │ " = " " ++ ("│" ++ " ") := rfl
  have right : " │" ++ "\n" = " " ++ "│\n" := rfl
  simp only [String.append_assoc, left, middle, right]

/-- A bordered table of two columns is made of its lines. -/
theorem bordered_pairs {rows : List (String × String)} (some_row : rows ≠ []) :
    bordered (rows.map fun row => [row.1, row.2]) = unlines (pairLines rows) := by
  rw [bordered, columnWidths_pairs some_row, pairLines, unlines_append, unlines_cons,
    ← intercalate_map_feed]
  rw [ruleLine_pair, ruleLine_pair, ruleLine_pair, List.map_map, List.map_map, unlines_cons,
    unlines_nil, String.append_empty]
  have lines (w v : Nat) : (rowLine [w, v] ∘ fun row : String × String => [row.1, row.2]) =
      (· ++ "\n") ∘ pairRow w v :=
    funext (rowLine_pair w v)
  rw [lines]

end CurveArea.Text
