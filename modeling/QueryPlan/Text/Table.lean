import QueryPlan.Text.Width

/-!
# Tables

A table has a head and rows of cells. Each column is as wide as its widest cell, with one blank on
both sides; a cell with line breaks takes up several lines.
-/

namespace QueryPlan.Text

structure Table where
  head : List String
  rows : List (List String)

namespace Table

def cellLines (cell : String) : List String := cell.splitOn "\n"

def cellWidth (cell : String) : Nat :=
  (cellLines cell).foldl (fun widest line => max widest (displayWidth line)) 0

/-- The greater width at each place, as far as the head goes. -/
def widen : List Nat → List String → List Nat
  | [], _ => []
  | w :: ws, [] => w :: ws
  | w :: ws, cell :: cells => max w (cellWidth cell) :: widen ws cells

def widths (t : Table) : List Nat := t.rows.foldl widen (t.head.map cellWidth)

/-- A line across the table: its ends, what it is drawn with, and its crossings. -/
def rule (left fill cross right : String) (widths : List Nat) : String :=
  left ++ cross.intercalate (widths.map fun w => String.join (List.replicate (w + 2) fill)) ++ right

/-- The text with blanks after it up to a width. -/
def padRight (width : Nat) (s : String) : String :=
  s ++ String.ofList (List.replicate (width - displayWidth s) ' ')

/-- One line of a row: the `n`-th line of each cell. -/
def rowLine (widths : List Nat) (row : List String) (n : Nat) : String :=
  let cells := widths.zipWith
    (fun w cell => " " ++ padRight w ((cellLines cell)[n]?.getD "") ++ " ") row
  "│" ++ "┆".intercalate cells ++ "│"

/-- All lines of a row, as many as its highest cell has. -/
def rowLines (widths : List Nat) (row : List String) : List String :=
  let height := row.foldl (fun highest cell => max highest (cellLines cell).length) 1
  (List.range height).map (rowLine widths row)

def lines (t : Table) : List String :=
  let widths := t.widths
  [rule "┌" "─" "┬" "┐" widths] ++ rowLines widths t.head ++ [rule "╞" "═" "╪" "╡" widths] ++
    (t.rows.map (rowLines widths)).flatten ++ [rule "└" "─" "┴" "┘" widths]

def text (t : Table) : String := "\n".intercalate t.lines

end Table

end QueryPlan.Text
