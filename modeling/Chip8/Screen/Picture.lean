/-
# Pictures as text

A screen as lines of characters: a border line, the 32 lines of the screen between bars with `#`
for a lit cell and a blank for a dark one, and the border line again.
-/
import Chip8.Screen.Basic

namespace Chip8.Screen

/-- The character that stands for a cell. -/
def cellChar (lit : Bool) : Char := if lit then '#' else ' '

/-- The line above and below the picture. -/
def border : List Char := '+' :: List.replicate width '-' ++ ['+']

/-- A line of the screen between its bars. -/
def rowLine (row : List Bool) : List Char := '|' :: row.map cellChar ++ ['|']

/-- The lines of the picture. -/
def lines (s : Screen) : List (List Char) := border :: s.rows.map rowLine ++ [border]

/-- The picture, each line ended by a line feed. -/
def picture (s : Screen) : String := String.ofList (s.lines.flatMap (· ++ ['\n']))

end Chip8.Screen
