import Blockflow.Text.Blank
import Blockflow.Text.Width

/-!
# Rows of a text

Every character that may end a line ends a row and belongs to it; no character is lost
(`flatten_cutRows`). Positions count characters.
-/

namespace Blockflow.Text

/-- Whether a character ends a row: line and form feeds, vertical tabs, carriage returns, and the
Unicode ends of lines and paragraphs. -/
def endsRow (c : Char) : Bool :=
  (0xA ≤ c.toNat && c.toNat ≤ 0xD) || c == '\u0085' || c == '\u2028' || c == '\u2029'

def cutRows : List Char → List (List Char)
  | [] => []
  | '\r' :: '\n' :: rest => ['\r', '\n'] :: cutRows rest
  | c :: rest =>
    if endsRow c then [c] :: cutRows rest
    else match cutRows rest with
      | [] => [[c]]
      | row :: rows => (c :: row) :: rows

theorem flatten_cutRows (text : List Char) : (cutRows text).flatten = text := by
  fun_induction cutRows text with
  | case1 => rfl
  | case2 rest ih => simp [ih]
  | case3 c rest _ _ ih => simp [ih]
  | case4 c rest _ _ rows ih => simp_all
  | case5 c rest _ _ row rows eq ih => simp_all

/-- A row with its number, counted from one, and the position of its first character. -/
structure Row where
  number : Nat
  offset : Nat
  chars : List Char
  deriving DecidableEq, Repr

def numberRows (number offset : Nat) : List (List Char) → List Row
  | [] => []
  | chars :: rest => ⟨number, offset, chars⟩ :: numberRows (number + 1) (offset + chars.length) rest

/-- The rows of a text; an empty text has one. -/
def rows (text : String) : List Row :=
  match cutRows text.toList with
  | [] => [⟨1, 0, []⟩]
  | cut => numberRows 1 0 cut

namespace Row

def stop (row : Row) : Nat := row.offset + row.chars.length

def contains (row : Row) (position : Nat) : Bool := row.offset ≤ position && position < row.stop

/-- The last row that starts at or before a position. The end of a text belongs to its last row, and
no row holds what lies beyond. -/
def holding? (rows : List Row) (position : Nat) : Option Row :=
  (rows.filter (·.offset ≤ position)).getLast?.filter (position ≤ ·.stop)

/-- The characters of the row that are shown: blanks at its end are not. -/
def shown (row : Row) : List Char := (row.chars.reverse.dropWhile isBlank).reverse

/-- Tabs reach to the next multiple of this column. -/
def tabStop : Nat := 4

/-- How many places a character takes at a column. -/
def placesOf (column : Nat) (c : Char) : Nat :=
  if c == '\t' then tabStop - column % tabStop
  else if isBlank c then 1
  else columns c

/-- The number of places of the first `count` columns; columns behind the text take one. -/
def places (row : Row) (count : Nat) : List Nat :=
  let shown := row.shown.zipIdx.map fun (c, column) => placesOf column c
  shown.take count ++ List.replicate (count - shown.length) 1

def text (row : Row) : String :=
  String.ofList <| row.shown.zipIdx.flatMap fun (c, column) =>
    if isBlank c then List.replicate (placesOf column c) ' ' else [c]

end Row

end Blockflow.Text
