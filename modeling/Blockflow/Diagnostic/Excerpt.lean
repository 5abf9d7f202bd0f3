import Blockflow.Text.Row

/-!
# Excerpts

An excerpt shows a span of a text with a message.
-/

namespace Blockflow.Diagnostic

/-- A part of a text and the rows that it is in. -/
structure Excerpt where
  start : Nat
  stop : Nat
  first : Text.Row
  last : Text.Row
  deriving DecidableEq, Repr

namespace Excerpt

/-- The excerpt of a span. There is none if the span starts behind the end of the text or reaches
further than one position beyond it. -/
def of? (text : String) (start stop : Nat) : Option Excerpt := do
  let rows := Text.rows text
  let first ← Text.Row.holding? rows start
  let last ← if start < stop then Text.Row.holding? rows (stop - 1) else some first
  return { start, stop, first, last }

/-- What is drawn below a column: one character at its first place, and another at the places that a
wide column has besides. -/
structure Mark where
  head : Char
  fill : Char

namespace Mark

def blank : Mark := ⟨' ', ' '⟩

def line : Mark := ⟨'─', '─'⟩

def draw (mark : Mark) : Nat → List Char
  | 0 => []
  | places + 1 => mark.head :: List.replicate places mark.fill

end Mark

/-- Marks below the columns of a row. -/
def drawBelow (row : Text.Row) (count : Nat) (mark : Nat → Mark) : String :=
  String.ofList <| (row.places count).zipIdx.flatMap fun (places, column) =>
    (mark column).draw places

def spaces (count : Nat) : String := String.ofList (List.replicate count ' ')

/-- Lines reach two columns beyond what they mark. -/
def overhang : Nat := 2

def digits (excerpt : Excerpt) : Nat := (toString excerpt.last.number).length

def margin (excerpt : Excerpt) (bar : String) : String := spaces (excerpt.digits + 2) ++ bar

def numbered (excerpt : Excerpt) (row : Text.Row) : String :=
  let number := toString row.number
  " " ++ spaces (excerpt.digits - number.length) ++ number ++ " │"

def middle (excerpt : Excerpt) : Nat := max ((excerpt.start + excerpt.stop) / 2) excerpt.start

/-- The mark below a position: a line under the span that opens downwards at its middle, or a bar
where an empty span stands. -/
def underline (excerpt : Excerpt) (position : Nat) : Mark :=
  if position = excerpt.middle then if excerpt.start < excerpt.stop then ⟨'┬', '─'⟩ else ⟨'│', ' '⟩
  else if excerpt.start ≤ position ∧ position < excerpt.stop then .line
  else .blank

/-- The mark that leads from the middle to the message. -/
def pointer (excerpt : Excerpt) (position : Nat) : Mark :=
  if position = excerpt.middle then ⟨'╰', '─'⟩
  else if excerpt.middle < position then .line
  else .blank

/-- A span within one row. The row is left out if the span reaches beyond it. -/
def singleRow (excerpt : Excerpt) (message : String) : List String :=
  let row := excerpt.first
  if row.stop < excerpt.stop then [excerpt.margin "│ "]
  else
    let count := excerpt.stop - row.offset + overhang
    [ s!"{excerpt.numbered row} {row.text}",
      excerpt.margin "│ " ++ drawBelow row count fun column =>
      excerpt.underline (row.offset + column),
      excerpt.margin "│ " ++
        (drawBelow row count fun column => excerpt.pointer (row.offset + column))
        ++ " " ++ message ]

/-- A span over several rows. One line stands for all rows that are left out; the last row is one of
them if the span reaches beyond it. -/
def severalRows (excerpt : Excerpt) (message : String) : List String :=
  let row := excerpt.last
  let isClosed := row.contains (excerpt.stop - 1)
  let isBroken := excerpt.first.number + 1 < row.number || !isClosed
  let count := row.chars.length + overhang
  [s!"{excerpt.numbered excerpt.first} ╭─▶ {excerpt.first.text}"]
    ++ (if isBroken then [excerpt.margin "┆ ┆   "] else [])
    ++ (if isClosed then
        [ s!"{excerpt.numbered row} ├─▶ {row.text}",
          excerpt.margin "│ │   " ++ drawBelow row count fun _ => .blank,
          excerpt.margin "│ ╰───" ++ (drawBelow row count fun _ => .line) ++ " " ++ message ]
      else [])

/-- The rows with marks and a message below them. -/
def lines (excerpt : Excerpt) (name message : String) : List String :=
  let place := s!"{name}:{excerpt.first.number}:{excerpt.start - excerpt.first.offset + 1}"
  [excerpt.margin s!"╭─[ {place} ]", excerpt.margin "│"]
    ++ (if excerpt.first.number = excerpt.last.number then excerpt.singleRow message
      else excerpt.severalRows message)
    ++ [String.ofList (List.replicate (excerpt.digits + 2) '─') ++ "╯"]

end Excerpt

end Blockflow.Diagnostic
