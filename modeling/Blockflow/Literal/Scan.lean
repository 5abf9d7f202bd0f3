import Blockflow.Diagnostic.Problem
import Blockflow.Text.Blank

/-!
# Scanners

A scanner reads a prefix of a text or declines. It also reports the furthest place at which anything
was refused, inside alternatives that were given up too: an error message points there.
-/

namespace Blockflow.Literal

/-- What is left of a text, and how many bytes came before. -/
structure Cursor where
  rest : List Char
  offset : Nat
  deriving DecidableEq, Repr

/-- A refused piece of text: `place` is how far the reader had come. -/
structure Miss where
  place : Nat
  start : Nat
  stop : Nat
  overflow : Option Overflow := none
  deriving DecidableEq, Repr

/-- The refusal that lies further on; at the same place an overflow, else the earlier one. -/
def Miss.further (a b : Miss) : Miss :=
  if a.place < b.place || (a.place = b.place && a.overflow.isNone && b.overflow.isSome) then b else
    a

/-- The miss that is reported. -/
def furthest : Option Miss → Option Miss → Option Miss
  | none, b => b
  | a, none => a
  | some a, some b => some (a.further b)

/-- A reader of texts. It answers what it read, and the furthest place where something was
missed. -/
def Scan (α : Type) := Cursor → Option (α × Cursor) × Option Miss

namespace Scan

variable {α β : Type}

/-- The text is refused at the cursor, which covers one character or none at the end. -/
def refuse : Scan α := fun cursor =>
  let width := match cursor.rest with
    | c :: _ => c.utf8Size
    | [] => 0
  (none, some { place := cursor.offset, start := cursor.offset, stop := cursor.offset + width })

protected def pure (a : α) : Scan α := fun cursor => (some (a, cursor), none)

protected def bind (p : Scan α) (f : α → Scan β) : Scan β := fun cursor =>
  match p cursor with
  | (none, miss) => (none, miss)
  | (some (a, cursor), miss) =>
    let (result, later) := f a cursor
    (result, furthest miss later)

instance : Monad Scan where
  pure := Scan.pure
  bind := Scan.bind

/-- The second scanner reads where the first one declines. -/
def or (p q : Scan α) : Scan α := fun cursor =>
  match p cursor with
  | (some result, miss) => (some result, miss)
  | (none, miss) =>
    let (result, later) := q cursor
    (result, furthest miss later)

/-- The first of several readers that succeeds. -/
def oneOf : List (Scan α) → Scan α
  | [] => refuse
  | [p] => p
  | p :: ps => p.or (oneOf ps)

/-- Goes back if the scan fails. -/
def optional (p : Scan α) : Scan (Option α) :=
  (do return some (← p)).or (pure none)

def satisfying (accepts : Char → Bool) : Scan Char := fun cursor =>
  match cursor.rest with
  | c :: rest =>
    if accepts c then (some (c, ⟨rest, cursor.offset + c.utf8Size⟩), none) else refuse cursor
  | [] => refuse cursor

def char (c : Char) : Scan Char := satisfying (· == c)

/-- A fixed word; it is refused at its first character that differs. -/
def word : List Char → Scan Unit
  | [] => pure ()
  | c :: cs => do
    discard (char c)
    word cs

def byteLength (chars : List Char) : Nat := chars.foldl (fun n c => n + c.utf8Size) 0

/-- All characters that are accepted. -/
def run (accepts : Char → Bool) : Scan (List Char) := fun cursor =>
  let taken := cursor.rest.takeWhile accepts
  (some (taken, ⟨cursor.rest.dropWhile accepts, cursor.offset + byteLength taken⟩), none)

/-- At least one character that is accepted. -/
def run1 (accepts : Char → Bool) : Scan (List Char) := do
  let first ← satisfying accepts
  return first :: (← run accepts)

/-- Any number of them. -/
def blanks : Scan Unit := discard (run Text.isBlank)

/-- With blanks around it. -/
def padded (p : Scan α) : Scan α := do
  blanks
  let a ← p
  blanks
  return a

/-- What `p` reads as often as it can, at most `fuel` times. -/
def many (p : Scan α) : Nat → Scan (List α)
  | 0 => pure []
  | fuel + 1 => do
    match ← optional p with
    | none => return []
    | some a => return a :: (← many p fuel)

/-- Further items behind commas. A comma without an item is given back, or kept where a trailing
comma is allowed. -/
def moreItems (p : Scan α) (trailing : Bool) : Nat → Scan (List α)
  | 0 => pure []
  | fuel + 1 =>
    let item : Scan (Option α) := do
      discard (char ',')
      return some (← p)
    let comma : Scan (Option α) := do
      discard (char ',')
      return none
    do
      match ← optional (if trailing then item.or comma else item) with
      | some (some a) => return a :: (← moreItems p trailing fuel)
      | _ => return []

/-- Items with commas between them. -/
def items (p : Scan α) (trailing : Bool) : Nat → Scan (List α)
  | 0 => pure []
  | fuel + 1 => do
    match ← optional p with
    | none => return []
    | some a => return a :: (← moreItems p trailing fuel)

def here : Scan Cursor := fun cursor => (some (cursor, cursor), none)

/-- A number that does not fit: it was read up to here from `start`. -/
def overflow (start : Cursor) (how : Overflow) : Scan α := fun cursor =>
  (none, some { place := cursor.offset, start := start.offset, stop := cursor.offset,
                overflow := some how })

/-- The text ends here. -/
def finish : Scan Unit := fun cursor =>
  if cursor.rest.isEmpty then (some ((), cursor), none) else refuse cursor

/-- Read a whole text. -/
def parse (p : Scan α) (text : String) : Except (Option Miss) α :=
  let whole : Scan α := do
    let a ← padded p
    finish
    return a
  match whole ⟨text.toList, 0⟩ with
  | (some (a, _), _) => .ok a
  | (none, miss) => .error miss

end Scan

end Blockflow.Literal
