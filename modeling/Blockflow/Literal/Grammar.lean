import Blockflow.Literal.Scan
import Blockflow.Number.Reading
import Blockflow.Ty.Basic

/-!
# The grammar of literals

A type literal is first read as an expression, which keeps the places of names and vectors, and is
turned into a type afterwards.
-/

namespace Blockflow.Literal

open Blockflow.Number (isDigit)

/-- A part of a text, by bytes. -/
structure Span where
  start : Nat
  stop : Nat
  deriving DecidableEq, Repr

/-- A type as it is written. -/
inductive TypeExpr where
  | named (name : String) (span : Span)
  | vector (element : TypeExpr) (count : Nat) (simd : Bool) (span : Span)
  | struct (fields : List (Option String × TypeExpr))
  | pointer (flags : PointerFlags) (target : TypeExpr)
  | function (params : List TypeExpr) (result : TypeExpr)
  deriving Repr

namespace Scan

def isIdentifierStart (c : Char) : Bool :=
  ('a' ≤ c && c ≤ 'z') || ('A' ≤ c && c ≤ 'Z') || c == '_'

def isIdentifierPart (c : Char) : Bool := isIdentifierStart c || isDigit c

/-- A letter or underscore, then letters, digits and underscores. -/
def identifier : Scan String := do
  let first ← satisfying isIdentifierStart
  return String.ofList (first :: (← run isIdentifierPart))

/-- A number without leading zeros. -/
def wholeDigits : Scan (List Char) :=
  (do return [← char '0']).or
    (do
      let first ← satisfying fun c => '1' ≤ c && c ≤ '9'
      return first :: (← run isDigit))

def sign : Scan (List Char) := do return (← optional (char '-')).toList

/-- An integer of 64 bits. -/
def int : Scan Int := do
  let start ← here
  let sign ← sign
  let magnitude : Int := Number.ofDigits (← wholeDigits)
  if sign.isEmpty then
    if magnitude < 1 <<< 63 then return magnitude else overflow start .tooLarge
  else if magnitude ≤ 1 <<< 63 then return -magnitude
  else overflow start .tooSmall

/-- A decimal number, with an optional fraction and an optional exponent. -/
def float : Scan Float := do
  let sign ← sign
  let whole ← wholeDigits
  let fraction ← optional do
    let point ← char '.'
    return point :: (← run1 isDigit)
  let exponent ← optional do
    let mark ← satisfying fun c => c == 'e' || c == 'E'
    let sign ← optional (satisfying fun c => c == '+' || c == '-')
    return mark :: sign.toList ++ (← run1 isDigit)
  return Number.ofWritten (sign ++ whole ++ fraction.getD [] ++ exponent.getD [])

def bool : Scan Bool :=
  (do word "true".toList; return true).or (do word "false".toList; return false)

/-- A character of a text, which may be escaped. -/
def quotedChar : Scan Char :=
  (satisfying fun c => c != '\\' && c != '"').or do
    discard (char '\\')
    oneOf [do discard (char 'n'); return '\n', do discard (char 't'); return '\t', char '"',
      char '\\']

def quoted (length : Nat) : Scan String := do
  discard (char '"')
  let chars ← many quotedChar length
  discard (char '"')
  return String.ofList chars

def label : Scan String := do
  discard (char '#')
  identifier

/-- A number of 32 bits. -/
def count : Scan Nat := do
  let start ← here
  let n := Number.ofDigits (← wholeDigits)
  if n < 1 <<< 32 then return n else overflow start .tooLarge

/-- A flag of a pointer, with the blanks behind it. -/
def qualifier : Scan PointerFlags := do
  let flags ← (do word "const".toList; return PointerFlags.mk false true).or
    (do word "nocapture".toList; return PointerFlags.mk true false)
  discard (run1 Text.isBlank)
  return flags

/-- `fn(A, B) -> R`. -/
def functionExpr (ty : Scan TypeExpr) (fuel : Nat) : Scan TypeExpr := do
  word "fn".toList
  discard (char '(')
  let params ← items (padded ty) false fuel
  discard (char ')')
  padded (word "->".toList)
  return .function params (← ty)

/-- `*const T`. -/
def pointerExpr (ty : Scan TypeExpr) (fuel : Nat) : Scan TypeExpr := do
  discard (char '*')
  let flags ← many qualifier fuel
  return .pointer (flags.foldl PointerFlags.union {}) (← ty)

/-- `[T; n]` or `<T; n>`. -/
def vectorExpr (ty : Scan TypeExpr) (openMark closeMark : Char) (simd : Bool) : Scan TypeExpr := do
  let start ← here
  discard (char openMark)
  let element ← padded ty
  discard (char ';')
  let n ← padded count
  discard (char closeMark)
  return .vector element n simd ⟨start.offset, (← here).offset⟩

/-- A field: an optional name with a colon, then a type, with blanks around them. -/
def field (ty : Scan TypeExpr) : Scan (Option String × TypeExpr) := padded do
  let name ← optional do
    let name ← identifier
    discard (padded (char ':'))
    return name
  return (name, ← ty)

/-- `{a: T, b: U}` or `{T, U}`. -/
def structExpr (ty : Scan TypeExpr) (fuel : Nat) : Scan TypeExpr := do
  discard (char '\x7b')
  blanks
  let fields ← items (field ty) true fuel
  discard (char '\x7d')
  return .struct fields

def namedExpr : Scan TypeExpr := do
  let start ← here
  let name ← identifier
  return .named name ⟨start.offset, (← here).offset⟩

/-- A type literal. Every nested one starts further on, so the length of the text bounds the
nesting. -/
def typeExpr : Nat → Scan TypeExpr
  | 0 => refuse
  | fuel + 1 => fun cursor =>
    oneOf [functionExpr (typeExpr fuel) fuel, pointerExpr (typeExpr fuel) fuel,
      vectorExpr (typeExpr fuel) '[' ']' false, vectorExpr (typeExpr fuel) '<' '>' true,
      structExpr (typeExpr fuel) fuel, namedExpr] cursor

end Scan

end Blockflow.Literal
