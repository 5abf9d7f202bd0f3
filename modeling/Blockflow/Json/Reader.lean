import Blockflow.Json.Basic
import Blockflow.Number.Reading

/-!
# Reading JSON

A part that is well formed but has no value does no harm as long as nobody asks for it: a number
beyond binary64, half of a surrogate pair, nesting more than 127 deep. `Json.parse?` refuses such
parts.
-/

namespace Blockflow.Json.Reader

open Blockflow.Number (isDigit)

def isBlank (c : Char) : Bool := c == ' ' || c == '\n' || c == '\t' || c == '\r'

def skipBlanks (text : List Char) : List Char := text.dropWhile isBlank

def hexDigit? (c : Char) : Option Nat :=
  if isDigit c then some (c.toNat - '0'.toNat)
  else if 'a' ≤ c && c ≤ 'f' then some (c.toNat - 'a'.toNat + 10)
  else if 'A' ≤ c && c ≤ 'F' then some (c.toNat - 'A'.toNat + 10)
  else none

/-- Four digits of an escaped character. -/
def unit? : List Char → Option (Nat × List Char)
  | a :: b :: c :: d :: rest => do
    let a ← hexDigit? a
    let b ← hexDigit? b
    let c ← hexDigit? c
    let d ← hexDigit? d
    some (((a * 16 + b) * 16 + c) * 16 + d, rest)
  | _ => none

/-- A character escaped by its number; numbers above 16 bits take two halves, and one half alone is
no character. -/
def escapedUnit? (text : List Char) : Option (Option Char × List Char) := do
  let (first, rest) ← unit? text
  if 0xDC00 ≤ first && first ≤ 0xDFFF then some (none, rest)
  else if 0xD800 ≤ first && first ≤ 0xDBFF then
    match rest with
    | '\\' :: 'u' :: tail =>
      let (second, tail) ← unit? tail
      if 0xDC00 ≤ second && second ≤ 0xDFFF then
        some (Char.ofNat (0x10000 + (first - 0xD800) * 1024 + (second - 0xDC00)), tail)
      else some (none, rest)
    | _ => some (none, rest)
  else some (Char.ofNat first, rest)

/-- The character behind a backslash; half of a pair is none. -/
def escaped? : List Char → Option (Option Char × List Char)
  | '"' :: rest => some ('"', rest)
  | '\\' :: rest => some ('\\', rest)
  | '/' :: rest => some ('/', rest)
  | 'b' :: rest => some ('\x08', rest)
  | 'f' :: rest => some ('\x0c', rest)
  | 'n' :: rest => some ('\n', rest)
  | 'r' :: rest => some ('\r', rest)
  | 't' :: rest => some ('\t', rest)
  | 'u' :: rest => escapedUnit? rest
  | _ => none

/-- The rest of a string behind its opening quote. `seen` holds its characters in reverse, unless an
escape stands for none. -/
def stringBody : Nat → Option (List Char) → List Char → Option (Option String × List Char)
  | 0, _, _ => none
  | _ + 1, _, [] => none
  | fuel + 1, seen, c :: rest =>
    if c == '"' then some (seen.map fun seen => String.ofList seen.reverse, rest)
    else if c == '\\' then
      match escaped? rest with
      | some (some c, rest) => stringBody fuel (seen.map (c :: ·)) rest
      | some (none, rest) => stringBody fuel none rest
      | none => none
    else if c.toNat < 0x20 then none
    else stringBody fuel (seen.map (c :: ·)) rest

/-- A string behind its opening quote, and whether it has a value. -/
def string? (text : List Char) : Option (Option String × List Char) :=
  stringBody (text.length + 1) (some []) text

/-- The digits of a whole number: a zero alone, or digits that start with another one. -/
def wholeDigits? (text : List Char) : Option (List Char × List Char) :=
  match text with
  | '0' :: rest =>
    match rest with
    | c :: _ => if isDigit c then none else some (['0'], rest)
    | [] => some (['0'], rest)
  | c :: _ => if isDigit c then some (text.takeWhile isDigit, text.dropWhile isDigit) else none
  | [] => none

/-- A part of a number that is optional but must have digits when it starts. -/
def digits? (text : List Char) : Option (List Char × List Char) :=
  let digits := text.takeWhile isDigit
  if digits.isEmpty then none else some (digits, text.dropWhile isDigit)

def fraction? : List Char → Option (List Char × List Char)
  | '.' :: rest => (digits? rest).map fun (digits, rest) => ('.' :: digits, rest)
  | rest => some ([], rest)

def exponent? : List Char → Option (List Char × List Char)
  | c :: rest =>
    if c == 'e' || c == 'E' then
      let (sign, rest) :=
        match rest with
        | '+' :: tail => (['+'], tail)
        | '-' :: tail => (['-'], tail)
        | tail => ([], tail)
      (digits? rest).map fun (digits, rest) => (c :: sign ++ digits, rest)
    else some ([], c :: rest)
  | [] => some ([], [])

/-- A written number as a value. Whole numbers of 64 bits are kept exactly; any other number must
lie in the range of binary64. -/
def ofSpelling (negative : Bool) (whole fraction exponent : List Char) : Json :=
  let magnitude := Number.ofDigits whole
  let spelling := (if negative then ['-'] else []) ++ whole ++ fraction ++ exponent
  if fraction.isEmpty && exponent.isEmpty && !negative && magnitude < 1 <<< 64 then
    .integer magnitude
  else if fraction.isEmpty && exponent.isEmpty && negative && 0 < magnitude &&
    magnitude ≤ 1 <<< 63 then
    .integer (-magnitude)
  else if Number.isInfiniteWord (Number.ofWritten spelling).toBits then .unusable
  else .real (String.ofList spelling)

/-- A number; one with a fraction or an exponent keeps its spelling. -/
def number? (text : List Char) : Option (Json × List Char) := do
  let (negative, text) := match text with
    | '-' :: rest => (true, rest)
    | rest => (false, rest)
  let (whole, text) ← wholeDigits? text
  let (fraction, text) ← fraction? text
  let (exponent, text) ← exponent? text
  some (ofSpelling negative whole fraction exponent, text)

def word? : List Char → List Char → Option (List Char)
  | [], text => some text
  | c :: word, d :: text => if c == d then word? word text else none
  | _ :: _, [] => none

/-- An array or object where `depth` levels of nesting are left. -/
def nestedAt : Nat → Json → Json
  | 0, _ => .unusable
  | _ + 1, value => value

mutual

/-- A value at the start of the text, with `depth` further levels of nesting allowed. -/
def value? : Nat → Nat → List Char → Option (Json × List Char)
  | 0, _, _ => none
  | fuel + 1, depth, text =>
    match skipBlanks text with
    | '"' :: rest => (string? rest).map fun (value, rest) => (value.elim .unusable .string, rest)
    | '[' :: rest =>
      match skipBlanks rest with
      | ']' :: rest => some (nestedAt depth (.array []), rest)
      | rest => (items? fuel (depth - 1) [] rest).map fun (value, rest) =>
        (nestedAt depth value, rest)
    | '\x7b' :: rest =>
      match skipBlanks rest with
      | '\x7d' :: rest => some (nestedAt depth (.object []), rest)
      | rest =>
        (members? fuel (depth - 1) (some []) rest).map fun (value, rest) =>
          (nestedAt depth value, rest)
    | 'n' :: rest => (word? "ull".toList rest).map fun rest => (.null, rest)
    | 't' :: rest => (word? "rue".toList rest).map fun rest => (.bool true, rest)
    | 'f' :: rest => (word? "alse".toList rest).map fun rest => (.bool false, rest)
    | text => number? text

/-- The items of an array up to its closing bracket; `seen` holds the earlier ones in reverse. -/
def items? : Nat → Nat → List Json → List Char → Option (Json × List Char)
  | 0, _, _, _ => none
  | fuel + 1, depth, seen, text =>
    match value? fuel depth text with
    | none => none
    | some (item, rest) =>
      match skipBlanks rest with
      | ',' :: rest => items? fuel depth (item :: seen) rest
      | ']' :: rest => some (.array (item :: seen).reverse, rest)
      | _ => none

/-- The members of an object up to its closing brace. `seen` holds the earlier ones in reverse,
unless one of them has no name. -/
def members? : Nat → Nat → Option (List (String × Json)) → List Char → Option (Json × List Char)
  | 0, _, _, _ => none
  | fuel + 1, depth, seen, text =>
    match skipBlanks text with
    | '"' :: rest =>
      match string? rest with
      | none => none
      | some (name, rest) =>
        match skipBlanks rest with
        | ':' :: rest =>
          match value? fuel depth rest with
          | none => none
          | some (value, rest) =>
            let seen := seen.bind fun seen => name.map fun name => (name, value) :: seen
            match skipBlanks rest with
            | ',' :: rest => members? fuel depth seen rest
            | '\x7d' :: rest => some (seen.elim .unusable fun seen => .object seen.reverse, rest)
            | _ => none
        | _ => none
    | _ => none

end

end Blockflow.Json.Reader

namespace Blockflow.Json

/-- The value that a text holds, blanks around it apart. Parts of it may be unusable. -/
def read? (text : String) : Option Json :=
  let chars := text.toList
  match Reader.value? (chars.length + 1) 127 chars with
  | some (value, rest) => if (Reader.skipBlanks rest).isEmpty then some value else none
  | none => none

/-- Read a document. -/
def parse? (text : String) : Option Json := (read? text).filter isUsable

end Blockflow.Json
