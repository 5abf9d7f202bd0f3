import Blockflow.Json.Basic
import Blockflow.Text.Quoted

/-! # Writing JSON -/

namespace Blockflow.Json

def escapeChar (c : Char) : String :=
  match c with
  | '"' => "\\\""
  | '\\' => "\\\\"
  | '\x08' => "\\b"
  | '\x0c' => "\\f"
  | '\n' => "\\n"
  | '\r' => "\\r"
  | '\t' => "\\t"
  | c =>
    if c.toNat < 0x20 then
      let digits := Text.hexadecimal c.toNat
      "\\u" ++ String.ofList (List.replicate (4 - digits.length) '0') ++ digits
    else c.toString

def writeString (text : String) : String :=
  text.toList.foldl (fun written c => written ++ escapeChar c) "\"" ++ "\""

mutual

def compactOnto (written : String) : Json → String
  | .null | .unusable => written ++ "null"
  | .bool value => written ++ (if value then "true" else "false")
  | .integer value => written ++ toString value
  | .real spelling => written ++ spelling
  | .string value => written ++ writeString value
  | .array items => compactItems (written ++ "[") true items ++ "]"
  | .object members => compactMembers (written ++ "\x7b") true members ++ "\x7d"

def compactItems (written : String) (first : Bool) : List Json → String
  | [] => written
  | item :: items =>
    compactItems (compactOnto (if first then written else written ++ ",") item) false items

def compactMembers (written : String) (first : Bool) : List (String × Json) → String
  | [] => written
  | (name, value) :: members =>
    let written := (if first then written else written ++ ",") ++ writeString name ++ ":"
    compactMembers (compactOnto written value) false members

end

/-- A document without blanks. -/
def compact (value : Json) : String := compactOnto "" value

def indent (depth : Nat) : String := "\n" ++ String.ofList (List.replicate (2 * depth) ' ')

mutual

def prettyOnto (written : String) (depth : Nat) : Json → String
  | .array [] => written ++ "[]"
  | .array items => prettyItems (written ++ "[") (depth + 1) true items ++ indent depth ++ "]"
  | .object [] => written ++ "\x7b\x7d"
  | .object members =>
    prettyMembers (written ++ "\x7b") (depth + 1) true members ++ indent depth ++ "\x7d"
  | .null | .unusable => written ++ "null"
  | .bool value => written ++ (if value then "true" else "false")
  | .integer value => written ++ toString value
  | .real spelling => written ++ spelling
  | .string value => written ++ writeString value

def prettyItems (written : String) (depth : Nat) (first : Bool) : List Json → String
  | [] => written
  | item :: items =>
    let written := (if first then written else written ++ ",") ++ indent depth
    prettyItems (prettyOnto written depth item) depth false items

def prettyMembers (written : String) (depth : Nat) (first : Bool) : List (String × Json) → String
  | [] => written
  | (name, value) :: members =>
    let written := (if first then written else written ++ ",") ++ indent depth
      ++ writeString name ++ ": "
    prettyMembers (prettyOnto written depth value) depth false members

end

/-- A document with a line for each item. -/
def pretty (value : Json) : String := prettyOnto "" 0 value

end Blockflow.Json
