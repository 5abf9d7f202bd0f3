import Blockflow.Text.Unprintable

/-!
# Quoted text

How a text is shown inside quotes: a few characters have short escapes, those that do not print are
written by their number, and all others stand for themselves.
-/

namespace Blockflow.Text

def hexadecimal (n : Nat) : String := String.ofList (Nat.toDigits 16 n)

def escape (c : Char) : String :=
  match c with
  | '"' => "\\\""
  | '\\' => "\\\\"
  | '\n' => "\\n"
  | '\r' => "\\r"
  | '\t' => "\\t"
  | '\x00' => "\\0"
  | c => if isUnprintable c then "\\u\x7b" ++ hexadecimal c.toNat ++ "\x7d" else c.toString

/-- A text in quotes, with escapes. -/
def quote (text : String) : String :=
  text.toList.foldl (fun shown c => shown ++ escape c) "\"" ++ "\""

end Blockflow.Text
