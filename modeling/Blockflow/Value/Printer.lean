import Blockflow.Number.Format
import Blockflow.Text.Quoted
import Blockflow.Value.Basic

/-!
# Values as text
-/

namespace Blockflow.Value

def primitiveText (p : Primitive) (value : Value) : String :=
  match p with
  | .bool => if value.scalar != 0 then "true" else "false"
  | .label => "#" ++ Text.Utf8.decodeLossy value.data
  | .f32 | .f64 => Number.showWord (value.floatWord?.getD 0)
  | .i8 | .u8 | .i16 | .i32 | .i64 => toString (value.int?.getD 0)

def fieldLabel : Option (List String) → String
  | some (name :: _) => name ++ ": "
  | _ => ""

mutual

def writeOnto (written : String) : Value → String
  | ⟨ty, elements, data, scalar, buffer⟩ =>
    let value : Value := ⟨ty, elements, data, scalar, buffer⟩
    match value.text? with
    | some text => written ++ Text.quote text
    | none =>
      match ty.shape with
      | .primitive p => written ++ primitiveText p value
      | .struct _ names => writeElements (written ++ "\x7b") true names elements ++ "\x7d"
      | .vector .. | .pointer .. => writeElements (written ++ "[") true none elements ++ "]"
      | .function .. => written ++ "<" ++ ty.text ++ ">"

def writeElements (written : String) (first : Bool) (names : Option (List String)) :
    List Value → String
  | [] => written
  | element :: elements =>
    let written := (if first then written else written ++ ", ") ++ fieldLabel names
    writeElements (writeOnto written element) false (names.map (·.drop 1)) elements

end

/-- A value as it is printed. -/
def text (value : Value) : String := writeOnto "" value

/-- A value with its type. -/
def typedText (value : Value) : String := s!"{value.text}: {value.ty.text}"

end Blockflow.Value
