import Blockflow.Ty.Basic

/-!
# Types as text

The text of a type is a type literal: reading it gives the type back.
-/

namespace Blockflow.Ty

def commaSeparated (texts : List String) : String := ", ".intercalate texts

def flagsText (flags : PointerFlags) : String :=
  (if flags.readOnly then "const " else "") ++ (if flags.noCapture then "nocapture " else "")

def labelFields (names : Option (List String)) (fields : List String) : List String :=
  match names with
  | none => fields
  | some names => List.zipWith (fun name field => s!"{name}: {field}") names fields

mutual

/-- A type as a literal of it is written. -/
def text : Ty → String
  | ⟨_, .primitive p, _, _, _⟩ => p.name
  | ⟨_, .vector element count true, _, _, _⟩ => s!"<{element.text}; {count}>"
  | ⟨_, .vector element count false, _, _, _⟩ => s!"[{element.text}; {count}]"
  | ⟨_, .struct fields names, _, _, _⟩ =>
    "\x7b" ++ commaSeparated (labelFields names (texts fields)) ++ "\x7d"
  | ⟨_, .pointer none flags, _, _, _⟩ => "*" ++ flagsText flags ++ "void"
  | ⟨_, .pointer (some target) flags, _, _, _⟩ => "*" ++ flagsText flags ++ target.text
  | ⟨_, .function result params, _, _, _⟩ =>
    s!"fn({commaSeparated (texts params)}) -> {result.text}"

def texts : List Ty → List String
  | [] => []
  | ty :: tys => ty.text :: texts tys

end

end Blockflow.Ty
