import Blockflow.Value.Store

/-!
# Selectors

What a switch takes from a value: the number of a branch and the payload that it carries.
-/

namespace Blockflow

/-- The number of a branch and a value for it. -/
structure Selector where
  path : Nat
  payload : Value

namespace Selector

def fieldNames : List String := ["path", "payload"]

/-- A path has to fit in 32 bits. -/
def ofInt (path : Int) (payload : Value) : Except Diagnostic Selector :=
  if path < 0 then .error { problem := .negativePath path }
  else if 1 <<< 32 ≤ path then .error { problem := .pathTooLarge path }
  else .ok ⟨path.toNat, payload⟩

/-- Booleans pick 0 and 1, integers pick themselves, and a struct of a path and a payload takes its
path apart in turn. -/
def ofValue : Value → Except Diagnostic Selector
  | ⟨ty, elements, data, scalar, buffer⟩ =>
    let value : Value := ⟨ty, elements, data, scalar, buffer⟩
    match value.bool?, value.int? with
    | some flag, _ => .ok ⟨if flag then 1 else 0, value⟩
    | none, some path => ofInt path value
    | none, none =>
      if ty.fieldNames? = some fieldNames then
        match elements with
        | [] => .error { problem := .tooFewElements 0 ty.text 0 }
        | [_] => .error { problem := .tooFewElements 1 ty.text 1 }
        | path :: payload :: _ =>
          match ofValue path with
          | .error d => .error d
          | .ok selector => .ok { selector with payload }
      else .error { problem := .notASelector ty.text }

def toValue (selector : Selector) : StateM Store Value := do
  let path ← Store.int selector.path
  let ty ← Store.withTypes (·.selectorOf selector.payload.ty)
  Store.aggregate ty [path, selector.payload]

end Selector

end Blockflow
