import Blockflow.Native.Basic

/-!
# Methods and dispatch

Structs with a single unnamed field are taken apart until a method fits. If none does, the operator
is tried in reverse: under its name with `r` in front, with the operands swapped.
-/

namespace Blockflow

/-- Natives by the types that they are methods of. -/
structure Methods where
  tables : List (Nat × List (String × Native)) := []

namespace Methods

instance : Inhabited Methods := ⟨{}⟩

def table (methods : Methods) (ty : Ty) : List (String × Native) :=
  (methods.tables.lookup ty.id).getD []

def find? (methods : Methods) (ty : Ty) (name : String) : Option Native :=
  (methods.table ty).lookup name

/-- Add a method, in place of one of the same name. -/
def define (methods : Methods) (ty : Ty) (name : String) (native : Native) : Methods :=
  let table := (name, native) :: (methods.table ty).filter (·.1 != name)
  ⟨(ty.id, table) :: methods.tables.filter (·.1 != ty.id)⟩

/-- The method `name` for a first operand and the others, with the operand taken apart where
needed. -/
def lookupFrom (methods : Methods) (name : String) (rest : List Value) :
    Value → Option (Native × List Value)
  | ⟨ty, elements, data, scalar, buffer⟩ =>
    let args := ⟨ty, elements, data, scalar, buffer⟩ :: rest
    let found := (methods.find? ty name).filter fun native =>
      native.arity.accepts args.length && native.accepts args
    match found with
    | some native => some (native, args)
    | none =>
      match ty.wrapped?, elements with
      | some _, inner :: _ => methods.lookupFrom name rest inner
      | _, _ => none

/-- The method of the first argument. -/
def lookup (methods : Methods) (name : String) : List Value → Option (Native × List Value)
  | [] => none
  | first :: rest => methods.lookupFrom name rest first

/-- The arguments with the first two exchanged. -/
def swapped? : List Value → Option (List Value)
  | a :: b :: rest => some (b :: a :: rest)
  | _ => none

/-- The method that implements one of the operators for the operands, and the operands it is called
with. -/
def resolve (methods : Methods) (names : List String) (args : List Value) :
    Except Diagnostic (Native × List Value) :=
  let direct := names.findSome? fun name => methods.lookup name args
  let reversed := (swapped? args).bind fun args =>
    names.findSome? fun name => methods.lookup ("r" ++ name) args
  match direct <|> reversed with
  | some found => .ok found
  | none =>
    .error { problem := .unsupportedOperator (names.head?.getD "?")
                          ((args.take 2).map fun arg => arg.ty.text) }

/-- Find a method by the arguments and call it. -/
def dispatch (methods : Methods) (names : List String) (args : List Value) : Action Value := do
  let (native, args) ← methods.resolve names args
  native.call args

end Methods

end Blockflow
