import Blockflow.Literal.Grammar
import Blockflow.Value.Store

/-!
# Literals

`Literal.parse` reads a text as a value of the kind that a tag names. Types met on the way are
interned even if the literal fails later on.
-/

namespace Blockflow.Literal

/-- The kinds of literals that can be recognized, in the order in which they are tried. -/
def kinds : List String := ["int", "float", "bool", "text", "label", "type"]

def tags : List String := kinds ++ ["auto"]

/-- Read a literal; the diagnostic shows the place of the miss. -/
def scan {α : Type} (p : Scan α) (tag text : String) : Except Diagnostic α :=
  match p.parse text with
  | .ok a => .ok a
  | .error none => .error { problem := .invalidLiteral tag text none }
  | .error (some miss) =>
    .error (Diagnostic.withLiteral { problem := .invalidLiteral tag text miss.overflow } text
      miss.start miss.stop)

/-- Failures show a part of the text. -/
def locate {α : Type} (text : String) (start stop : Nat) (action : Action α) : Action α :=
  action.mapFailure (·.withLiteral text start stop)

def namedType (text name : String) (span : Span) : Action Ty :=
  if name = "void" then Store.withTypes (·.void)
  else if name = "text" then Store.withTypes (·.text)
  else match Primitive.ofName? name with
    | some p => Store.primitive p
    | none =>
      .fail (Diagnostic.withLiteral { problem := .unknownType name } text span.start span.stop)

/-- The struct type of fields that are named all or not at all. -/
def structType (text : String) (fields : List (Option String × Ty)) : Action Ty := do
  let ty ←
    if !fields.isEmpty && fields.all (·.1.isSome) then
      Store.withTypes (·.namedStructOf (fields.map fun (name, ty) => (name.getD "", ty)))
    else Store.withTypes (·.structOf (fields.map (·.2)))
  locate text 0 text.utf8ByteSize ty.checkCells
  return ty

/-- A written type that stands for no target behind a pointer. -/
def TypeExpr.isVoidName : TypeExpr → Bool
  | .named name _ => name == "void"
  | _ => false

mutual

/-- The type that an expression stands for. -/
def build (text : String) : TypeExpr → Action Ty
  | .named name span => namedType text name span
  | .vector element count simd span => do
    let element ← build text element
    locate text span.start span.stop (Store.tryTypes (·.vectorOf element count simd))
  | .struct fields => do structType text (← buildFields text fields)
  | .pointer flags target =>
    if target.isVoidName then Store.withTypes (·.pointerTo none flags)
    else do
      let target ← build text target
      Store.withTypes (·.pointerTo (some target) flags)
  | .function params result => do
    let result ← build text result
    let params ← buildAll text params
    Store.withTypes (·.functionOf result params)

def buildAll (text : String) : List TypeExpr → Action (List Ty)
  | [] => pure []
  | expr :: exprs => do
    let ty ← build text expr
    return ty :: (← buildAll text exprs)

def buildFields (text : String) :
    List (Option String × TypeExpr) → Action (List (Option String × Ty))
  | [] => pure []
  | (name, expr) :: fields => do
    let ty ← build text expr
    return (name, ty) :: (← buildFields text fields)

end

/-- The type that a literal stands for. -/
def parseType (text : String) : Action Ty := do
  let expr ← scan (Scan.typeExpr (text.length + 1)) "type" text
  build text expr

/-- Read a literal of a recognizable kind. A type literal stands for the zero value of the type. -/
def parseKind (tag text : String) : Action Value :=
  match tag with
  | "int" => do Store.int (← scan Scan.int tag text)
  | "float" => do Store.float (← scan Scan.float tag text).toBits
  | "bool" => do Store.bool (← scan Scan.bool tag text)
  | "text" => do Store.text (← scan (Scan.quoted text.length) tag text)
  | "label" => do Store.label (← scan Scan.label tag text)
  | "type" => do Store.zero (← parseType text)
  | _ => .refuse (.unknownLiteralKind tag tags)

/-- The first of the kinds that reads the text, or the failure of the last one. -/
def tryKinds (text : String) (failure : Option Diagnostic) :
    List String → StateM Store (Except (Option Diagnostic) Value)
  | [] => return .error failure
  | tag :: rest => do
    match ← (parseKind tag text).run with
    | .ok value => return .ok value
    | .error d => tryKinds text (some d) rest

def isUnknownType (d : Diagnostic) : Bool :=
  match d.problem with
  | .unknownType _ => true
  | _ => false

/-- Read a literal of any kind. The failure covers the whole text, or the name of an unknown
type. -/
def parseAuto (text : String) : Action Value := do
  match ← tryKinds text none kinds with
  | .ok value => return value
  | .error failure =>
    let whole := Diagnostic.withLiteral { problem := .unreadableLiteral text } text
      0 text.utf8ByteSize
    match failure with
    | some d =>
      if isUnknownType d && d.literal.isSome then .fail { whole with literal := d.literal }
      else .fail whole
    | none => .fail whole

/-- Read a literal of a given kind, or of the first kind that fits. -/
def parse (tag text : String) : Action Value :=
  if tag = "auto" then parseAuto text else parseKind tag text

end Blockflow.Literal
