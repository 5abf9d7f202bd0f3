import Blockflow.Program.Basic

/-!
# Programs as text
-/

namespace Blockflow

namespace Listing

/-- A list in brackets. -/
def bracketed (items : List String) : String := "[" ++ ", ".intercalate items ++ "]"

def addresses (ins : List Nat) : String := bracketed (ins.map toString)

/-- A name with fields in braces. -/
def fields (name : String) (entries : List (String × String)) : String :=
  let shown := entries.map fun (field, value) => s!"{field}: {value}"
  name ++ " \x7b " ++ ", ".intercalate shown ++ " \x7d"

/-- Where a branch leaves its value. -/
def result : Option Nat → String
  | some address => s!"Some({address})"
  | none => "None"

mutual

def instruction : Instruction → String
  | .loadConst value out => fields "LoadConst" [("value", value.typedText), ("out", toString out)]
  | .call native ins out => s!"Call {native.name}({addresses ins}) -> {out}"
  | .virtualCall names ins out =>
    fields "VirtualCall" [("names", bracketed (names.map Text.quote)), ("ins", addresses ins),
      ("out", toString out)]
  | .pack ins out => fields "Pack" [("ins", addresses ins), ("out", toString out)]
  | .unpack index input out =>
    fields "Unpack" [("index", toString index), ("input", toString input), ("out", toString out)]
  | .functionCall circuit _ ins out => s!"FunctionCall {circuit}({addresses ins}) -> {out}"
  | .loop loop body =>
    fields "Loop" [("init", toString loop.init), ("state", toString loop.state),
      ("next", toString loop.next), ("cond", toString loop.cond), ("out", toString loop.out),
      ("clear", s!"{loop.clearFrom}..{loop.clearTo}"), ("body", bracketed (instructions body))]
  | .switch selector cases out =>
    fields "Switch" [("selector", toString selector), ("branches", bracketed (branches cases)),
      ("out", toString out)]

def instructions : List Instruction → List String
  | [] => []
  | i :: is => instruction i :: instructions is

def branch : Branch → String
  | .mk code address =>
    fields "Branch" [("code", bracketed (instructions code)), ("result", result address)]

def branches : List Branch → List String
  | [] => []
  | b :: bs => branch b :: branches bs

end

end Listing

def Instruction.text (instruction : Instruction) : String := Listing.instruction instruction

/-- The listing of a program: a headline and one line for every instruction at the top. -/
def Program.listing (program : Program) : String :=
  let headline := s!"{program.name} ({program.params} params, frame {program.frameSize}, " ++
    s!"returns {program.ret}):\n"
  program.code.foldl (fun shown i => shown ++ "  " ++ i.text ++ "\n") headline

end Blockflow
