import Blockflow.Command.Basic
import Blockflow.Text.Decimal

/-!
# The command line

A task comes first, then the paths and names that it needs, with options anywhere between them, as
`--name value` or `--name=value`; after `--` everything is a name.
-/

namespace Blockflow.Command

def usage : String :=
  "Usage: blockflow run MODULE CIRCUIT [--arg LITERAL]...\n" ++
  "       blockflow check MODULE\n" ++
  "       blockflow dump MODULE CIRCUIT\n" ++
  "       blockflow cache MODULE CIRCUIT --out FILE\n" ++
  "Options: [--config FILE] [--budget STEPS] [--ticks NODES]"

/-- A command line, with options apart. -/
structure Words where
  names : List String := []
  options : List (String × String) := []

namespace Words

def splitOption (word : List Char) : List Char × Option (List Char) :=
  match word.span (· != '=') with
  | (name, _ :: value) => (name, some value)
  | (name, []) => (name, none)

def isOption (word : String) : Bool := word.startsWith "-" && word != "-"

/-- Tell options and other words apart; every option takes a value. -/
def sort? : List String → Words → Option Words
  | [], words => some { names := words.names.reverse, options := words.options.reverse }
  | "--" :: rest, words =>
    some { names := words.names.reverse ++ rest, options := words.options.reverse }
  | word :: rest, words =>
    match word.toList with
    | '-' :: '-' :: option =>
      match splitOption option, rest with
      | (name, some value), rest =>
        sort? rest
          { words with options := (String.ofList name, String.ofList value) :: words.options }
      | (name, none), value :: rest =>
        if isOption value then none
        else sort? rest { words with options := (String.ofList name, value) :: words.options }
      | (_, none), [] => none
    | _ =>
      if isOption word then none else sort? rest { words with names := word :: words.names }

def values (words : Words) (name : String) : List String :=
  (words.options.filter (·.1 == name)).map (·.2)

/-- An option that may be given once. -/
def single? (words : Words) (name : String) : Option (Option String) :=
  match words.values name with
  | [] => some none
  | [value] => some (some value)
  | _ => none

def number? (text : String) : Option Nat := (Text.decimal? 0 (1 <<< 64 - 1) text).map Int.toNat

def singleNumber? (words : Words) (name : String) : Option (Option Nat) := do
  match ← words.single? name with
  | none => return none
  | some text => return some (← number? text)

def limits? (words : Words) : Option Limits := do
  return {
    config := ← words.single? "config"
    budget := ← words.singleNumber? "budget"
    ticks := ← words.singleNumber? "ticks" }

/-- Whether only known options are given. -/
def allows (words : Words) (extra : List String) : Bool :=
  words.options.all fun (name, _) => (["config", "budget", "ticks"] ++ extra).contains name

end Words

/-- Read a command line. -/
def parse? (line : List String) : Option Command := do
  let words ← Words.sort? line {}
  let limits ← words.limits?
  match words.names with
  | ["run", modulePath, circuit] =>
    if words.allows ["arg"] then
      some { modulePath, limits, task := .run circuit (words.values "arg") }
    else none
  | ["check", modulePath] =>
    if words.allows [] then some { modulePath, limits, task := .check } else none
  | ["dump", modulePath, circuit] =>
    if words.allows [] then some { modulePath, limits, task := .dump circuit } else none
  | ["cache", modulePath, circuit] => do
    let out ← (← words.single? "out")
    if words.allows ["out"] then some { modulePath, limits, task := .cache circuit out } else none
  | _ => none

end Blockflow.Command
