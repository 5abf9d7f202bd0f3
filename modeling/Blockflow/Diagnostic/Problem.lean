/-!
# Problems

Everything that can go wrong, one constructor a cause, with its wording and the stage that it
belongs to. Types and names enter a problem as the text that the message shows.
-/

namespace Blockflow

/-- What sort of failure a diagnostic is about. -/
inductive DiagnosticKind where
  /-- A malformed circuit, block or literal. -/
  | definition
  /-- Element access on a value or type without elements. -/
  | type
  /-- No method for an operator, or a selector without a branch. -/
  | dispatch
  /-- A failure that a native reports. -/
  | resource
  /-- A budget of steps or calls is used up. -/
  | budget
  /-- No diagnostic: an index into a table of the compiler is out of range, and the program crashes.
  It travels like a failure, since nothing catches it. -/
  | crash
  deriving DecidableEq, Repr, Inhabited

def DiagnosticKind.label : DiagnosticKind → String
  | .definition => "definition error"
  | .type => "type error"
  | .dispatch => "dispatch error"
  | .resource => "resource error"
  | .budget => "budget exhausted"
  | .crash => "crash"

namespace DiagnosticKind

def reported : List DiagnosticKind := [.definition, .type, .dispatch, .resource, .budget]

def name : DiagnosticKind → String
  | .definition => "definition"
  | .type => "type"
  | .dispatch => "dispatch"
  | .resource => "resource"
  | .budget => "budget"
  | .crash => "crash"

def ofName? (name : String) : Option DiagnosticKind := reported.find? (·.name == name)

end DiagnosticKind

inductive Overflow where
  | tooLarge
  | tooSmall
  deriving DecidableEq, Repr

def Overflow.message : Overflow → String
  | .tooLarge => "number too large to fit in target type"
  | .tooSmall => "number too small to fit in target type"

/-- A list of links or arguments that a block declares. -/
inductive Side where
  | inputs
  | outputs
  | arguments
  deriving DecidableEq, Repr

def Side.label : Side → String
  | .inputs => "inputs"
  | .outputs => "outputs"
  | .arguments => "arguments"

/-- How many items are asked for. -/
inductive Arity where
  | exactly (count : Nat)
  | atLeast (count : Nat)
  deriving DecidableEq, Repr

namespace Arity

def accepts : Arity → Nat → Bool
  | .exactly expected, count => count == expected
  | .atLeast least, count => least ≤ count

def label : Arity → String
  | .exactly count => toString count
  | .atLeast count => s!"at least {count}"

end Arity

/-- Everything that can go wrong, with what the message tells. -/
inductive Problem where
  -- Literals and types
  | invalidLiteral (tag text : String) (overflow : Option Overflow)
  | unknownLiteralKind (tag : String) (known : List String)
  | unreadableLiteral (text : String)
  | unknownType (name : String)
  | vectorTooLarge (count : Nat) (element : String) (limit : Nat)
  | tooManyCells (type : String) (cells limit : Nat)
  -- Element access
  | typeIndexOutOfRange (index : Nat) (type : String)
  | noElements (type : String)
  | cannotHoldElements (type : String)
  | wrongElementCount (type : String) (expected found : Nat)
  | tooFewElements (index : Nat) (type : String) (found : Nat)
  -- Selectors and dispatch
  | negativePath (path : Int)
  | pathTooLarge (path : Int)
  | notASelector (type : String)
  | pathWithoutBranch (path branches : Nat)
  | unsupportedOperator (operator : String) (types : List String)
  -- Natives
  | missingInput (native : String) (index : Nat)
  | unexpectedInput (native what : String) (index : Nat) (type : String)
  | arithmeticFailed (operator : String)
  | negationOverflowed
  | wrongInputCount (native : String) (arity : Arity) (found : Nat)
  -- Circuits and blocks
  | unknownCircuit (name : String)
  | unknownBlockType (name : String)
  | duplicateLink (link circuit : String)
  | unresolvedLink (link : String)
  | missingArgument (name circuit : String)
  | missingBlockArgument (block : String) (index : Nat)
  | blockTakes (block : String) (arity : Arity) (side : Side) (found : Nat)
  | constArguments (found : Nat)
  | negativeUnpackIndex (index : Int)
  | outputsProduced (block : String) (produced declared : Nat)
  | circuitTakes (circuit : String) (count : Nat) (side : Side) (found : Nat)
  | recursiveExpansion (circuit : String)
  | expansionGone
  -- Settling
  | notSettled (limit : Nat)
  | unownedLinks
  -- Compilation
  | unresolvedOutput
  | passCycle
  | nodeRemoved
  | unresolvedInput
  | unconnectedInput (pin : Nat)
  | unconnectedOutput (name : String)
  | endWithoutBegin
  | beginClosedTwice
  | beginWithoutEnd
  | endUnreachable
  | valueEscapesLoop
  | dependencyCycle
  | noAddress
  /-- The compiler looks for a pin or for the scope of a loop that is not there. -/
  | indexOutOfRange
  | failedToCompile (circuit : String)
  -- Execution
  | unwrittenRead (address : Nat)
  | wrongArgumentCount (circuit : String) (expected found : Nat)
  | stepBudgetExhausted (budget : Nat)
  | callDepthReached (limit : Nat)
  /-- A problem in the words of a native that is not part of the engine. -/
  | reported (kind : DiagnosticKind) (message : String)
  deriving DecidableEq, Repr

namespace Problem

def kind : Problem → DiagnosticKind
  | .typeIndexOutOfRange .. | .noElements .. | .cannotHoldElements .. | .wrongElementCount ..
  | .tooFewElements .. => .type
  | .negativePath .. | .pathTooLarge .. | .notASelector .. | .pathWithoutBranch ..
  | .unsupportedOperator .. => .dispatch
  | .missingInput .. | .unexpectedInput .. | .arithmeticFailed .. | .negationOverflowed => .resource
  | .stepBudgetExhausted .. | .callDepthReached .. => .budget
  | .indexOutOfRange => .crash
  | .reported kind _ => kind
  | _ => .definition

/-- The text of a diagnostic. -/
def message : Problem → String
  | .invalidLiteral tag text none => s!"invalid {tag} literal `{text}`"
  | .invalidLiteral tag text (some overflow) =>
    s!"invalid {tag} literal `{text}`: {overflow.message}"
  | .unknownLiteralKind tag known =>
    s!"unknown literal kind `{tag}`, expected one of " ++ ", ".intercalate known
  | .unreadableLiteral text => s!"cannot read `{text}` as a literal"
  | .unknownType name => s!"unknown type `{name}`"
  | .vectorTooLarge count element limit =>
    s!"vector of {count} `{element}` elements is too large (limit {limit})"
  | .tooManyCells type cells limit => s!"`{type}` holds {cells} values (limit {limit})"
  | .typeIndexOutOfRange index type => s!"index {index} out of range for `{type}`"
  | .noElements type => s!"`{type}` does not support element access"
  | .cannotHoldElements type => s!"`{type}` cannot hold elements"
  | .wrongElementCount type expected found => s!"`{type}` holds {expected} elements, got {found}"
  | .tooFewElements index type found =>
    s!"too few elements: index {index} of `{type}` with {found} elements"
  | .negativePath path => s!"switch path {path} is negative"
  | .pathTooLarge path => s!"switch path {path} is out of range"
  | .notASelector type => s!"cannot switch on a value of type `{type}`"
  | .pathWithoutBranch path branches => s!"switch path {path} out of range for {branches} branches"
  | .unsupportedOperator operator types =>
    s!"inputs don't support operator `{operator}`: " ++ " and ".intercalate types
  | .missingInput native index => s!"`{native}` is missing input {index}"
  | .unexpectedInput native what index type =>
    s!"`{native}` expects {what} at input {index}, found `{type}`"
  | .arithmeticFailed operator => s!"`{operator}` overflowed or divided by zero"
  | .negationOverflowed => "`neg` overflowed"
  | .wrongInputCount native arity found => s!"`{native}` takes {arity.label} inputs, got {found}"
  | .unknownCircuit name => s!"unknown circuit `{name}`"
  | .unknownBlockType name => s!"unknown block type `{name}`"
  | .duplicateLink link circuit => s!"duplicate link `{link}` in `{circuit}`"
  | .unresolvedLink link => s!"unresolved link `{link}`"
  | .missingArgument name circuit => s!"missing argument `{name}` for `{circuit}`"
  | .missingBlockArgument block index => s!"`{block}` block is missing argument {index}"
  | .blockTakes block arity side found =>
    s!"`{block}` block takes {arity.label} {side.label}, got {found}"
  | .constArguments found => s!"`const` block takes 1 or 2 arguments, got {found}"
  | .negativeUnpackIndex index => s!"`unpack` index {index} is negative"
  | .outputsProduced block produced declared =>
    s!"`{block}` block produced {produced} outputs, {declared} declared"
  | .circuitTakes circuit count side found =>
    s!"`{circuit}` takes {count} {side.label}, got {found}"
  | .recursiveExpansion circuit => s!"illegal recursive macro `{circuit}`"
  | .expansionGone => "circuit expansion was torn down"
  | .notSettled limit => s!"graph did not settle within {limit} steps"
  | .unownedLinks => "node has unresolved inputs but no owning circuit"
  | .unresolvedOutput => "output depends on an unresolved link"
  | .passCycle => "dependency cycle through pass-through nodes"
  | .nodeRemoved => "node was removed"
  | .unresolvedInput => "input has an unresolved link"
  | .unconnectedInput pin => s!"input {pin} is not connected"
  | .unconnectedOutput name => s!"output `{name}` is not connected"
  | .endWithoutBegin => "loop end must link to a loop begin"
  | .beginClosedTwice => "loop begin is closed by more than one end"
  | .beginWithoutEnd => "loop begin without end"
  | .endUnreachable => "loop end is unreachable"
  | .valueEscapesLoop => "value escapes loop"
  | .dependencyCycle => "dependency cycle"
  | .noAddress => "value has no address"
  | .indexOutOfRange => "index out of range"
  | .failedToCompile circuit => s!"`{circuit}` failed to compile"
  | .unwrittenRead address => s!"address {address} is read before it is written"
  | .wrongArgumentCount circuit expected found =>
    s!"`{circuit}` takes {expected} arguments, got {found}"
  | .stepBudgetExhausted budget => s!"step budget of {budget} exhausted"
  | .callDepthReached limit => s!"call depth limit of {limit} reached"
  | .reported _ message => message

end Problem

end Blockflow
