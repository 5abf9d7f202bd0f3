import Blockflow.Compile.Order
import Blockflow.Scope

/-!
# Placement

A node is computed in the innermost scope around all its uses. Whatever reads the state of a loop
must lie inside.
-/

namespace Blockflow.Compile

/-- The scopes of nodes, and those that loops and branches open. -/
structure Placement where
  tree : ScopeTree := {}
  scopes : List (Handle × Nat) := []
  loops : List (Handle × Nat) := []
  branches : List (Handle × List Nat) := []

namespace Placement

/-- The scope of a loop body, opened on first use. -/
def loopScope (p : Placement) (loopEnd : Handle) (scope : Nat) : Nat × Placement :=
  match p.loops.lookup loopEnd with
  | some id => (id, p)
  | none =>
    let (id, tree) := p.tree.child scope (.loop loopEnd)
    (id, { p with tree, loops := (loopEnd, id) :: p.loops })

def addBranches (switch : Handle) (scope : Nat) : Nat → Nat → ScopeTree → List Nat × ScopeTree
  | 0, _, tree => ([], tree)
  | count + 1, index, tree =>
    let (id, tree) := tree.child scope (.branch switch index)
    let (ids, tree) := addBranches switch scope count (index + 1) tree
    (id :: ids, tree)

/-- The scopes of the branches of a switch, opened on first use. -/
def branchScopes (p : Placement) (switch : Handle) (count scope : Nat) : List Nat × Placement :=
  match p.branches.lookup switch with
  | some ids => (ids, p)
  | none =>
    let (ids, tree) := addBranches switch scope count 0 p.tree
    (ids, { p with tree, branches := (switch, ids) :: p.branches })

end Placement

/-- A use of a node: the visit of the reader and the pin that reads. -/
structure Use where
  reader : Visit
  pin : Nat

/-- The pins that read a node. -/
def usesOf (order : List Visit) (id : Handle) : List Use :=
  order.flatMap fun visit =>
    visit.sources.zipIdx.filterMap fun (source, pin) =>
      if source = some id then some ⟨visit, pin⟩ else none

/-- The scope in which a use reads. The first pin of an end reads nowhere: it names the loop. -/
def useScope (graph : Graph) (p : Placement) (use : Use) : Option Nat × Placement :=
  match p.scopes.lookup use.reader.node with
  | none => (none, p)
  | some scope =>
    match kindOf graph use.reader.node, use.pin with
    | .loopEnd, 0 => (none, p)
    | .loopEnd, _ + 1 =>
      let (id, p) := p.loopScope use.reader.node scope
      (some id, p)
    | .switch, branch + 1 =>
      let (ids, p) := p.branchScopes use.reader.node (use.reader.sources.length - 1) scope
      (ids[branch]?, p)
    | .loopBegin, _ => (p.tree.parent? scope, p)
    | _, _ => (some scope, p)

/-- The innermost scope around the scope so far and the scopes of further uses. -/
def commonScope (graph : Graph) : List Use → Option Nat → Placement → Option Nat × Placement
  | [], scope, p => (scope, p)
  | use :: uses, scope, p =>
    let (used, p) := useScope graph p use
    let scope := match scope, used with
      | some current, some used => some (p.tree.common current used)
      | none, used => used
      | scope, none => scope
    commonScope graph uses scope p

/-- Place a node in the innermost scope that all its uses lie in. -/
def placeNode (graph : Graph) (order : List Visit) (loops : List (Handle × Handle))
    (outputs : List Handle) (p : Placement) (id : Handle) : Except Diagnostic Placement :=
  if kindOf graph id == .loopBegin then
    match loops.lookup id with
    | none => .error (problemAt id .beginWithoutEnd)
    | some loopEnd =>
      match p.scopes.lookup loopEnd with
      | none => .error (problemAt loopEnd .endUnreachable)
      | some scope =>
        let (scope, p) := p.loopScope loopEnd scope
        .ok { p with scopes := (id, scope) :: p.scopes }
  else
    let start := if id ∈ outputs then some ScopeTree.rootId else none
    let (scope, p) := commonScope graph (usesOf order id) start p
    .ok { p with scopes := (id, scope.getD ScopeTree.rootId) :: p.scopes }

/-- Whether a use of a loop's state lies inside the loop; every pin of the end does. -/
def staysInside (p : Placement) (loopEnd : Handle) (body : Nat) (use : Use) : Bool :=
  use.reader.node = loopEnd ||
    match p.scopes.lookup use.reader.node with
    | some scope => p.tree.encloses body scope
    | none => false

/-- The state of a loop is only read inside of the loop. -/
def checkLoop (order : List Visit) (p : Placement) (loop : Handle × Handle) :
    Except Diagnostic Unit :=
  match p.loops.lookup loop.2 with
  | none => .error .crash
  | some body =>
    match (usesOf order loop.1).find? fun use => !staysInside p loop.2 body use with
    | some use => .error (problemAt use.reader.node .valueEscapesLoop)
    | none => .ok ()

/-- Place the nodes of an order, readers before sources. -/
def place (graph : Graph) (order : List Visit) (loops : List (Handle × Handle))
    (outputs : List Handle) : Except Diagnostic Placement := do
  let p ← (order.reverse.map Visit.node).foldlM (placeNode graph order loops outputs) {}
  loops.forM (checkLoop order p)
  return p

end Blockflow.Compile
