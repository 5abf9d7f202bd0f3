import Blockflow.Arena

/-!
# Scope trees

The root scope holds what is computed once for a call; loops and the branches of switches have
scopes of their own. A scope lies right after the addresses of its parent, so siblings share theirs.
A number that no scope has stands for a scope at the root's depth without parent or addresses.
-/

namespace Blockflow

/-- What opened a scope. -/
inductive ScopeKind where
  | root
  /-- The body of the loop that the node closes. -/
  | loop (node : Handle)
  | branch (node : Handle) (index : Nat)
  deriving DecidableEq, Repr

/-- A scope with its place in the tree, and the addresses that are laid out for it. -/
structure Scope where
  kind : ScopeKind := .root
  parent : Option Nat := none
  depth : Nat := 0
  size : Nat := 0
  base : Nat := 0
  deriving DecidableEq, Repr, Inhabited

/-- The scopes of a program; parents come before children. -/
structure ScopeTree where
  scopes : Array Scope := #[{}]
  deriving Inhabited

namespace ScopeTree

def rootId : Nat := 0

def size (tree : ScopeTree) : Nat := tree.scopes.size

def scope (tree : ScopeTree) (id : Nat) : Scope := (tree.scopes[id]?).getD {}

def parent? (tree : ScopeTree) (id : Nat) : Option Nat := (tree.scope id).parent

def depth (tree : ScopeTree) (id : Nat) : Nat := (tree.scope id).depth

/-- Open a scope in another one. -/
def child (tree : ScopeTree) (parent : Nat) (kind : ScopeKind) : Nat × ScopeTree :=
  let scope : Scope := { kind, parent := some parent, depth := tree.depth parent + 1 }
  (tree.size, ⟨tree.scopes.push scope⟩)

/-- The scope one level further out; the root is its own. -/
def outer (tree : ScopeTree) (id : Nat) : Nat := (tree.parent? id).getD rootId

/-- Whether `ancestor` is met on the way out from `id`, not beyond its own depth. -/
def enclosesWithin (tree : ScopeTree) (ancestor : Nat) : Nat → Nat → Bool
  | 0, _ => false
  | steps + 1, id =>
    if tree.depth id < tree.depth ancestor then false
    else if id = ancestor then true
    else match tree.parent? id with
      | some parent => tree.enclosesWithin ancestor steps parent
      | none => false

/-- Whether a scope is another one or lies around it. -/
def encloses (tree : ScopeTree) (ancestor id : Nat) : Bool :=
  tree.enclosesWithin ancestor (tree.depth id + 1) id

/-- That many levels up. -/
def climb (tree : ScopeTree) : Nat → Nat → Nat
  | 0, id => id
  | levels + 1, id => tree.climb levels (tree.outer id)

/-- Climb from two scopes of one depth until they meet. -/
def meet (tree : ScopeTree) : Nat → Nat → Nat → Nat
  | 0, a, _ => a
  | levels + 1, a, b => if a = b then a else tree.meet levels (tree.outer a) (tree.outer b)

/-- The innermost scope around two scopes. -/
def common (tree : ScopeTree) (a b : Nat) : Nat :=
  let a' := tree.climb (tree.depth a - tree.depth b) a
  let b' := tree.climb (tree.depth b - tree.depth a) b
  tree.meet (tree.depth a' + 1) a' b'

/-- Claim the next address of a scope; the answer is its offset in the scope. -/
def claim (tree : ScopeTree) (id : Nat) : Nat × ScopeTree :=
  ((tree.scope id).size, ⟨tree.scopes.modify id fun scope => { scope with size := scope.size + 1 }⟩)

/-- The first address of a scope whose parent is laid out. -/
def baseOf (tree : ScopeTree) (reserved id : Nat) : Nat :=
  match tree.parent? id with
  | some parent => (tree.scope parent).base + (tree.scope parent).size
  | none => reserved

/-- Lay out the scopes of the given numbers; `frameSize` is what the earlier ones need. -/
def layoutFrom (reserved : Nat) : List Nat → Nat → ScopeTree → Nat × ScopeTree
  | [], frameSize, tree => (frameSize, tree)
  | id :: ids, frameSize, tree =>
    let base := tree.baseOf reserved id
    let frameSize := max frameSize (base + (tree.scope id).size)
    layoutFrom reserved ids frameSize ⟨tree.scopes.modify id fun scope => { scope with base }⟩

/-- Give every scope its addresses, behind the reserved ones. The answer is the size of the
frame. -/
def layout (tree : ScopeTree) (reserved : Nat) : Nat × ScopeTree :=
  layoutFrom reserved (List.range tree.size) reserved tree

def address (tree : ScopeTree) (id offset : Nat) : Nat := (tree.scope id).base + offset

/-- The first address behind its own. -/
def limit (tree : ScopeTree) (id : Nat) : Nat := (tree.scope id).base + (tree.scope id).size

/-- The addresses of a scope and everything in it, from the first up to but not including the
second. -/
def extent (tree : ScopeTree) (id : Nat) : Nat × Nat :=
  let nested := (List.range tree.size).filter (tree.encloses id)
  ((tree.scope id).base,
    (nested.map tree.limit).foldl max ((tree.scope id).base))

end ScopeTree

end Blockflow
