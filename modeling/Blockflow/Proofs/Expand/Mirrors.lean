import Blockflow.Proofs.Expand.Restating
import Blockflow.Proofs.Graph.Nodes

/-!
# Graphs of circuits stated in other ways

Two graphs mirror each other if they have the same nodes and expansions under the same handles, up
to what the circuits call their links and where their blocks are. What is done to both graphs in the
same way keeps that.
-/

namespace Blockflow

open Option List Array Node Arena

variable {α β : Type} {R : α → β → Prop} {x : Option α} {y : Option β}

/-! ## Arenas -/

lemma rel_map (both : Rel R x y) (related : ∀ a b, x = some a → R a b → S (f a) (k b)) :
    Rel S (x.map f) (y.map k) := by
  cases both with
  | none => exact .none
  | some both => exact .some (related _ _ rfl both)

lemma rel_cases (both : Rel R x y) :
    (x = none ∧ y = none) ∨ ∃ a b, x = some a ∧ y = some b ∧ R a b := by
  cases both with
  | none => exact .inl ⟨rfl, rfl⟩
  | some both => exact .inr ⟨_, _, rfl, rfl, both⟩

lemma rel_imp (both : Rel R x y) (related : ∀ a b, R a b → S a b) : Rel S x y := by
  cases both with
  | none => exact .none
  | some both => exact .some (related _ _ both)

namespace Arena

variable {α β : Type} {R S : α → β → Prop} {a : Arena α} {b : Arena β}

lemma map_snd_toList (a : Arena α) (f : α → γ) :
    a.toList.map (fun entry => f entry.2) = (a.slots.toList.map (·.value.map f)).filterMap id := by
  conv_rhs => rw [← List.zipIdx_map_fst 0 a.slots.toList, List.map_map, List.filterMap_map]
  rw [toList, List.map_filterMap]
  congr 1
  funext slot
  exact Option.map_map ..

/-- The same handles stand for related values. -/
structure Mirrors (R : α → β → Prop) (a : Arena α) (b : Arena β) : Prop where
  vacant : b.vacant = a.vacant
  size : b.size = a.size
  length : b.slots.size = a.slots.size
  slots : ∀ i : Nat, Rel (fun slot slot' => slot'.generation = slot.generation ∧
    Rel R slot.value slot'.value) a.slots[i]? b.slots[i]?

namespace Mirrors

variable (mirrors : Mirrors R a b)
include mirrors

lemma mono (weaker : ∀ x y, R x y → S x y) : Mirrors S a b where
  vacant := mirrors.vacant
  size := mirrors.size
  length := mirrors.length
  slots i := rel_imp (mirrors.slots i) fun _ _ both => ⟨both.1, rel_imp both.2 weaker⟩

lemma get? (id : Handle) : Rel R (a.get? id) (b.get? id) := by
  have both := mirrors.slots id.index
  rw [Arena.get?, Arena.get?]
  generalize a.slots[id.index]? = slot, b.slots[id.index]? = slot' at both
  cases both with
  | none => exact .none
  | some related =>
    obtain ⟨gen, vs⟩ := related
    dsimp only
    rw [gen]
    split
    · exact vs
    · exact .none

lemma contains (id : Handle) : b.contains id = a.contains id := by
  have both := mirrors.get? id
  rw [Arena.contains, Arena.contains]
  generalize a.get? id = x, b.get? id = y at both
  cases both <;> rfl

lemma modify (id : Handle)
    (related : ∀ x y, a.get? id = some x → R x y → R (f x) (k y)) :
    Mirrors R (a.modify id f) (b.modify id k) where
  vacant := mirrors.vacant
  size := mirrors.size
  length := by simp only [Arena.modify, Array.size_modify, mirrors.length]
  slots i := by
    have both := mirrors.slots i
    simp only [Arena.modify, Array.getElem?_modify]
    split
    next here =>
      subst here
      refine rel_map both fun slot slot' isSlot both => ?_
      obtain ⟨gen, vs⟩ := both
      rw [gen]
      split
      next current =>
        refine ⟨rfl, rel_map vs fun x y stored => related x y ?_⟩
        rw [Arena.get?, isSlot]
        dsimp only
        rw [if_pos current, stored]
      next => exact ⟨gen, vs⟩
    next => exact both

lemma alloc {x : α} {y : β} (related : R x y) :
    (b.alloc y).1 = (a.alloc x).1 ∧ Mirrors R (a.alloc x).2 (b.alloc y).2 := by
  rw [Arena.alloc, Arena.alloc, mirrors.vacant]
  cases a.vacant with
  | nil =>
    refine ⟨by rw [mirrors.length], rfl, by rw [mirrors.size], ?_, fun i => ?_⟩
    · rw [size_push, size_push, mirrors.length]
    · rw [getElem?_push, getElem?_push, mirrors.length]
      split
      · exact .some ⟨rfl, .some related⟩
      · exact mirrors.slots i
  | cons i vacant =>
    have gen : (b.slots[i]?.map Slot.generation).getD 0 =
        (a.slots[i]?.map Slot.generation).getD 0 := by
      have both := mirrors.slots i
      generalize a.slots[i]? = slot, b.slots[i]? = slot' at both
      cases both with
      | none => rfl
      | some both => exact both.1
    dsimp only
    refine ⟨by rw [gen], rfl, by rw [mirrors.size], ?_, fun other => ?_⟩
    · rw [size_modify, size_modify, mirrors.length]
    · have both := mirrors.slots other
      rw [Array.getElem?_modify, Array.getElem?_modify]
      split
      · exact rel_map both fun _ _ _ both => ⟨both.1, .some related⟩
      · exact both

lemma map_toList {γ : Type} {f : α → γ} {k : β → γ} (same : ∀ x y, R x y → k y = f x) :
    b.toList.map (fun entry => k entry.2) = a.toList.map fun entry => f entry.2 := by
  have vs : b.slots.toList.map (·.value.map k) = a.slots.toList.map (·.value.map f) := by
    refine ext_getElem? fun i => ?_
    rw [List.getElem?_map, List.getElem?_map, getElem?_toList, getElem?_toList]
    exact rel_map_eq (mirrors.slots i) fun _ _ both => rel_map_eq both.2 same
  rw [map_snd_toList, map_snd_toList, vs]

end Mirrors

end Arena

/-! ## Nodes and expansions -/

/-- The name of the circuit that an expansion is of. -/
def Graph.host? (g : Graph) (id : Handle) : Option String := (g.expansion? id).map (·.circuit.name)

namespace Library

/-- A link is looked up in a circuit. -/
def Mentions (lib : Library) (name link : String) : Prop :=
  ∃ c, lib.circuit? name = some c ∧ link ∈ c.mentioned

/-- A circuit has a block at a place. -/
def Places (lib : Library) (name : String) (block : Nat) : Prop :=
  ∃ c, lib.circuit? name = some c ∧ block < c.blocks.length

end Library

/-- A link that has no name has none under another statement of the circuit. -/
lemma Restyling.isEmpty (style : Restyling lib lib')
    (mentions : lib.Mentions name link) : (style.rename name link).isEmpty = link.isEmpty := by
  obtain ⟨c, found, mentioned⟩ := mentions
  have both := style.circuits name
  rw [found] at both
  generalize lib'.circuit? name = found' at both
  cases both with
  | some mirrors => exact mirrors.isEmpty link mentioned

lemma Restyling.mirrors (style : Restyling lib lib') (known : lib.circuit? name = some c)
    (known' : lib'.circuit? name = some c') :
    c.Mirrors (style.rename name) (style.move name) c' := by
  have both := style.circuits name
  rw [known, known'] at both
  cases both
  assumption

/-- Nodes that compute the same; the places of nested blocks do not matter for that. -/
inductive Behavior.Mirrors : Behavior → Behavior → Prop where
  | same (b : Behavior) : Mirrors b b
  | nested (block block' pin : Nat) : Mirrors (.nested block pin) (.nested block' pin)

lemma Behavior.Mirrors.kind {b b' : Behavior} (mirrors : b.Mirrors b') :
    b'.kind = b.kind := by
  cases mirrors <;> rfl

section

variable {lib lib' : Library} (style : Restyling lib lib')

/-- What a pin waits for in a circuit, in both ways to state it. -/
inductive Pending.Mirrors (name : String) : Pending → Pending → Prop where
  | link {link : String} (mentions : lib.Mentions name link) :
      Mirrors name (.link link) (.link (style.rename name link))
  | nestedOutput {block : Nat} (places : lib.Places name block) (pin : Nat) :
      Mirrors name (.nestedOutput block pin) (.nestedOutput (style.move name block) pin)

/-- The same pin of a node waits for the same in both ways to state the circuit of the node. -/
def Waits (host : Handle → Option String) (owner : Option Handle) (entry entry' : Nat × Pending) :
    Prop :=
  entry'.1 = entry.1 ∧ ∃ id name, owner = some id ∧ host id = some name ∧
    Pending.Mirrors style name entry.2 entry'.2

/-- The same node, up to what its pins wait for. -/
inductive Node.Mirrors (host : Handle → Option String) (n : Node) : Node → Prop where
  | mk {b : Behavior} {pending : List (Nat × Pending)} (computes : n.behavior.Mirrors b)
      (waits : Forall₂ (Waits style host n.owner) n.pending pending) :
      Mirrors host n { n with behavior := b, pending }

/-- The same call site in both ways to state the circuit around it. -/
def CallSite.Mirrors (host : Handle → Option String) (site site' : CallSite) : Prop :=
  site'.expansion = site.expansion ∧ ∃ name, host site.expansion = some name ∧
    lib.Places name site.block ∧ site'.block = style.move name site.block

/-- The same instance of a circuit that is stated in two ways. -/
inductive Expansion.Mirrors (host : Handle → Option String) (e : Expansion) : Expansion → Prop where
  | mk {c : Circuit} {parents : List CallSite} {links : List (String × LinkTarget)}
      {blocks : Array BlockState} (known : lib.circuit? e.circuit.name = some e.circuit)
      (known' : lib'.circuit? e.circuit.name = some c)
      (sites : Forall₂ (CallSite.Mirrors style host) e.parents parents)
      (isLinks : linkMap e.circuit = .ok e.links) (isLinks' : linkMap c = .ok links)
      (size : e.blocks.size = e.circuit.blocks.length) (size' : blocks.size = c.blocks.length)
      (states : ∀ i : Nat, i < e.blocks.size → blocks[style.move e.circuit.name i]? =
        e.blocks[i]?) :
      Mirrors host e { e with circuit := c, parents, links, blocks }

/-- The same graph over circuits that are stated in two ways. -/
structure Graph.Mirrors (g g' : Graph) : Prop where
  nodes : g.nodes.Mirrors (Node.Mirrors style g.host?) g'.nodes
  expansions : g.expansions.Mirrors (Expansion.Mirrors style g.host?) g'.expansions
  nodesFormed : g.nodes.WellFormed
  expansionsFormed : g.expansions.WellFormed
  worklist : g'.worklist = g.worklist
  diagnostics : Forall₂ Diagnostic.Mirrors g.diagnostics.entries g'.diagnostics.entries
  previews : g'.previews = g.previews

end

variable {lib lib' : Library} {style : Restyling lib lib'} {host host' : Handle → Option String}

/-! More expansions change nothing about those that are there. -/

lemma Waits.mono {owner : Option Handle} (waits : Waits style host owner entry entry')
    (more : ∀ {id name}, host id = some name → host' id = some name) :
    Waits style host' owner entry entry' := by
  obtain ⟨pin, id, name, isOwner, hosted, mirrors⟩ := waits
  exact ⟨pin, id, name, isOwner, more hosted, mirrors⟩

lemma Node.Mirrors.mono {n n' : Node} (mirrors : n.Mirrors style host n')
    (more : ∀ {id name}, host id = some name → host' id = some name) :
    n.Mirrors style host' n' := by
  cases mirrors with
  | mk computes waits => exact .mk computes (waits.imp fun _ _ waits => waits.mono more)

lemma Expansion.Mirrors.mono {e e' : Expansion} (mirrors : e.Mirrors style host e')
    (more : ∀ {id name}, host id = some name → host' id = some name) :
    e.Mirrors style host' e' := by
  cases mirrors with
  | mk known known' sites isLinks isLinks' size size' states =>
    refine .mk known known' (sites.imp fun _ _ site => ?_) isLinks isLinks' size size' states
    obtain ⟨same, name, hosted, places⟩ := site
    exact ⟨same, name, more hosted, places⟩

namespace Expansion.Mirrors

variable {e e' : Expansion} {link : String} {block : Nat}

variable (mirrors : e.Mirrors style host e')
include mirrors

lemma note {f : Expansion → Expansion}
    (notes : ∀ e c parents links blocks, f { e with circuit := c, parents, links, blocks } =
      { f e with circuit := c, parents, links, blocks }) : (f e).Mirrors style host (f e') := by
  have same := notes e e.circuit e.parents e.links e.blocks
  cases mirrors with
  | @mk c parents links blocks known known' sites isLinks isLinks' size size' states =>
    rw [notes e c parents links blocks]
    rw [same]
    exact .mk known known' sites isLinks isLinks' size size' states

lemma circuit :
    e.circuit.Mirrors (style.rename e.circuit.name) (style.move e.circuit.name) e'.circuit := by
  cases mirrors with
  | mk known known' => exact style.mirrors known known'

lemma name : e'.circuit.name = e.circuit.name :=
  (Circuit.eq_of_signature mirrors.circuit.signature).1

lemma inputPins : e'.circuit.inputPins = e.circuit.inputPins :=
  congrArg Pins.mk (Circuit.eq_of_signature mirrors.circuit.signature).2.1

lemma outputPins : e'.circuit.outputPins = e.circuit.outputPins :=
  congrArg Pins.mk (Circuit.eq_of_signature mirrors.circuit.signature).2.2.1

lemma argumentPins : e'.circuit.argumentPins = e.circuit.argumentPins :=
  congrArg Pins.mk (Circuit.eq_of_signature mirrors.circuit.signature).2.2.2

lemma lookup (mentioned : link ∈ e.circuit.mentioned) :
    e'.links.lookup (style.rename e.circuit.name link) =
      (e.links.lookup link).map (·.move (style.move e.circuit.name)) := by
  have links := mirrors.circuit.links
  cases mirrors with
  | mk known known' sites isLinks isLinks' =>
    rw [isLinks, isLinks'] at links
    cases links with
    | ok same => exact same link mentioned

lemma inside (found : e.links.lookup link = some (.output block pin)) :
    block < e.circuit.blocks.length := by
  cases mirrors with
  | mk known known' sites isLinks => exact Expansion.block_of_lookup isLinks found

lemma specialize : e'.specialize = e.specialize := by
  have pins := mirrors.argumentPins
  have args : e'.arguments = e.arguments := by
    cases mirrors
    rfl
  funext args
  rw [Expansion.specialize]
  congr 1
  funext argument
  rw [Expansion.specializeOne, Expansion.specializeOne, pins, ‹e'.arguments = e.arguments›]

lemma block? (found : e.block? block = some descriptor) :
    e'.block? (style.move e.circuit.name block) =
      some (descriptor.rename (style.rename e.circuit.name)) :=
  mirrors.circuit.blocks found

lemma stateOf (inside : block < e.circuit.blocks.length) :
    e'.stateOf (style.move e.circuit.name block) = e.stateOf block := by
  cases mirrors with
  | mk known known' sites isLinks isLinks' size size' states =>
    rw [Expansion.stateOf, Expansion.stateOf]
    rw [states block (size ▸ inside)]

lemma setBlock (inside : block < e.circuit.blocks.length) (state : BlockState) :
    (e.setBlock block state).Mirrors style host
      (e'.setBlock (style.move e.circuit.name block) state) := by
  have apart := mirrors.circuit.apart
  have inside' : style.move e.circuit.name block < e'.circuit.blocks.length :=
    lt_of_getElem? (mirrors.circuit.blocks (getElem?_eq_getElem inside))
  cases mirrors with
  | @mk c parents links blocks known known' sites isLinks isLinks' size size' states =>
    have sizes : ∀ (blocks : Array BlockState) (block : Nat),
        (blocks.setIfInBounds block state).size = blocks.size :=
      fun _ _ => size_setIfInBounds
    refine .mk known known' sites isLinks isLinks' ((sizes _ _).trans size)
      ((sizes _ _).trans size')
      fun i isIndex => ?_
    show (blocks.setIfInBounds (style.move e.circuit.name block) state)[style.move
      e.circuit.name i]? =
      (e.blocks.setIfInBounds block state)[i]?
    rw [getElem?_setIfInBounds, getElem?_setIfInBounds, size', size]
    by_cases same : block = i
    · rw [if_pos same, if_pos (congrArg _ same), if_pos inside, if_pos inside']
    · rw [if_neg same, if_neg fun moved => same (apart moved)]
      exact states i (sizes e.blocks block ▸ isIndex)

end Expansion.Mirrors

namespace Node.Mirrors

variable {n n' : Node}

variable (same : n.Mirrors style host n')
include same

lemma settlePin (pin : Nat) : (n.settlePin pin).Mirrors style host (n'.settlePin pin) := by
  cases same with
  | mk computes waits =>
    refine .mk computes (rel_filter (fun entry entry' both => ?_) waits)
    show entry.1 != pin ↔ entry'.1 != pin
    rw [both.1]

lemma setInput (pin : Nat) (src : Option Handle) :
    (n.setInput pin src).Mirrors style host (n'.setInput pin src) := by
  have settled := same.settlePin pin
  cases same
  cases settled with
  | mk computes waits => exact .mk computes waits

/-- A change of what both nodes have in common. -/
lemma edit {f : Node → Node} (edits : ∀ n b pending, f { n with behavior := b, pending } =
      { f n with behavior := b, pending }) (owner : ∀ n, (f n).owner = n.owner) :
    (f n).Mirrors style host (f n') := by
  have left := edits n n.behavior n.pending
  cases same with
  | @mk b pending computes waits =>
    rw [edits n b pending, left]
    exact .mk computes (owner n ▸ waits)

end Node.Mirrors

/-! ## What is done to both graphs -/

namespace Graph

lemma host?_modifyExpansion (g : Graph) (id : Handle)
    (keeps : ∀ e, (f e).circuit.name = e.circuit.name) :
    (g.modifyExpansion id f).host? = g.host? := by
  funext other
  rw [host?, expansion?, modifyExpansion, get?_modify]
  split
  next same =>
    rw [same, Option.map_map]
    congr 1
    funext e
    exact keeps e
  next => rfl

namespace Mirrors

variable {g g' : Graph} {id : Handle} {pin : Nat}

variable (mirrors : g.Mirrors style g')
include mirrors

lemma node? (id : Handle) : (g.node? id = none ∧ g'.node? id = none) ∨ ∃ n n', g.node? id = some n ∧
      g'.node? id = some n' ∧ n.Mirrors style g.host? n' :=
  rel_cases (mirrors.nodes.get? id)

lemma expansion? (id : Handle) :
    (g.expansion? id = none ∧ g'.expansion? id = none) ∨ ∃ e e', g.expansion? id = some e ∧
      g'.expansion? id = some e' ∧ e.Mirrors style g.host? e' :=
  rel_cases (mirrors.expansions.get? id)

lemma contains : g'.contains = g.contains :=
  funext mirrors.nodes.contains

lemma live? (src : Option Handle) : g'.live? src = g.live? src := by
  rw [Graph.live?, Graph.live?, mirrors.contains]

lemma output? : g'.output? = g.output? := by
  funext id
  rw [Graph.output?, Graph.output?]
  rcases mirrors.node? id with ⟨gone, gone'⟩ | ⟨n, n', found, found', ⟨_, _⟩⟩
  · rw [gone, gone']
  · rw [found, found']
    rfl

lemma host? : g'.host? = g.host? := by
  funext id
  rw [Graph.host?, Graph.host?]
  rcases mirrors.expansion? id with ⟨gone, gone'⟩ | ⟨e, e', found, found', same⟩
  · rw [gone, gone']
  · rw [found, found', map_some, map_some, same.name]

lemma circuitOf? (id : Handle) : g'.circuitOf? id = g.circuitOf? id := by
  have byHost : ∀ g : Graph, g.circuitOf? id = ((g.node? id).bind owner).bind g.host? := by
    intro g
    rw [Graph.circuitOf?]
    cases g.node? id with
    | none => rfl
    | some n =>
      show (n.owner.bind fun owner => (g.expansion? owner).bind fun e => some e.circuit.name) = _
      congr 1
      funext owner
      rw [Graph.host?]
      cases g.expansion? owner <;> rfl
  rw [byHost, byHost, mirrors.host?]
  rcases mirrors.node? id with ⟨gone, gone'⟩ | ⟨n, n', found, found', ⟨_, _⟩⟩
  · rw [gone, gone']
  · rw [found, found']
    rfl

lemma modifyNode (id : Handle) (related : ∀ n n', g.node? id = some n → n.Mirrors style g.host? n' →
      (f n).Mirrors style g.host? (k n')) :
    (g.modifyNode id f).Mirrors style (g'.modifyNode id k) :=
  { mirrors with
    nodes := mirrors.nodes.modify id related
    nodesFormed := mirrors.nodesFormed.modify id f }

lemma edit (id : Handle) (edits : ∀ n b pending, f { n with behavior := b, pending } =
      { f n with behavior := b, pending }) (owner : ∀ n, (f n).owner = n.owner) :
    (g.modifyNode id f).Mirrors style (g'.modifyNode id f) :=
  mirrors.modifyNode id fun _ _ _ same => same.edit edits owner

lemma modifyExpansion (id : Handle) (keeps : ∀ e, (f e).circuit.name = e.circuit.name)
    (related : ∀ e e', g.expansion? id = some e → e.Mirrors style g.host? e' →
      (f e).Mirrors style g.host? (k e')) :
    (g.modifyExpansion id f).Mirrors style (g'.modifyExpansion id k) := by
  have same := g.host?_modifyExpansion id keeps
  exact
    { mirrors with
      nodes := same ▸ mirrors.nodes
      expansions := same ▸ mirrors.expansions.modify id related
      expansionsFormed := mirrors.expansionsFormed.modify id f }

lemma note (id : Handle)
    (notes : ∀ e c parents links blocks, f { e with circuit := c, parents, links, blocks } =
      { f e with circuit := c, parents, links, blocks }) :
    (g.modifyExpansion id f).Mirrors style (g'.modifyExpansion id f) :=
  mirrors.modifyExpansion id
    (fun e => congrArg (·.circuit.name) (notes e e.circuit e.parents e.links e.blocks))
    fun _ _ _ same => same.note notes

lemma touch : g.touch.Mirrors style g'.touch :=
  { mirrors with }

lemma markDirty (id : Handle) (pin : Nat) :
    (g.markDirty id pin).Mirrors style (g'.markDirty id pin) := by
  rw [Graph.markDirty, Graph.markDirty]
  rcases mirrors.node? id with ⟨gone, gone'⟩ | ⟨n, n', found, found', same⟩
  · rw [gone, gone']
    exact mirrors
  · rw [found, found']
    have marked := mirrors.edit id (f := dirtied pin) (fun _ _ _ => rfl) fun _ => rfl
    have queued : n'.queued = n.queued := by
      cases same
      rfl
    dsimp only
    rw [queued]
    split
    · exact marked
    · exact { marked with worklist := congrArg (Worklist.push · id) mirrors.worklist }

lemma addNode (computes : b.Mirrors b') (inputs : Nat) (owner : Option Handle) :
    (g'.addNode b' inputs owner).1 = (g.addNode b inputs owner).1 ∧
      (g.addNode b inputs owner).2.Mirrors style (g'.addNode b' inputs owner).2 := by
  have made : (make b inputs owner).Mirrors style g.host? (make b' inputs owner) :=
    .mk computes .nil
  obtain ⟨sameId, nodes⟩ := mirrors.nodes.alloc made
  obtain ⟨formed, -⟩ := alloc_facts mirrors.nodesFormed (make b inputs owner)
  rw [Graph.addNode, Graph.addNode]
  generalize g.nodes.alloc (make b inputs owner) = new,
    g'.nodes.alloc (make b' inputs owner) = new' at sameId nodes formed
  obtain ⟨id, arena⟩ := new
  obtain ⟨id', arena'⟩ := new'
  obtain rfl : id' = id := sameId
  have added : ({ g with nodes := arena } : Graph).Mirrors style { g' with nodes := arena' } :=
    { mirrors with nodes := nodes, nodesFormed := formed }
  cases owner with
  | none => exact ⟨rfl, (added.touch).markDirty id' 0⟩
  | some owner =>
    have listed : (({ g with nodes := arena } : Graph).modifyExpansion owner fun e =>
        { e with members := e.members.push id' }).Mirrors style
          (({ g' with nodes := arena' } : Graph).modifyExpansion
          owner fun e => { e with members := e.members.push id' }) := by
      exact added.note owner fun _ _ _ _ _ => rfl
    exact ⟨rfl, listed.touch.markDirty id' 0⟩

lemma addPending {pending pending' : Pending}
    (waits : ∀ n, g.node? id = some n →
      Waits style g.host? n.owner (pin, pending) (pin, pending')) :
    (g.addPending id pin pending).Mirrors style (g'.addPending id pin pending') := by
  refine (mirrors.modifyNode id fun n n' found same => ?_).markDirty id pin
  have settled := same.settlePin pin
  rw [setPending, setPending]
  generalize isSettled : n.settlePin pin = left, n'.settlePin pin = right at settled
  have owner : left.owner = n.owner := by rw [← isSettled]; rfl
  cases settled with
  | mk computes waiting =>
    exact .mk computes (rel_append waiting (.cons (owner ▸ waits n found) .nil))

lemma rewire (id : Handle) (pin : Nat) (old src : Option Handle) :
    (g.rewire id pin old src).Mirrors style (g'.rewire id pin old src) := by
  have set := mirrors.modifyNode id fun _ _ _ same => same.setInput pin src
  have left : ((g.modifyNode id (·.setInput pin src)).detach old ⟨id, pin⟩).Mirrors style
      ((g'.modifyNode id (·.setInput pin src)).detach old ⟨id, pin⟩) := by
    cases old with
    | none => exact set
    | some old => exact set.edit old (fun _ _ _ => rfl) fun _ => rfl
  refine touch ?_
  cases src with
  | none => exact left
  | some src =>
    refine left.edit src (fun n _ _ => ?_) fun n => ?_
    · rw [addConsumer, addConsumer]
      split <;> rfl
    · rw [addConsumer]
      split <;> rfl

lemma connect (id : Handle) (pin : Nat) (src : Option Handle) :
    (g.connect id pin src).Mirrors style (g'.connect id pin src) := by
  rw [connect_eq, connect_eq, mirrors.live?]
  generalize g.live? src = src
  rcases mirrors.node? id with ⟨gone, gone'⟩ | ⟨n, n', found, found', same⟩
  · rw [gone, gone']
    exact mirrors
  have sameSource : n'.source? pin = n.source? pin := by
    cases same
    rfl
  have wired := mirrors.rewire id pin (n.source? pin) src
  rw [found, found']
  dsimp only
  rw [sameSource, wired.output?]
  split
  · exact wired.markDirty id pin
  · exact wired

lemma addPendingLink
    (isEmpty : link'.isEmpty = link.isEmpty)
    (waits : link.isEmpty = false → ∀ n, g.node? id = some n →
      Waits style g.host? n.owner (pin, .link link) (pin, .link link')) :
    (g.addPendingLink id pin link).Mirrors style (g'.addPendingLink id pin link') := by
  rw [Graph.addPendingLink, Graph.addPendingLink, isEmpty]
  split
  · exact mirrors
  next filled => exact mirrors.addPending (waits (by simpa using filled))

lemma markEdges (edges : List Edge) : (g.markEdges edges).Mirrors style (g'.markEdges edges) := by
  rw [Graph.markEdges]
  induction edges generalizing g g' with
  | nil => exact mirrors
  | cons edge edges ih => exact ih (mirrors.markDirty edge.node edge.pin)

lemma updateOutput (id : Handle) (v : Option Value) :
    (g.updateOutput id v).2.Mirrors style (g'.updateOutput id v).2 := by
  rw [Graph.updateOutput, Graph.updateOutput]
  rcases mirrors.node? id with ⟨gone, gone'⟩ | ⟨n, n', found, found', same⟩
  · rw [gone, gone']
    exact mirrors
  · rw [found, found']
    have fields : n'.output = n.output ∧ n'.consumers = n.consumers := by
      cases same
      exact ⟨rfl, rfl⟩
    have updated :=
      mirrors.edit id (f := fun n => { n with output := v }) (fun _ _ _ => rfl) fun _ => rfl
    dsimp only
    rw [fields.1, fields.2]
    split
    · exact mirrors
    · exact updated.markEdges n.consumers

lemma clearNode (id : Handle) :
    ({ g with diagnostics := g.diagnostics.clearNode id } : Graph).Mirrors style
      { g' with diagnostics := g'.diagnostics.clearNode id } := by
  refine { mirrors with diagnostics := rel_filter (fun d d' both => ?_) mirrors.diagnostics }
  show decide (d.locator.node ≠ some id) ↔ decide (d'.locator.node ≠ some id)
  rw [both.2]

lemma report (alike : d.Mirrors d') :
    ({ g with diagnostics := g.diagnostics.push d } : Graph).Mirrors style
      { g' with diagnostics := g'.diagnostics.push d' } := by
  rw [DiagnosticChain.push, DiagnosticChain.push, alike.2]
  cases d.locator.node with
  | none => exact { mirrors with diagnostics := rel_append mirrors.diagnostics (.cons alike .nil) }
  | some n =>
    exact
      { mirrors with
        diagnostics := rel_append (mirrors.clearNode n).diagnostics (.cons alike .nil) }

lemma evaluate (ms : Methods) (id : Handle) (same : n.Mirrors style g.host? n') :
    g'.evaluate ms id n' = g.evaluate ms id n := by
  cases same with
  | @mk b pending computes waits =>
    have v : ∀ pin, g'.inputValue? { n with behavior := b, pending } pin = g.inputValue? n pin := by
      intro pin
      rw [inputValue?, mirrors.output?]
      rfl
    have vs : g'.inputValues? { n with behavior := b, pending } = g.inputValues? n := by
      rw [inputValues?, inputValues?, mirrors.output?]
    simp only [Graph.evaluate, v, vs, mirrors.previews]
    generalize n.behavior = computed at computes
    cases computes <;> rfl

end Mirrors

end Graph

end Blockflow
