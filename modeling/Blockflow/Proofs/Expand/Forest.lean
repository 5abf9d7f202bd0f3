import Blockflow.Proofs.Expand.Unfolding

/-!
# The forest of expansions

The expansions of a graph form a forest: an expansion that is nested in another one is there
together with it, and is the one that the block of its call site has. Every node that was made for
an expansion is listed there. The line of an expansion leads from it outwards to its root; its
handles differ, and so do the names of the circuits. Unfolding a graph keeps all that.
-/

namespace Blockflow

open List Option Expansion Arena Chart

/-- The handles from an expansion outwards to its root. -/
def Expansion.line (e : Expansion) (id : Handle) :
    List Handle := id :: e.parents.map CallSite.expansion

/-- The parameters and outputs of a root are nodes of its own. -/
def Expansion.Anchored (e : Expansion) : Prop := ∀ n ∈ e.params ++ e.anchors, n ∈ e.members

lemma Expansion.make_facts {parents : List CallSite} {args : List String}
    {fresh : Expansion} (made : make c parents args = .ok fresh) :
    fresh.circuit = c ∧ fresh.parents = parents ∧ fresh.members = #[] ∧ fresh.Anchored ∧
      ∀ block, (fresh.stateOf block).child? = none := by
  rw [Expand.make_eq] at made
  cases isLinks : linkMap c with
  | error d =>
    rw [isLinks] at made
    cases made
  | ok links =>
    rw [isLinks] at made
    cases made
    refine ⟨rfl, rfl, rfl, fun n mem => ?_, fun block => ?_⟩
    · cases mem
    · rw [stateOf_blank]
      rfl

namespace Graph

variable {Known : String → Prop} {g a b : Graph} {id : Handle} {e : Expansion}

/-- Expansions are nested in expansions that know of them, under names that differ; `Known` are the
names of circuits. -/
structure Forest (Known : String → Prop) (g : Graph) : Prop where
  nodes : g.nodes.WellFormed
  expansions : g.expansions.WellFormed
  housed : g.Housed
  owned : ∀ {id n owner}, g.node? id = some n → n.owner = some owner →
    ∃ e, g.expansion? owner = some e
  outer : ∀ {id e site rest}, g.expansion? id = some e → e.parents = site :: rest → ∃ around,
    g.expansion? site.expansion = some around ∧ around.parents = rest ∧
      (around.stateOf site.block).child? = some id
  inner : ∀ {id e block child}, g.expansion? id = some e → (e.stateOf block).child? = some child →
    g.expansions.Issued child ∧
      ∀ e', g.expansion? child = some e' → e'.parents = ⟨id, block⟩ :: e.parents
  apart : ∀ {id e site around}, g.expansion? id = some e → site ∈ e.parents →
    g.expansion? site.expansion = some around → around.circuit.name ≠ e.circuit.name
  known : ∀ {id e}, g.expansion? id = some e → Known e.circuit.name
  anchored : ∀ {id e}, g.expansion? id = some e → e.Anchored

lemma forest_empty : Forest Known {} where
  nodes := wellFormed_empty
  expansions := wellFormed_empty
  housed := by
    refine ⟨fun found => ?_, fun found => ?_, fun found => ?_⟩ <;> cases found
  owned found := nomatch found
  outer found := nomatch found
  inner found := nomatch found
  apart found := nomatch found
  known found := nomatch found
  anchored found := nomatch found

namespace Forest

/-! ## Lines -/

section

variable (forest : g.Forest Known)
include forest

variable (found : g.expansion? id = some e)
include found

lemma line_outer {site : CallSite} (isParents : e.parents = site :: rest) : ∃ around,
    g.expansion? site.expansion = some around ∧ around.parents = rest ∧
    e.line id = id :: around.line site.expansion := by
  obtain ⟨around, isAround, isRest, -⟩ := forest.outer found isParents
  exact ⟨around, isAround, isRest, by rw [line, isParents, map_cons, line, isRest]⟩

/-- Every part of a line that leads to the root is the line of its first expansion. -/
lemma line_of_suffix (suffix : first :: rest <:+ e.line id) :
    ∃ e', g.expansion? first = some e' ∧ e'.line first = first :: rest := by
  generalize isParents : e.parents = parents
  induction parents generalizing id e with
  | nil =>
    rw [line, isParents] at suffix
    rcases suffix_cons_iff.mp suffix with eq | inside
    · cases eq
      exact ⟨e, found, by rw [line, isParents]⟩
    · cases suffix_nil.mp inside
  | cons site outer ih =>
    obtain ⟨around, isAround, isOuter, line⟩ := forest.line_outer found isParents
    rw [line] at suffix
    rcases suffix_cons_iff.mp suffix with eq | inside
    · cases eq
      exact ⟨e, found, line⟩
    · exact ih isAround inside isOuter

lemma live_of_mem (mem : other ∈ e.line id) :
    ∃ e', g.expansion? other = some e' ∧ e'.line other <:+ e.line id := by
  obtain ⟨before, after, isLine⟩ := append_of_mem mem
  have suffix : other :: after <:+ e.line id := ⟨before, isLine.symm⟩
  obtain ⟨e', found', line⟩ := forest.line_of_suffix found suffix
  exact ⟨e', found', line ▸ suffix⟩

lemma site_live {site : CallSite} (mem : site ∈ e.parents) :
    ∃ around, g.expansion? site.expansion = some around := by
  have inLine : site.expansion ∈ e.line id := mem_cons_of_mem _ (mem_map_of_mem mem)
  obtain ⟨around, isAround, -⟩ := forest.live_of_mem found inLine
  exact ⟨around, isAround⟩

/-- The tail of a line is the line of the expansion around. -/
lemma line_tail {next : Handle} (isLine : e.line id = id :: next :: rest) :
    ∃ around, g.expansion? next = some around ∧ around.line next = next :: rest :=
  forest.line_of_suffix found ⟨[id], isLine.symm⟩

lemma line_nodup : (e.line id).Nodup := by
  generalize isLine : e.line id = line
  induction line generalizing id e with
  | nil => exact .nil
  | cons first rest ih =>
    have isFirst : id = first := (cons.inj isLine).1
    subst isFirst
    have fresh : id ∉ rest := by
      intro mem
      obtain ⟨before, after, isRest⟩ := append_of_mem mem
      have suffix : id :: after <:+ e.line id := ⟨id :: before, by rw [isLine, isRest]; rfl⟩
      obtain ⟨e', found', line⟩ := forest.line_of_suffix found suffix
      cases found.symm.trans found'
      have lengths := congrArg length (isLine.symm.trans line)
      rw [isRest] at lengths
      simp at lengths
      omega
    refine nodup_cons.mpr ⟨fresh, ?_⟩
    cases rest with
    | nil => exact .nil
    | cons next rest =>
      obtain ⟨around, isAround, isNext⟩ := forest.line_tail found isLine
      exact ih isAround isNext

lemma line_child (isChild : (e.stateOf block).child? = some child) {inner : Expansion}
    (isInner : g.expansion? child = some inner) : inner.line child = child :: e.line id := by
  rw [line, (forest.inner found isChild).2 inner isInner]
  rfl

end

end Forest

/-- An expansion is where it was, and what is nested in it is still there or goes; `Out` are the
ones that go. -/
structure Remains (g : Graph) (Out : Handle → Prop) (e e' : Expansion) : Prop where
  name : e'.circuit.name = e.circuit.name
  parents : e'.parents = e.parents
  children : ∀ block, (e'.stateOf block).child? = (e.stateOf block).child? ∨
    (e'.stateOf block).child? = none ∧
    ∀ child, (e.stateOf block).child? = some child → g.expansion? child = none ∨ Out child
  anchored : e.Anchored → e'.Anchored

variable {change : Handle → Expansion → Expansion} {Out : Handle → Prop}

lemma Remains.refl (e : Expansion) :
    g.Remains Out e e := ⟨rfl, rfl, fun _ => .inl rfl, fun anchored => anchored⟩

/-- The expansions `Out` are freed, and the others change as `change` tells. -/
structure Leaves (change : Handle → Expansion → Expansion) (Out : Handle → Prop) (a b : Graph) :
    Prop where
  expansions : b.expansions.WellFormed
  issued : ∀ {id}, a.expansions.Issued id → b.expansions.Issued id
  gone : ∀ {id}, Out id → b.expansion? id = none
  kept : ∀ {id}, ¬Out id → b.expansion? id = (a.expansion? id).map (change id)

namespace Leaves

lemma of_expansions (wf : a.expansions.WellFormed) (eq : b.expansions = a.expansions) :
    Leaves (fun _ e => e) (fun _ => False) a b :=
  ⟨eq ▸ wf, fun issued => eq ▸ issued, fun out => out.elim, fun _ =>
    (expansion?_of_expansions eq _).trans map_id'.symm⟩

lemma modify (wf : a.expansions.WellFormed) {f : Expansion → Expansion}
    (eq : b.expansions = a.expansions.modify id f) :
    Leaves (fun x => if x = id then f else fun e => e) (fun _ => False) a b where
  expansions := eq ▸ wf.modify id f
  issued issued := eq ▸ issued.modify id f
  gone out := out.elim
  kept {x} _ := by
    rw [expansion?, eq, get?_modify]
    by_cases isId : x = id
    · rw [if_pos isId, if_pos isId, isId]
      rfl
    · rw [if_neg isId, if_neg isId, Option.map_id']
      rfl

lemma was (leaves : Leaves change Out a b) (found : b.expansion? id = some e) :
    ¬Out id ∧ ∃ before, a.expansion? id = some before ∧ change id before = e := by
  have stays : ¬Out id := by
    intro out
    cases (leaves.gone out).symm.trans found
  rw [leaves.kept stays] at found
  exact ⟨stays, map_eq_some_iff.mp found⟩

end Leaves

namespace Forest

variable {new id : Handle} {fresh : Expansion} {args : List String} {lib : Library}

section

variable (forest : a.Forest Known)
include forest

/-- What is left of a forest is one, if with an expansion all that is nested in it goes, and call
sites lose no expansion that stays. -/
lemma remain (leaves : Leaves change Out a b) (nodes : b.nodes.WellFormed) (housed : b.Housed)
    (owned : ∀ {id node owner}, b.node? id = some node → node.owner = some owner →
      (∃ e, a.expansion? owner = some e) ∧ ¬Out owner)
    (remains : ∀ {x e}, a.expansion? x = some e → ¬Out x → a.Remains Out e (change x e))
    (closed : ∀ {x e site rest}, a.expansion? x = some e → e.parents = site :: rest →
      Out site.expansion → Out x) :
    b.Forest Known := by
  have later : ∀ {x e}, a.expansion? x = some e → ¬Out x → b.expansion? x = some (change x e) := by
    intro x e live stays
    rw [leaves.kept stays, live, map_some]
  refine ⟨nodes, leaves.expansions, housed, ?_, ?_, ?_, ?_, ?_, ?_⟩
  · intro n node owner found isOwner
    obtain ⟨⟨e, live⟩, stays⟩ := owned found isOwner
    exact ⟨_, later live stays⟩
  · intro x e' site rest found isParents
    obtain ⟨stays, e, live, rfl⟩ := leaves.was found
    rw [(remains live stays).parents] at isParents
    obtain ⟨around, isAround, isRest, isChild⟩ := forest.outer live isParents
    have staysAround : ¬Out site.expansion := fun out => stays (closed live isParents out)
    have remains := remains isAround staysAround
    refine ⟨_, later isAround staysAround, remains.parents.trans isRest, ?_⟩
    rcases remains.children site.block with eq | ⟨-, lost⟩
    · exact eq.trans isChild
    · rcases lost x isChild with gone | out
      · cases gone.symm.trans live
      · exact absurd out stays
  · intro x e' block child found isChild
    obtain ⟨stays, e, live, rfl⟩ := leaves.was found
    rcases (remains live stays).children block with eq | ⟨none, -⟩
    · obtain ⟨issued, inside⟩ := forest.inner live (eq.symm.trans isChild)
      refine ⟨leaves.issued issued, fun inner' isInner => ?_⟩
      obtain ⟨staysInner, inner, isInner', rfl⟩ := leaves.was isInner
      rw [(remains isInner' staysInner).parents, inside inner isInner',
        (remains live stays).parents]
    · cases none.symm.trans isChild
  · intro x e' site around' found mem isAround
    obtain ⟨stays, e, live, rfl⟩ := leaves.was found
    obtain ⟨staysAround, around, isAround', rfl⟩ := leaves.was isAround
    rw [(remains live stays).parents] at mem
    rw [(remains live stays).name, (remains isAround' staysAround).name]
    exact forest.apart live mem isAround'
  · intro x e' found
    obtain ⟨stays, e, live, rfl⟩ := leaves.was found
    rw [(remains live stays).name]
    exact forest.known live
  · intro x e' found
    obtain ⟨stays, e, live, rfl⟩ := leaves.was found
    exact (remains live stays).anchored (forest.anchored live)

/-- Nodes are taken out or change, but not their owners. -/
lemma of_nodes (nodes : b.nodes.WellFormed) (issued : ∀ {id}, a.nodes.Issued id → b.nodes.Issued id)
    (expansions : b.expansions = a.expansions)
    (earlier : ∀ {id n'}, b.node? id = some n' → ∃ n, a.node? id = some n ∧ n'.owner = n.owner) :
    b.Forest Known := by
  refine forest.remain (.of_expansions forest.expansions expansions) nodes
    (forest.housed.of_earlier earlier
    (fun {_ e} found => ⟨e, ?_, rfl⟩) issued) (fun live isOwner => ?_) (fun _ _ => .refl _)
    fun _ _ out => out
  · rwa [expansion?_of_expansions expansions] at found
  · obtain ⟨n', live', eq⟩ := earlier live
    exact ⟨forest.owned live' (eq.symm.trans isOwner), not_false⟩

/-- One expansion changes. -/
lemma modify (eq : b.expansions = a.expansions.modify id f) (nodes : b.nodes.WellFormed)
    (housed : b.Housed)
    (owned : ∀ {id n owner}, b.node? id = some n → n.owner = some owner →
      ∃ e, a.expansion? owner = some e)
    (remains : ∀ e, a.expansion? id = some e → a.Remains (fun _ => False) e (f e)) :
    b.Forest Known := by
  refine forest.remain (.modify forest.expansions eq) nodes housed
    (fun live isOwner => ⟨owned live isOwner, not_false⟩) (fun {x e} live _ => ?_) fun _ _ out =>
    out
  split
  next isId => exact remains e (isId ▸ live)
  next => exact .refl e

lemma addNode (b : Behavior) (inputs : Nat)
    (live : ∀ id, owner = some id → ∃ e, a.expansion? id = some e) :
    (a.addNode b inputs owner).2.Forest Known := by
  obtain ⟨wf, fresh, found, issued⟩ := addNode_facts forest.nodes b inputs owner
  have owned : ∀ {id n owner'}, (a.addNode b inputs owner).2.node? id = some n →
      n.owner = some owner' → ∃ e, a.expansion? owner' = some e := by
    intro id n owner' isNow isOwner
    rw [found] at isNow
    split at isNow
    · cases isNow
      exact live owner' isOwner
    · exact forest.owned isNow isOwner
  cases owner with
  | some owner =>
    exact forest.modify (expansions_addNode a b inputs owner) wf
      (forest.housed.addNode forest.nodes b inputs owner) owned fun _ _ =>
      ⟨rfl, rfl, fun _ => .inl rfl,
        fun anchored n mem => Array.mem_push_of_mem _ (anchored n mem)⟩
  | none =>
    have eq : (a.addNode b inputs).2.expansions = a.expansions :=
      (NodeEdit.markDirty _ _ 0).expansions
    refine forest.remain (.of_expansions forest.expansions eq) wf ?_
      (fun live isOwner => ⟨owned live isOwner, not_false⟩) (fun _ _ => .refl _) fun _ _ out => out
    -- the new node belongs to no expansion, and none lists it
    have forms := form?_addNode forest.nodes b inputs none
    refine ⟨fun isNow isOwner isExpansion => ?_, fun isExpansion mem isNow => ?_,
      fun isExpansion mem => ?_⟩ <;>
      rw [expansion?_of_expansions eq] at isExpansion
    · rw [forms] at isNow
      split at isNow
      · cases isNow
        cases isOwner
      · exact forest.housed.listed isNow isOwner isExpansion
    · rw [forms] at isNow
      split at isNow
      next isNew => exact absurd (isNew ▸ forest.housed.issued isExpansion mem) fresh
      next => exact forest.housed.owns isExpansion mem isNow
    · exact issued _ (forest.housed.issued isExpansion mem)

/-- A new expansion `fresh` that is a root, or nested where no expansion is; `change` enters it
there. -/
lemma extend (change : Handle → Expansion → Expansion)
    (isNew : ¬a.expansions.Issued new) (wf : b.expansions.WellFormed)
    (issued : ∀ {id}, a.expansions.Issued id → b.expansions.Issued id) (nodes : b.nodes = a.nodes)
    (housed : b.Housed)
    (found : ∀ other, b.expansion? other = if other = new then some fresh else
      (a.expansion? other).map (change other))
    (standing : ∀ other e, SameStanding e (change other e))
    (children : ∀ {other e} block, a.expansion? other = some e →
      ((change other e).stateOf block).child? =
      if fresh.parents.head? = some ⟨other, block⟩ then some new else (e.stateOf block).child?)
    (childless : ∀ block, (fresh.stateOf block).child? = none)
    (site : ∀ {site rest}, fresh.parents = site :: rest →
      ∃ e, a.expansion? site.expansion = some e ∧
      e.parents = rest ∧ ∀ child, (e.stateOf site.block).child? = some child →
      a.expansion? child = none)
    (apart : ∀ site ∈ fresh.parents, ∃ around, a.expansion? site.expansion = some around ∧
      around.circuit.name ≠ fresh.circuit.name)
    (known : Known fresh.circuit.name) (isAnchored : fresh.Anchored)
    (anchored : ∀ other e, e.Anchored → (change other e).Anchored) : b.Forest Known := by
  have old : ∀ {id e}, a.expansion? id = some e → id ≠ new := by
    rintro id e live rfl
    exact isNew (.inl (Arena.contains_iff.mpr ⟨e, live⟩))
  have later : ∀ {id e}, a.expansion? id = some e → b.expansion? id = some (change id e) := by
    intro id e live
    rw [found, if_neg (old live), live, map_some]
  have earlier : ∀ {id e'}, b.expansion? id = some e' →
      id = new ∧ e' = fresh ∨ ∃ e, a.expansion? id = some e ∧ e' = change id e := by
    intro id e' isNow
    rw [found] at isNow
    split at isNow
    next eq =>
      cases isNow
      exact .inl ⟨eq, rfl⟩
    next =>
      obtain ⟨e, live, rfl⟩ := map_eq_some_iff.mp isNow
      exact .inr ⟨e, live, rfl⟩
  refine ⟨nodes ▸ forest.nodes, wf, housed, ?_, ?_, ?_, ?_, ?_, ?_⟩
  · intro id n owner live isOwner
    rw [node?, nodes] at live
    obtain ⟨e, isExpansion⟩ := forest.owned live isOwner
    exact ⟨_, later isExpansion⟩
  · intro id e' around rest isNow isParents
    rcases earlier isNow with ⟨rfl, rfl⟩ | ⟨e, live, rfl⟩
    · obtain ⟨e, live, isRest, -⟩ := site isParents
      refine ⟨_, later live, (standing _ e).parents.trans isRest, ?_⟩
      rw [children _ live, isParents]
      exact if_pos rfl
    · rw [(standing id e).parents] at isParents
      obtain ⟨outer, isOuter, isRest, isChild⟩ := forest.outer live isParents
      refine ⟨_, later isOuter, (standing _ outer).parents.trans isRest, ?_⟩
      rw [children _ isOuter, if_neg]
      · exact isChild
      -- at the place of the new expansion no other one is nested
      · intro head
        obtain ⟨rest', isFresh⟩ := head?_eq_some_iff.mp head
        obtain ⟨outer', isOuter', -, vacant⟩ := site isFresh
        cases isOuter.symm.trans isOuter'
        cases (vacant id isChild).symm.trans live
  · intro id e' block child isNow isChild
    rcases earlier isNow with ⟨rfl, rfl⟩ | ⟨e, live, rfl⟩
    · cases (childless block).symm.trans isChild
    · rw [children _ live] at isChild
      split at isChild
      next head =>
        cases isChild
        refine ⟨.inl (Arena.contains_iff.mpr ⟨fresh, (found new).trans (if_pos rfl)⟩),
          fun e' isNow => ?_⟩
        rw [found, if_pos rfl] at isNow
        cases isNow
        obtain ⟨rest, isFresh⟩ := head?_eq_some_iff.mp head
        obtain ⟨around, isAround, isRest, -⟩ := site isFresh
        cases live.symm.trans isAround
        rw [isFresh, (standing id e).parents, isRest]
      next =>
        obtain ⟨wasIssued, inside⟩ := forest.inner live isChild
        refine ⟨issued wasIssued, fun e' isNow => ?_⟩
        rcases earlier isNow with ⟨rfl, -⟩ | ⟨inner, isInner, rfl⟩
        · exact absurd wasIssued isNew
        · rw [(standing child inner).parents, inside inner isInner, (standing id e).parents]
  · intro id e' place around' isNow mem isAround
    have site' : ∀ {e : Expansion}, (∃ around, a.expansion? place.expansion = some around ∧
        around.circuit.name ≠ e.circuit.name) → around'.circuit.name ≠ e.circuit.name := by
      rintro e ⟨around, live, differs⟩
      cases (later live).symm.trans isAround
      rw [(standing _ around).circuit]
      exact differs
    rcases earlier isNow with ⟨rfl, rfl⟩ | ⟨e, live, rfl⟩
    · exact site' (apart place mem)
    · rw [(standing id e).parents] at mem
      obtain ⟨around, isAround'⟩ := forest.site_live live mem
      rw [(standing id e).circuit]
      exact site' ⟨around, isAround', forest.apart live mem isAround'⟩
  · intro id e' isNow
    rcases earlier isNow with ⟨rfl, rfl⟩ | ⟨e, live, rfl⟩
    · exact known
    · rw [(standing id e).circuit]
      exact forest.known live
  · intro id e' isNow
    rcases earlier isNow with ⟨rfl, rfl⟩ | ⟨e, live, rfl⟩
    · exact isAnchored
    · exact anchored id e (forest.anchored live)

lemma unowned (isNew : ¬a.expansions.Issued new) (found : a.form? id = some form) :
    form.owner ≠ some new := by
  intro isOwner
  obtain ⟨n, live, rfl⟩ := map_eq_some_iff.mp found
  obtain ⟨e, isExpansion⟩ := forest.owned live isOwner
  exact isNew (.inl (Arena.contains_iff.mpr ⟨e, isExpansion⟩))

lemma root (known : Known c.name) (made : make c [] args = .ok fresh) :
    Forest Known { a with expansions := (a.expansions.alloc fresh).2 } := by
  obtain ⟨wf, isNew, found, issued⟩ := alloc_facts forest.expansions fresh
  obtain ⟨isCircuit, isParents, isEmpty, isAnchored, childless⟩ := make_facts made
  refine forest.extend (fun _ e => e) isNew wf (fun was => issued _ was) rfl
    (forest.housed.allocExpansion forest.expansions isEmpty (forest.unowned isNew))
      (fun other => ?_)
    (fun _ e => .refl e) (fun _ _ => ?_) childless (fun is => ?_) (fun _ mem => ?_)
      (isCircuit ▸ known) isAnchored
    fun _ _ anchored => anchored
  · rw [Option.map_id']
    exact found other
  · rw [isParents, if_neg nofun]
  · rw [isParents] at is
    cases is
  · rw [isParents] at mem
    cases mem

lemma nest {outs : List Handle} {hidden child : Option Handle} (live : a.expansion? id = some e)
    (nested : e.stateOf block = .nested outs hidden child)
    (gone : ∀ id, child = some id → a.expansion? id = none)
    {callee : Circuit} (known : Known callee.name)
    (apart : ∀ other ∈ id :: e.parents.map CallSite.expansion, ∃ around,
      a.expansion? other = some around ∧ around.circuit.name ≠ callee.name)
    (made : make callee (⟨id, block⟩ :: e.parents) args = .ok fresh) :
    (a.nest id block fresh).Forest Known := by
  obtain ⟨wf, isNew, found, issued⟩ := alloc_facts forest.expansions fresh
  obtain ⟨isCircuit, isParents, isEmpty, isAnchored, childless⟩ := make_facts made
  have differs : id ≠ (a.expansions.alloc fresh).1 := by
    intro eq
    exact isNew (eq ▸ .inl (Arena.contains_iff.mpr ⟨e, live⟩))
  have entered : withChild block (a.expansions.alloc fresh).1 e =
      e.setBlock block (.nested outs hidden (some (a.expansions.alloc fresh).1)) := by
    rw [withChild, nested]
  refine forest.extend (fun other => if other = id then withChild block (a.expansions.alloc fresh).1
    else fun e => e)
    isNew (wf.modify id _) (fun was => (issued _ was).modify id _) rfl ?_ (fun other => ?_)
      (fun other e => ?_)
    (fun {other e'} place live' => ?_) childless (fun isSite => ?_) (fun site mem => ?_)
      (isCircuit ▸ known)
    isAnchored fun other e anchored => ?_
  · refine (forest.housed.allocExpansion forest.expansions isEmpty
      (forest.unowned isNew)).modifyExpansion id fun e => ?_
    rw [withChild]
    split <;> rfl
  · rw [Graph.nest, expansion?_modify]
    show (if other = id then ((a.expansions.alloc fresh).2.get? id).map _ else
      (a.expansions.alloc fresh).2.get? other) = _
    rw [found, found, if_neg differs]
    by_cases isId : other = id
    · rw [if_pos isId, if_neg (isId ▸ differs), if_pos isId, isId]
      rfl
    · rw [if_neg isId, if_neg isId, Option.map_id']
      rfl
  · split
    · exact .withChild block _ e
    · exact .refl e
  · rw [isParents, head?_cons]
    by_cases isId : other = id
    · subst isId
      cases live.symm.trans live'
      rw [if_pos rfl, entered, child?_setBlock]
      by_cases isBlock : place = block
      · rw [if_pos ⟨isBlock, lt_size_of_nested nested⟩, isBlock, if_pos rfl]
        rfl
      · rw [if_neg fun both => isBlock both.1, if_neg]
        intro eq
        cases eq
        exact isBlock rfl
    · rw [if_neg isId, if_neg]
      intro eq
      cases eq
      exact isId rfl
  · rw [isParents] at isSite
    cases isSite
    refine ⟨e, live, rfl, fun old isChild => gone old ?_⟩
    rw [nested] at isChild
    exact isChild
  · rw [isParents] at mem
    rw [isCircuit]
    exact apart site.expansion (mem_map_of_mem (f := CallSite.expansion) mem)
  · split
    · rw [withChild]
      split <;> exact anchored
    · exact anchored

end

lemma step (known : ∀ c ∈ lib.circuits, Known c.name)
    (forest : a.Forest Known) (step : Unfolds lib a b) : b.Forest Known := by
  cases step with
  | wire owners expansions =>
    exact forest.of_nodes (owners.wellFormed forest.nodes) owners.issued expansions owners.earlier
  | addNode behavior inputs live => exact forest.addNode behavior inputs live
  | note id minor =>
    refine forest.modify rfl forest.nodes (forest.housed.modifyExpansion id minor.members)
      forest.owned fun e _ =>
      ⟨congrArg Circuit.name (minor.circuit e), minor.parents e, fun block => .inl ?_,
        fun anchored => ?_⟩
    · rw [stateOf, stateOf, minor.blocks]
    · rwa [Anchored, minor.params, minor.anchors, minor.members]
  | @anchor id e params anchors live own =>
    refine forest.modify rfl forest.nodes (forest.housed.modifyExpansion id fun _ =>
      rfl) forest.owned fun e' live' =>
      ⟨rfl, rfl, fun _ => .inl rfl, fun _ => ?_⟩
    cases live.symm.trans live'
    exact own
  | @fill id e block state live unmade childless =>
    refine forest.modify rfl forest.nodes (forest.housed.modifyExpansion id fun _ =>
      rfl) forest.owned fun e' live' =>
      ⟨rfl, rfl, fun other => .inl ?_, fun anchored => anchored⟩
    cases live.symm.trans live'
    rw [child?_setBlock]
    split
    next here => rw [here.1, unmade, childless]; rfl
    next => rfl
  | root isKnown args made => exact forest.root (known _ isKnown) made
  | nest live nested gone isKnown apart args made =>
    exact forest.nest live nested gone (known _ isKnown) apart made

lemma unfolds (known : ∀ c ∈ lib.circuits, Known c.name)
    (forest : a.Forest Known) (steps : UnfoldsTo lib a b) : b.Forest Known := by
  induction steps with
  | refl => exact forest
  | tail _ step ih => exact ih.step known step

end Forest

end Graph

end Blockflow
