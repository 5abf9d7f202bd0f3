import Blockflow.Proofs.Graph.Nodes

/-!
# The form of nodes

The form of a node is what expansion decides: what it computes, for which expansion, from which
sources, and for what its pins still wait. Values, readers and marks come and go without touching
it, so each edit changes the form of one node at most.
-/

namespace Blockflow

open List Option

/-- What a node computes, for whom and from what. -/
structure Form where
  behavior : Behavior
  owner : Option Handle
  inputs : List (Option Handle)
  pending : List (Nat × Pending)

namespace Form

variable {form : Form} {pin : Nat} {entry : Nat × Pending}

def make (b : Behavior) (inputs : Nat) (owner : Option Handle) : Form :=
  ⟨b, owner, replicate inputs none, []⟩

def connect (form : Form) (pin : Nat) (src : Option Handle) : Form :=
  { form with
    inputs := (Node.withPins form.inputs (pin + 1)).set pin src
    pending := form.pending.filter (·.1 != pin) }

def await (form : Form) (pin : Nat) (pending : Pending) : Form :=
  { form with pending := form.pending.filter (·.1 != pin) ++ [(pin, pending)] }

lemma inputs_connect (inside : pin < form.inputs.length) (src : Option Handle) :
    (form.connect pin src).inputs = form.inputs.set pin src := by
  have enough : pin + 1 - form.inputs.length = 0 := by omega
  rw [connect]
  rw [Node.withPins, enough, replicate_zero, append_nil]

lemma mem_pending_connect :
    entry ∈ (form.connect pin src).pending ↔ entry ∈ form.pending ∧ entry.1 ≠ pin := by
  rw [connect]
  simp [mem_filter]

lemma mem_pending_await {pending : Pending} : entry ∈ (form.await pin pending).pending ↔
      (entry ∈ form.pending ∧ entry.1 ≠ pin) ∨ entry = (pin, pending) := by
  rw [await]
  simp [mem_filter]

end Form

def Node.form (n : Node) : Form := ⟨n.behavior, n.owner, n.inputs, n.pending⟩

namespace Graph

variable {g : Graph} {id other : Handle}

def form? (g : Graph) (id : Handle) : Option Form := (g.node? id).map Node.form

lemma form?_of_node? (live : g.node? id = some n) : g.form? id = some n.form := by
  rw [form?, live, map_some]

lemma contains_iff_form : g.contains id ↔ ∃ form, g.form? id = some form := by
  rw [contains_iff]
  constructor
  · rintro ⟨n, live⟩
    exact ⟨n.form, form?_of_node? live⟩
  · rintro ⟨form, found⟩
    obtain ⟨n, live, -⟩ := map_eq_some_iff.mp found
    exact ⟨n, live⟩

lemma live?_eq_self (live : ∀ id, src = some id → g.contains id) : g.live? src = src := by
  cases src with
  | none => rfl
  | some id => rw [live?, Option.filter, live id rfl, if_pos rfl]

/-! ## Edits of nodes -/

section

variable (g : Graph) (id : Handle) (f : Node → Node) (pin : Nat)

lemma form?_of_rewrites {after : Graph} {k : Form → Form} (rewrites : Rewrites R g after)
    (does : ∀ {other x y}, R other x y → y.form = if other = id then k x.form else x.form)
    (other : Handle) :
    after.form? other = if other = id then (g.form? id).map k else g.form? other := by
  have forms : after.form? other = (g.node? other).map fun x =>
      if other = id then k x.form else x.form :=
    rel_map_eq (rewrites.rel other) fun _ _ => does
  rw [forms]
  split
  next eq =>
    rw [eq, form?, Option.map_map]
    rfl
  next => rfl

lemma form?_modifyNode (k : Form → Form) (does : ∀ n, (f n).form = k n.form) (other : Handle) :
    (g.modifyNode id f).form? other = if other = id then (g.form? id).map k else g.form? other := by
  refine form?_of_rewrites g id (modifyNode_rewrites g id f) ?_ other
  rintro other x _ rfl
  split
  · exact does x
  · rfl

lemma form?_modifyNode_same (same : ∀ n, (f n).form = n.form) (other : Handle) :
    (g.modifyNode id f).form? other = g.form? other :=
  (Rewrites.modifyNode (R := fun _ x y => y.form = x.form) (fun _ _ => rfl) g fun n _ =>
    same n).map_eq
    (fun same => same) other

lemma form?_markDirty (other : Handle) : (g.markDirty id pin).form? other = g.form? other := by
  refine (markDirty_rewrites g id pin).map_eq ?_ other
  rintro other x _ rfl
  split <;> rfl

lemma form?_rewire (old src : Option Handle) (other : Handle) :
    (g.rewire id pin old src).form? other =
      if other = id then (g.form? id).map (·.connect pin src) else g.form? other := by
  refine form?_of_rewrites g id (rewire_rewrites g id pin old src) ?_ other
  rintro other x _ ⟨consumers, rfl⟩
  split <;> rfl

lemma form?_connect (src : Option Handle) (other : Handle) : (g.connect id pin src).form? other =
      if other = id then (g.form? id).map (·.connect pin (g.live? src)) else g.form? other := by
  rw [connect_eq]
  cases live : g.node? id with
  | none =>
    have absent : g.form? id = none := by rw [form?, live, map_none]
    by_cases eq : other = id
    · rw [if_pos eq, eq, absent, map_none]
    · rw [if_neg eq]
  | some n =>
    dsimp only
    split
    · rw [form?_markDirty, form?_rewire]
    · rw [form?_rewire]

/-- A node of the graph is connected. -/
lemma form?_connect_live (isForm : g.form? id = some form)
    (live : g.live? src = src) (other : Handle) : (g.connect id pin src).form? other =
      if other = id then some (form.connect pin src) else g.form? other := by
  rw [form?_connect, isForm, live]
  rfl

lemma form?_addPending (pending : Pending) (other : Handle) :
    (g.addPending id pin pending).form? other =
      if other = id then (g.form? id).map (·.await pin pending) else g.form? other := by
  rw [addPending, form?_markDirty, form?_modifyNode g id _ (·.await pin pending) (fun _ => rfl)]

lemma form?_addPendingLink (link : String) (other : Handle) :
    (g.addPendingLink id pin link).form? other =
      if other = id then
        (g.form? id).map fun form => if link.isEmpty then form else form.await pin (.link link)
      else g.form? other := by
  rw [addPendingLink]
  by_cases isEmpty : link.isEmpty
  · simp only [isEmpty, if_true]
    by_cases eq : other = id
    · rw [if_pos eq, eq, Option.map_id']
    · rw [if_neg eq]
  · simp only [isEmpty, Bool.false_eq_true, if_false]
    rw [form?_addPending]

end

lemma form?_addNode (wf : g.nodes.WellFormed) (b : Behavior) (inputs : Nat) (owner : Option Handle)
    (other : Handle) : (g.addNode b inputs owner).2.form? other =
      if other = (g.addNode b inputs owner).1 then some (.make b inputs owner)
      else g.form? other := by
  obtain ⟨-, -, found, -⟩ := addNode_facts wf b inputs owner
  rw [form?, found]
  split <;> rfl

section

variable (g : Graph) (param id : Handle) (v : Value) (pin : Nat)
  (result : Except Diagnostic (Option Value)) (other : Handle)

lemma form?_conclude : (Workspace.conclude g id result).form? other = g.form? other := by
  refine (conclude_rewrites g id result).map_eq ?_ other
  rintro _ _ _ ⟨_, _, rfl, -⟩
  rfl

lemma Keeps.setPreview : Keeps g (g.setPreview param v) := by
  refine (setPreview_rewrites g param v).imp ?_
  rintro other x _ rfl
  split
  · exact ⟨rfl, rfl, rfl, fun _ => rfl⟩
  · exact .refl x

lemma form?_setPreview :
    (g.setPreview param v).form? other = g.form? other := form?_markDirty _ param 0 other

/-! ## Expansions -/

lemma expansions_connect (src : Option Handle) :
    (g.connect id pin src).expansions = g.expansions := (NodeEdit.connect g id pin src).expansions

lemma expansions_addPending (pending : Pending) :
    (g.addPending id pin pending).expansions = g.expansions :=
  (NodeEdit.markDirty _ id pin).expansions

lemma expansions_addPendingLink (link : String) :
    (g.addPendingLink id pin link).expansions = g.expansions := by
  rw [addPendingLink]
  split
  · rfl
  · exact expansions_addPending g id pin _

lemma expansions_addNode (b : Behavior) (inputs : Nat) (owner : Handle) :
    (g.addNode b inputs (some owner)).2.expansions = g.expansions.modify owner fun e =>
        { e with members := e.members.push (g.addNode b inputs (some owner)).1 } :=
  (NodeEdit.markDirty _ _ 0).expansions

lemma expansions_conclude : (Workspace.conclude g id result).expansions = g.expansions := by
  cases result with
  | ok v => exact (NodeEdit.updateOutput g id v).expansions
  | error d => exact (NodeEdit.updateOutput _ id none).expansions

lemma expansions_setPreview :
    (g.setPreview param v).expansions = g.expansions := (NodeEdit.markDirty _ param 0).expansions

end

/-- An expansion apart from the list of its nodes. -/
def plain? (g : Graph) (id : Handle) : Option Expansion :=
  (g.expansion? id).map fun e => { e with members := #[] }

lemma plain?_of_expansions {a b : Graph} (eq : b.expansions = a.expansions) (id : Handle) :
    b.plain? id = a.plain? id := by
  rw [plain?, plain?, expansion?, expansion?, eq]

lemma plain?_modifyExpansion (g : Graph) (id : Handle) (f : Expansion → Expansion)
    (careless : ∀ e, { f e with members := #[] } = f { e with members := #[] }) (other : Handle) :
    (g.modifyExpansion id f).plain? other =
      if other = id then (g.plain? id).map f else g.plain? other := by
  rw [plain?, expansion?, modifyExpansion, Arena.get?_modify]
  by_cases eq : other = id
  · rw [if_pos eq, if_pos eq, plain?, Option.map_map, Option.map_map]
    exact congrArg (fun h => Option.map h _) (funext careless)
  · rw [if_neg eq, if_neg eq, plain?, expansion?]

lemma plain?_addNode (g : Graph) (b : Behavior) (inputs : Nat) (owner other : Handle) :
    (g.addNode b inputs (some owner)).2.plain? other = g.plain? other := by
  rw [plain?, expansion?, expansions_addNode, Arena.get?_modify]
  by_cases eq : other = owner
  · rw [if_pos eq, eq, Option.map_map]
    rfl
  · rw [if_neg eq, plain?, expansion?]

/-! ## New nodes -/

/-- An expansion lists the nodes that were made for it, and no others. -/
structure Housed (g : Graph) : Prop where
  listed : ∀ {id form owner e}, g.form? id = some form → form.owner = some owner →
    g.expansion? owner = some e → id ∈ e.members
  owns : ∀ {owner e id form}, g.expansion? owner = some e → id ∈ e.members →
    g.form? id = some form →
    form.owner = some owner
  issued : ∀ {owner e id}, g.expansion? owner = some e → id ∈ e.members → g.nodes.Issued id

namespace Housed

lemma of_earlier {a b : Graph} (housed : a.Housed)
    (nodes : ∀ {id n'}, b.node? id = some n' → ∃ n, a.node? id = some n ∧ n'.owner = n.owner)
    (expansions : ∀ {id e}, b.expansion? id = some e → ∃ e', a.expansion? id = some e' ∧
      e.members = e'.members)
    (issued : ∀ {id}, a.nodes.Issued id → b.nodes.Issued id) : b.Housed := by
  refine ⟨fun found isOwner isExpansion => ?_, fun isExpansion mem found => ?_,
    fun isExpansion mem => ?_⟩ <;>
    obtain ⟨e', isExpansion', eq⟩ := expansions isExpansion
  · obtain ⟨n', live, rfl⟩ := map_eq_some_iff.mp found
    obtain ⟨n, was, equal⟩ := nodes live
    rw [eq]
    exact housed.listed (form?_of_node? was) (equal.symm.trans isOwner) isExpansion'
  · obtain ⟨n', live, rfl⟩ := map_eq_some_iff.mp found
    obtain ⟨n, was, equal⟩ := nodes live
    exact equal.trans (housed.owns isExpansion' (eq ▸ mem) (form?_of_node? was))
  · exact issued (housed.issued isExpansion' (eq ▸ mem))

/-- A change of an expansion that leaves its list of nodes alone. -/
lemma modifyExpansion (housed : g.Housed) (id : Handle)
    (members : ∀ e, (f e).members = e.members) : (g.modifyExpansion id f).Housed := by
  refine housed.of_earlier (fun {_ n} found => ⟨n, found, rfl⟩) (fun {owner e} found => ?_)
    fun issued => issued
  rw [expansion?, Graph.modifyExpansion, Arena.get?_modify] at found
  split at found
  next eq =>
    obtain ⟨e', isExpansion, rfl⟩ := map_eq_some_iff.mp found
    exact ⟨e', eq ▸ isExpansion, members e'⟩
  next => exact ⟨e, found, rfl⟩

lemma allocExpansion (housed : g.Housed) (wf : g.expansions.WellFormed) (empty : e.members = #[])
    (unowned : ∀ {id form}, g.form? id = some form → form.owner ≠ some (g.expansions.alloc e).1) :
    ({ g with expansions := (g.expansions.alloc e).2 } : Graph).Housed := by
  obtain ⟨-, -, found, -⟩ := Arena.alloc_facts wf e
  generalize g.expansions.alloc e = new at found unowned ⊢
  obtain ⟨child, expansions⟩ := new
  have cases : ∀ {owner e'}, expansions.get? owner = some e' → owner = child ∧ e'.members = #[] ∨
      g.expansion? owner = some e' := by
    intro owner e' isNow
    rw [found] at isNow
    split at isNow
    next eq =>
      cases isNow
      exact .inl ⟨eq, empty⟩
    next => exact .inr isNow
  have none : ∀ {e' : Expansion} {id}, e'.members = #[] → id ∉ e'.members := by
    intro e' id empty mem
    rw [empty] at mem
    exact Array.not_mem_empty id mem
  refine ⟨fun {id form owner e'} isForm isOwner isNow => ?_,
    fun {owner e' id form} isNow mem isForm => ?_,
    fun {owner e' id} isNow mem => ?_⟩ <;> rcases cases isNow with ⟨rfl, empty⟩ | was
  · exact absurd isOwner (unowned isForm)
  · exact housed.listed isForm isOwner was
  · exact absurd mem (none empty)
  · exact housed.owns was mem isForm
  · exact absurd mem (none empty)
  · exact housed.issued was mem

lemma addNode (housed : g.Housed) (wf : g.nodes.WellFormed) (b : Behavior) (inputs : Nat)
    (owner : Handle) : (g.addNode b inputs (some owner)).2.Housed := by
  obtain ⟨-, fresh, -, issued⟩ := addNode_facts wf b inputs (some owner)
  have forms := form?_addNode wf b inputs (some owner)
  have expansions := expansions_addNode g b inputs owner
  generalize g.addNode b inputs (some owner) = new at fresh issued forms expansions ⊢
  obtain ⟨id, after⟩ := new
  -- the expansion of the new node lists it, the others are as before
  have earlier : ∀ {other e}, after.expansion? other = some e → ∃ e', g.expansion? other = some e' ∧
      ∀ n, n ∈ e.members ↔ n ∈ e'.members ∨ other = owner ∧ n = id := by
    intro other e found
    rw [expansion?, expansions, Arena.get?_modify] at found
    split at found
    next eq =>
      obtain ⟨e', isExpansion, rfl⟩ := map_eq_some_iff.mp found
      exact ⟨e', eq ▸ isExpansion, fun n => by simp [eq]⟩
    next differs => exact ⟨e, found, fun n => by simp [differs]⟩
  refine ⟨fun {n form other e} found isOwner isExpansion => ?_,
    fun {other e n form} isExpansion mem found => ?_,
    fun {other e n} isExpansion mem => ?_⟩ <;> obtain ⟨e', isExpansion', members⟩ :=
    earlier isExpansion
  · rw [forms] at found
    split at found
    next isNew =>
      cases found
      cases isOwner
      exact (members n).mpr (.inr ⟨rfl, isNew⟩)
    next => exact (members n).mpr (.inl (housed.listed found isOwner isExpansion'))
  · rw [forms] at found
    rcases (members n).mp mem with old | ⟨rfl, rfl⟩
    · rw [if_neg] at found
      · exact housed.owns isExpansion' old found
      · rintro rfl
        exact fresh (housed.issued isExpansion' old)
    · rw [if_pos rfl] at found
      cases found
      rfl
  · rcases (members n).mp mem with old | ⟨-, rfl⟩
    · exact issued n (housed.issued isExpansion' old)
    · exact .inl (contains_iff_form.mpr ⟨_, (forms n).trans (if_pos rfl)⟩)

end Housed

/-- Nodes were added; the others have the forms that they had, and expansions changed in their lists
of nodes at most. -/
structure Adds (new : List Handle) (before after : Graph) : Prop where
  nodes : after.nodes.WellFormed
  expansions : before.expansions.WellFormed → after.expansions.WellFormed
  fresh : ∀ id ∈ new, before.form? id = none
  live : ∀ id ∈ new, ∃ form, after.form? id = some form
  kept : ∀ id, id ∉ new → after.form? id = before.form? id
  plain : ∀ id, after.plain? id = before.plain? id

namespace Adds

variable {new new' : List Handle} {a b c : Graph}

lemma refl (wf : g.nodes.WellFormed) : Adds [] g g :=
  ⟨wf, fun wf => wf, fun _ mem => absurd mem not_mem_nil,
    fun _ mem => absurd mem not_mem_nil, fun _ _ => rfl, fun _ => rfl⟩

lemma trans (first : Adds new a b) (second : Adds new' b c) : Adds (new ++ new') a c where
  nodes := second.nodes
  expansions wf := second.expansions (first.expansions wf)
  fresh id mem := by
    by_cases old : id ∈ new
    · exact first.fresh id old
    · rw [← first.kept id old]
      exact second.fresh id ((mem_append.mp mem).resolve_left old)
  live id mem := by
    by_cases last : id ∈ new'
    · exact second.live id last
    · rw [second.kept id last]
      exact first.live id ((mem_append.mp mem).resolve_right last)
  kept id absent := by
    rw [mem_append, not_or] at absent
    exact (second.kept id absent.2).trans (first.kept id absent.1)
  plain id := (second.plain id).trans (first.plain id)

lemma form (adds : Adds new a b) {form : Form} (was : a.form? id = some form) :
    b.form? id = some form := by
  rw [adds.kept id]
  · exact was
  · intro isNew
    cases was.symm.trans (adds.fresh id isNew)

lemma contains (adds : Adds new a b) (live : a.contains id) : b.contains id := by
  obtain ⟨form, was⟩ := contains_iff_form.mp live
  exact contains_iff_form.mpr ⟨form, adds.form was⟩

lemma disjoint (first : Adds new a b) (second : Adds new' b c) : new.Disjoint new' := by
  intro id old isNew
  obtain ⟨form, live⟩ := first.live id old
  cases live.symm.trans (second.fresh id isNew)

lemma addNode (wf : g.nodes.WellFormed) (b : Behavior) (inputs : Nat) (owner : Handle) :
    Adds [(g.addNode b inputs (some owner)).1] g (g.addNode b inputs (some owner)).2 := by
  obtain ⟨wf', fresh, -, -⟩ := addNode_facts wf b inputs (some owner)
  refine ⟨wf', fun expansions => ?_, fun id mem => ?_, fun id mem => ?_, fun id absent =>
    ?_, fun id => ?_⟩
  · rw [expansions_addNode]
    exact expansions.modify owner _
  · obtain rfl := mem_singleton.mp mem
    rw [eq_none_iff_forall_ne_some]
    exact fun form found => fresh (.inl (contains_iff_form.mpr ⟨form, found⟩))
  · rw [form?_addNode wf, if_pos (mem_singleton.mp mem)]
    exact ⟨_, rfl⟩
  · rw [form?_addNode wf, if_neg (fun eq => absent (mem_singleton.mpr eq))]
  · exact plain?_addNode g b inputs owner id

lemma edit (adds : Adds new a b) (keeps : Keeps b c) (expansions : c.expansions = b.expansions)
    (kept : ∀ id, id ∉ new → c.form? id = b.form? id) : Adds new a c where
  nodes := keeps.wellFormed adds.nodes
  expansions wf := expansions ▸ adds.expansions wf
  fresh := adds.fresh
  live id mem :=
    contains_iff_form.mp ((keeps.contains_iff id).mpr (contains_iff_form.mpr (adds.live id mem)))
  kept id absent := (kept id absent).trans (adds.kept id absent)
  plain id := (plain?_of_expansions expansions id).trans (adds.plain id)

end Adds

end Graph

end Blockflow
