import Blockflow.Proofs.Graph.Edits
import Blockflow.Proofs.Graph.Evaluation
import Blockflow.Proofs.Graph.Forms
import Blockflow.Proofs.Store.Identity

/-!
# Recipes

The block types of a library are uniform if each of them follows a recipe: the block is checked and
its literals are read, which decides what the nodes of the block compute; then the nodes are made
one after another, with pins that wait for links of the circuit or read nodes of the same block.
Which links and which nodes those are can be told from the block alone. All built-in block types and
all natives are uniform.
-/

namespace Blockflow

open List Graph

open Value (Alike AllAlike)

/-- What a pin of a node of a block reads. -/
inductive PinSource where
  /-- A link of the circuit; the empty name stands for none. -/
  | link (name : String)
  /-- A node of the block that was made before. -/
  | part (i : Nat)
  deriving DecidableEq

/-- The same block with the same arguments, among circuits that declare the same inputs. -/
structure Assembly.Like (a b : Assembly) : Prop where
  block : a.block = b.block
  arguments : a.arguments = b.arguments
  inputs : ∀ name, (findCircuit? a.circuits name).map Circuit.inputs =
    (findCircuit? b.circuits name).map Circuit.inputs

/-- The block without the expansion that it belongs to, of which a recipe knows nothing. -/
def Assembly.unowned (asm : Assembly) : Assembly := { asm with owner := default }

lemma Assembly.Like.eq {a b : Assembly} (similar : a.Like b) :
    b = { a with owner := b.owner, circuits := b.circuits } := by
  rw [similar.block, similar.arguments]

/-- How a block type makes its nodes, with natives of a kind; it is followed in the same way in
every later store. -/
structure Recipe (P : Native → Prop) where
  parts : Assembly → List (List PinSource)
  outputs : Assembly → List Nat
  /-- Checks the block and tells what its nodes compute. -/
  behaviors : Assembly → Action (List Behavior)
  agree : ∀ asm, Store.Agree (Forall₂ Behavior.Alike) (behaviors asm) (behaviors asm)
  tidy : ∀ asm heap, Store.Tidy heap (fun heap made => ∀ v, .const v ∈ made → v.In heap)
    (behaviors asm)
  like : ∀ {a b : Assembly}, a.Like b → parts a = parts b ∧ outputs a = outputs b ∧
    behaviors a = behaviors b
  made : ∀ {asm s made t}, (behaviors asm).run s = (.ok made, t) →
    made.length = (parts asm).length ∧ (outputs asm).length = asm.block.outputs.length ∧
      ∀ behavior ∈ made, behavior.Inner P
  known : ∀ {asm i}, i ∈ outputs asm → i < (parts asm).length
  earlier : ∀ {asm : Assembly} {i : Nat} {pins : List PinSource},
    (parts asm)[i]? = some pins → ∀ other, PinSource.part other ∈ pins → other < i

namespace Assembly

/-- Let a pin of a new node wait for its link or read a node of the block. -/
def wirePin (made : List Handle) (id : Handle) (g : Graph) : PinSource × Nat → Graph
  | (.link name, pin) => g.addPendingLink id pin name
  | (.part i, pin) => g.connect id pin made[i]?

def makePart (asm : Assembly) (made : List Handle) (b : Behavior) (pins : List PinSource) :
    Edit Handle :=
  Edit.onGraph fun g =>
    let (id, g) := g.addNode b pins.length (some asm.owner)
    (id, pins.zipIdx.foldl (wirePin made id) g)

def makeParts (asm : Assembly) : List Handle → List (Behavior × List PinSource) → Edit (List Handle)
  | made, [] => return made
  | made, (b, pins) :: rest => do
    let n ← asm.makePart made b pins
    asm.makeParts (made ++ [n]) rest

end Assembly

variable {P : Native → Prop} {lib : Library} {recipes : List (String × Recipe P)}

/-- The assembler that follows a recipe. -/
def Recipe.assembler (recipe : Recipe P) : Assembler := fun asm => do
  let behaviors ← Edit.onStore (recipe.behaviors asm.unowned)
  let nodes ← asm.makeParts [] (behaviors.zip (recipe.parts asm.unowned))
  return (recipe.outputs asm.unowned).filterMap (nodes[·]?)

/-- All block types of a library follow recipes. -/
def Library.Uniform (P : Native → Prop) (lib : Library) : Prop :=
  ∀ entry ∈ lib.assemblers, ∃ recipe : Recipe P, entry.2 = recipe.assembler

/-- The recipes that the block types of a library follow. -/
def Library.Follows (lib : Library) (recipes : List (String × Recipe P)) : Prop :=
  lib.assemblers = recipes.map fun entry => (entry.1, entry.2.assembler)

lemma Library.Uniform.follows (uniform : lib.Uniform P) :
    ∃ recipes : List (String × Recipe P), lib.Follows recipes := by
  have each : ∀ entries : List (String × Assembler),
      (∀ entry ∈ entries, ∃ recipe : Recipe P, entry.2 = recipe.assembler) →
      ∃ recipes : List (String × Recipe P), entries = recipes.map fun entry =>
      (entry.1, entry.2.assembler) := by
    intro entries uniform
    induction entries with
    | nil => exact ⟨[], rfl⟩
    | cons entry entries ih =>
      obtain ⟨recipe, eq⟩ := uniform entry mem_cons_self
      obtain ⟨recipes, rest⟩ := ih fun other mem => uniform other (mem_cons_of_mem _ mem)
      exact ⟨(entry.1, recipe) :: recipes, by rw [map_cons, ← eq, ← rest]⟩
  exact each lib.assemblers uniform

lemma Library.Follows.uniform (follows : lib.Follows recipes) : lib.Uniform P := by
  intro entry mem
  rw [follows] at mem
  obtain ⟨⟨name, recipe⟩, -, rfl⟩ := mem_map.mp mem
  exact ⟨recipe, rfl⟩

lemma Library.Follows.assembler? (follows : lib.Follows recipes) (blockType : String) :
    lib.assembler? blockType = (recipes.lookup blockType).map Recipe.assembler := by
  rw [Library.assembler?, follows]
  clear follows
  induction recipes with
  | nil => rfl
  | cons entry recipes ih =>
    rw [map_cons, lookup_cons, lookup_cons]
    split
    · rfl
    · exact ih

/-! ## Following a recipe -/

namespace Form

/-- A pin waits for its link or reads a node of the block. -/
def wire (made : List Handle) (form : Form) : PinSource × Nat → Form
  | (.link name, pin) => if name.isEmpty then form else form.await pin (.link name)
  | (.part i, pin) => form.connect pin made[i]?

/-- The node that a pin reads from the start. -/
def given (made : List Handle) : PinSource → Option Handle
  | .link _ => none
  | .part i => made[i]?

/-- The form of a node that was just made: its pins read nodes of the block or wait for their
links. -/
structure Wired (owner : Handle) (made : List Handle) (behavior : Behavior) (pins : List PinSource)
    (form : Form) : Prop where
  behavior : form.behavior = behavior
  owner : form.owner = some owner
  inputs : form.inputs = pins.map (given made)
  pending : ∀ entry, entry ∈ form.pending ↔
    ∃ name, pins[entry.1]? = some (.link name) ∧ name.isEmpty = false ∧ entry.2 = .link name

/-- What wiring one pin changes, if the pin is unconnected and waits for nothing. -/
lemma wire_facts (made : List Handle) (form : Form) (src : PinSource)
    (unread : form.inputs[pin]? = some none) (idle : ∀ entry ∈ form.pending, entry.1 ≠ pin) :
    (form.wire made (src, pin)).behavior = form.behavior ∧
    (form.wire made (src, pin)).owner = form.owner ∧
      (form.wire made (src, pin)).inputs = form.inputs.set pin (given made src) ∧
      ∀ entry, entry ∈ (form.wire made (src, pin)).pending ↔ entry ∈ form.pending ∨
        ∃ name, src = .link name ∧ name.isEmpty = false ∧ entry = (pin, .link name) := by
  obtain ⟨inside, isNone⟩ := List.getElem?_eq_some_iff.mp unread
  have eq : form.inputs.set pin none = form.inputs := by rw [← isNone, set_getElem_self]
  cases src with
  | part i =>
    refine ⟨rfl, rfl, inputs_connect inside _, fun entry => ?_⟩
    rw [wire, mem_pending_connect]
    constructor
    · exact fun mem => .inl mem.1
    · rintro (mem | ⟨_, other, -⟩)
      · exact ⟨mem, idle entry mem⟩
      · cases other
  | link name =>
    rw [wire]
    cases isEmpty : name.isEmpty with
    | true =>
      refine ⟨rfl, rfl, eq.symm, fun entry => ?_⟩
      constructor
      · exact .inl
      · rintro (mem | ⟨_, other, filled, -⟩)
        · exact mem
        · cases other
          cases isEmpty.symm.trans filled
    | false =>
      refine ⟨rfl, rfl, eq.symm, fun entry => ?_⟩
      rw [if_neg Bool.false_ne_true, mem_pending_await]
      constructor
      · rintro (⟨mem, -⟩ | rfl)
        · exact .inl mem
        · exact .inr ⟨name, rfl, isEmpty, rfl⟩
      · rintro (mem | ⟨_, other, -, rfl⟩)
        · exact .inl ⟨mem, idle entry mem⟩
        · cases other
          exact .inr rfl

lemma foldl_wire (made : List Handle) (pins : List PinSource) (start : Nat) (form : Form)
    (before : List (Option Handle)) (length : before.length = start)
    (inputs : form.inputs = before ++ replicate pins.length none)
    (idle : ∀ entry ∈ form.pending, entry.1 < start) :
    ((pins.zipIdx start).foldl (wire made) form).behavior = form.behavior ∧
      ((pins.zipIdx start).foldl (wire made) form).owner = form.owner ∧
      ((pins.zipIdx start).foldl (wire made) form).inputs = before ++ pins.map (given made) ∧
      ∀ entry, entry ∈ ((pins.zipIdx start).foldl (wire made) form).pending ↔ entry ∈ form.pending ∨
        ∃ offset name, pins[offset]? = some (.link name) ∧ name.isEmpty = false ∧
          entry = (start + offset, .link name) := by
  induction pins generalizing start form before with
  | nil => exact ⟨rfl, rfl, by simpa using inputs, fun entry => by simp⟩
  | cons src pins ih =>
    have unread : form.inputs[start]? = some none := by
      rw [inputs, getElem?_append_right (by omega), length]
      simp
    obtain ⟨behavior, owner, inputs', pending⟩ := wire_facts made form src unread fun entry mem =>
      Nat.ne_of_lt (idle entry mem)
    obtain ⟨behavior', owner', inputs'', pending'⟩ := ih (start + 1) (form.wire made (src, start))
      (before ++ [given made src]) (by rw [length_append, length]; rfl)
      (by rw [inputs', inputs, ← length]; simp [replicate_succ])
      (fun entry mem => by
        rcases (pending entry).mp mem with mem | ⟨name, -, -, rfl⟩
        · exact Nat.lt_succ_of_lt (idle entry mem)
        · exact Nat.lt_succ_self start)
    rw [zipIdx_cons, foldl_cons]
    refine ⟨behavior'.trans behavior, owner'.trans owner, by rw [inputs'']; simp, fun entry => ?_⟩
    rw [pending', pending, or_assoc]
    refine or_congr_right ⟨?_, ?_⟩
    · rintro (⟨name, rfl, filled, rfl⟩ | ⟨offset, name, found, filled, rfl⟩)
      · exact ⟨0, name, rfl, filled, rfl⟩
      · exact ⟨offset + 1, name, found, filled, by rw [Nat.add_assoc, Nat.add_comm 1]⟩
    · rintro ⟨offset, name, found, filled, rfl⟩
      cases offset with
      | zero => exact .inl ⟨name, Option.some.inj found, filled, rfl⟩
      | succ offset =>
        exact .inr ⟨offset, name, found, filled, by rw [Nat.add_assoc, Nat.add_comm 1]⟩

lemma wired_make (owner : Handle) (made : List Handle) (b : Behavior) (pins : List PinSource) :
    Wired owner made b pins (pins.zipIdx.foldl (wire made) (make b pins.length (some owner))) := by
  obtain ⟨computes, owned, inputs, pending⟩ := foldl_wire made pins 0
    (make b pins.length (some owner)) [] rfl rfl fun _ mem => nomatch mem
  refine ⟨computes, owned, inputs, fun entry => ?_⟩
  rw [pending]
  constructor
  · rintro (mem | ⟨offset, name, found, filled, rfl⟩)
    · cases mem
    · exact ⟨name, by rw [Nat.zero_add]; exact found, filled, rfl⟩
  · rintro ⟨name, found, filled, eq⟩
    exact .inr ⟨entry.1, name, found, filled, by rw [Nat.zero_add, ← eq]⟩

end Form

namespace Assembly

open Graph (Adds)

variable {g : Graph} {made : List Handle} {w : Workspace}

/-- Wiring a pin of a node changes the form of that node only. -/
lemma wirePin_facts (made : List Handle)
    (live : ∀ n ∈ made, g.contains n) (id : Handle) (pin : PinSource × Nat) :
    Keeps g (wirePin made id g pin) ∧ (wirePin made id g pin).expansions = g.expansions ∧
      ∀ other, (wirePin made id g pin).form? other =
        if other = id then (g.form? id).map (·.wire made pin) else g.form? other := by
  obtain ⟨src, pin⟩ := pin
  cases src with
  | link name =>
    refine ⟨?_, expansions_addPendingLink g id pin name, form?_addPendingLink g id pin name⟩
    rw [wirePin, addPendingLink]
    split
    · exact .refl g
    · exact .addPending g id pin _
  | part i =>
    have found : g.live? made[i]? = made[i]? :=
      live?_eq_self fun n isMade => live n (mem_of_getElem? isMade)
    refine ⟨.connect g id pin _, expansions_connect g id pin _, fun other => ?_⟩
    rw [wirePin, form?_connect, found]
    rfl

lemma wirePins_facts (made : List Handle) (pins : List (PinSource × Nat))
    (live : ∀ n ∈ made, g.contains n) (id : Handle) :
    Keeps g (pins.foldl (wirePin made id) g) ∧ (pins.foldl (wirePin made id) g).expansions =
      g.expansions ∧
      ∀ other, (pins.foldl (wirePin made id) g).form? other =
        if other = id then (g.form? id).map (pins.foldl (Form.wire made)) else g.form? other := by
  induction pins generalizing g with
  | nil =>
    refine ⟨.refl g, rfl, fun other => ?_⟩
    by_cases eq : other = id
    · rw [if_pos eq, eq]
      exact Option.map_id'.symm
    · rw [if_neg eq]
      rfl
  | cons pin pins ih =>
    obtain ⟨keeps, expansions, forms⟩ := wirePin_facts made live id pin
    obtain ⟨keeps', expansions', forms'⟩ := ih fun n mem => (keeps.contains_iff n).mpr (live n mem)
    refine ⟨keeps.trans keeps', expansions'.trans expansions, fun other => ?_⟩
    rw [foldl_cons, forms', forms, forms]
    by_cases eq : other = id
    · rw [if_pos eq, if_pos eq, if_pos rfl, Option.map_map]
      rfl
    · rw [if_neg eq, if_neg eq, if_neg eq]

variable (asm : Assembly) (wf : w.graph.nodes.WellFormed) (live : ∀ n ∈ made, w.graph.contains n)
include asm wf live

/-- A new node of a block is wired as its pins say. -/
lemma makePart_facts (b : Behavior)
    (pins : List PinSource) :
    ∃ id g, (asm.makePart made b pins).run w = (.ok id, { w with graph := g }) ∧
      Adds [id] w.graph g ∧
      ∃ form, g.form? id = some form ∧ form.Wired asm.owner made b pins := by
  have adds := Adds.addNode wf b pins.length asm.owner
  have made' : ∀ other, (w.graph.addNode b pins.length (some asm.owner)).2.form? other = _ :=
    form?_addNode wf b pins.length (some asm.owner)
  generalize added : w.graph.addNode b pins.length (some asm.owner) = new at adds made'
  obtain ⟨id, g⟩ := new
  have live' : ∀ n ∈ made, g.contains n := fun n mem => adds.contains (live n mem)
  obtain ⟨keeps, expansions, forms⟩ := wirePins_facts made pins.zipIdx live' id
  refine ⟨id, _, ?_, adds.edit keeps expansions fun other absent => ?_, _, ?_,
    Form.wired_make asm.owner made b pins⟩
  · rw [makePart, Edit.onGraph]
    simp only [added]
  · rw [forms, if_neg (fun eq => absent (mem_singleton.mpr eq))]
  · rw [forms, if_pos rfl, made', if_pos rfl, Option.map_some]

/-- The nodes of a block are wired as their pins say, each to nodes made before it. -/
lemma makeParts_facts (parts : List (Behavior × List PinSource)) :
    ∃ nodes g, (asm.makeParts made parts).run w = (.ok (made ++ nodes), { w with graph := g }) ∧
      Adds nodes w.graph g ∧ nodes.Nodup ∧ nodes.length = parts.length ∧
      ∀ i n b pins, nodes[i]? = some n → parts[i]? = some (b, pins) →
        ∃ form, g.form? n = some form ∧ form.Wired asm.owner (made ++ nodes.take i) b pins := by
  induction parts generalizing made w with
  | nil =>
    exact ⟨[], w.graph, by rw [append_nil]; rfl, .refl wf, .nil, rfl, fun _ _ _ _ found => by
      cases found⟩
  | cons part parts ih =>
    obtain ⟨b, pins⟩ := part
    obtain ⟨id, g, ran, adds, form, isForm, wired⟩ := makePart_facts asm wf live b pins
    have live' : ∀ n ∈ made ++ [id], g.contains n := by
      intro n mem
      rcases mem_append.mp mem with old | isNew
      · exact adds.contains (live n old)
      · exact contains_iff_form.mpr (adds.live n isNew)
    obtain ⟨nodes, g', rest, adds', nodup, length, forms⟩ :=
      @ih (made ++ [id]) { w with graph := g } adds.nodes live'
    have absent : id ∉ nodes := fun again => adds.disjoint adds' (mem_singleton_self id) again
    refine ⟨id :: nodes, g', ?_, adds.trans adds', nodup_cons.mpr ⟨absent, nodup⟩,
      congrArg (· + 1) length, fun i n b' pins' isNode isPart => ?_⟩
    · rw [makeParts, Effect.run_bind, ran]
      dsimp only
      rw [rest, append_assoc]
      rfl
    · cases i with
      | zero =>
        cases isNode
        cases isPart
        refine ⟨form, (adds'.kept id absent).trans isForm, ?_⟩
        rw [take_zero, append_nil]
        exact wired
      | succ i =>
        obtain ⟨form', isForm', wired'⟩ := forms i n b' pins' isNode isPart
        refine ⟨form', isForm', ?_⟩
        rw [append_assoc] at wired'
        exact wired'

end Assembly

/-- The nodes of a block were made as its recipe says. -/
structure Recipe.Built (recipe : Recipe P) (asm : Assembly) (w w' : Workspace) (nodes : List Handle)
    (behaviors : List Behavior) : Prop where
  extends' : w.store.Extends w'.store
  adds : Adds nodes w.graph w'.graph
  nodup : nodes.Nodup
  length : nodes.length = (recipe.parts asm.unowned).length
  outputs : (recipe.outputs asm.unowned).length = asm.block.outputs.length
  answers : Store.Answers (Forall₂ Behavior.Alike) w'.store (recipe.behaviors asm.unowned) behaviors
  tidy : ∀ heap : Heap, heap.Fits w.store →
    ∃ later, heap.Within later ∧ later.Fits w'.store ∧ ∀ v, .const v ∈ behaviors → v.In later
  forms : ∀ {i : Nat} {n pins}, nodes[i]? = some n →
    (recipe.parts asm.unowned)[i]? = some pins → ∃ b form, behaviors[i]? = some b ∧
      w'.graph.form? n = some form ∧ form.Wired asm.owner nodes b pins

/-- A block follows its recipe: its nodes are made, or the recipe cannot be followed in any later
store and no node is made. -/
lemma Recipe.assembler_ends (recipe : Recipe P) (asm : Assembly) (wf : w.graph.nodes.WellFormed) :
    (recipe.assembler asm).Ends w (fun outs w' => ∃ nodes behaviors,
      recipe.Built asm w w' nodes behaviors ∧
        outs.map some = (recipe.outputs asm.unowned).map (nodes[·]?))
      fun _ w' => w.store.Extends w'.store ∧
      (∀ heap : Heap, heap.Fits w.store → heap.Leaves w'.store) ∧
        w'.graph = w.graph ∧ ∀ later, w'.store.Extends later → ∀ behaviors,
          ¬Store.Answers (Forall₂ Behavior.Alike) later
            (recipe.behaviors asm.unowned) behaviors := by
  have agree := recipe.agree asm.unowned
  have grows := agree.grows.extends' w.store
  have tidy := fun (heap : Heap) (fits : heap.Fits w.store) =>
    recipe.tidy asm.unowned heap heap w.store (.refl _) fits
  refine .bind (Edit.onStore_ends (fun behaviors store outcome => ?_) fun d store outcome => ?_) <;>
    rw [outcome] at grows
  · obtain ⟨length, enough, -⟩ := recipe.made outcome
    have wf' : ({ w with store } : Workspace).graph.nodes.WellFormed := wf
    obtain ⟨nodes, g, ran, adds, nodup, sameLength, forms⟩ := asm.makeParts_facts wf'
      (fun _ mem => absurd mem not_mem_nil) (behaviors.zip (recipe.parts asm.unowned))
    have count : nodes.length = (recipe.parts asm.unowned).length := by
      rw [sameLength, length_zip, length, Nat.min_self]
    refine .bind ?_
    rw [Effect.Ends, ran]
    refine ⟨nodes, behaviors,
      ⟨grows, adds, nodup, count, enough, .of_run agree outcome, fun heap fits =>
      (tidy heap fits).of_ok outcome, fun {i n pins} isNode isPart => ?_⟩, ?_⟩
    · have inside : i < behaviors.length := by
        rw [length]
        exact lt_of_getElem? isPart
      obtain ⟨form, isForm, wired⟩ := forms i n behaviors[i] pins isNode
        (getElem?_zip_eq_some.mpr ⟨getElem?_eq_getElem inside, isPart⟩)
      rw [nil_append] at wired
      refine ⟨behaviors[i], form, getElem?_eq_getElem inside, isForm, wired.behavior, wired.owner,
        ?_, wired.pending⟩
      -- the nodes made so far are the first ones of the block
      rw [wired.inputs]
      refine map_congr_left fun src mem => ?_
      cases src with
      | link => rfl
      | part other =>
        rw [Form.given, Form.given, getElem?_take_of_lt (recipe.earlier isPart other mem)]
    · rw [map_filterMap, ← filterMap_eq_map]
      refine filterMap_congr fun i mem => ?_
      show nodes[i]?.map some = some nodes[i]?
      rw [getElem?_eq_getElem (count ▸ recipe.known mem), Option.map_some]
  · exact ⟨grows, fun heap fits => (tidy heap fits).of_error outcome, rfl,
      fun later more behaviors answers =>
      answers.not_after agree outcome more⟩

/-! ## Uniform libraries conform -/

section

variable {rules : EditRules} {start : Workspace} {asm : Assembly} (lawful : rules.Expanding)
  (wf : start.graph.nodes.WellFormed)
include lawful wf

lemma Assembly.makePart_editing (made : List Handle) (makes : rules.Makes b)
    (pins : List PinSource) : Editing rules start (asm.makePart made b pins) := by
  refine .of_edits fun w earlier => ?_
  obtain ⟨wf', live⟩ := earlier.contains wf
  obtain ⟨-, fresh, -⟩ := addNode_facts wf' b pins.length (some asm.owner)
  have step : EditStep rules start w
      { w with graph := (w.graph.addNode b pins.length (some asm.owner)).2 } :=
    .addNode makes pins.length (some asm.owner)
  have wires : rules.Wires start (w.graph.addNode b pins.length (some asm.owner)).1 :=
    lawful.wires fun was => fresh (.inl (live _ was))
  have wired : ∀ (pins : List (PinSource × Nat)) (id : Handle) (w : Workspace),
      rules.Wires start id →
      Edits rules start w { w with graph := pins.foldl (wirePin made id) w.graph } := by
    intro pins id w wires
    induction pins generalizing w with
    | nil => exact .refl
    | cons pin pins ih =>
      obtain ⟨src, pin⟩ := pin
      have first : Edits rules start w { w with graph := wirePin made id w.graph (src, pin) } := by
        cases src with
        | link name => exact Edits.addPendingLink wires w pin name
        | part i => exact .single (.connect wires pin _)
      exact first.trans (ih { w with graph := wirePin made id w.graph (src, pin) })
  exact .head step (wired pins.zipIdx _ _ wires)

lemma Assembly.makeParts_editing (made : List Handle) (parts : List (Behavior × List PinSource))
    (makes : ∀ part ∈ parts, rules.Makes part.1) :
    Editing rules start (asm.makeParts made parts) := by
  induction parts generalizing made with
  | nil => exact .pure _
  | cons part parts ih =>
    exact .bind (makePart_editing lawful wf made (makes part mem_cons_self) part.2) fun n =>
      ih _ fun other mem => makes other (mem_cons_of_mem _ mem)

end

lemma Library.Uniform.conforms (uniform : lib.Uniform P)
    (lawful : rules.Expanding) (makes : ∀ b : Behavior, b.Inner P → rules.Makes b) :
    lib.Conforms rules := by
  intro entry mem asm w wf
  obtain ⟨recipe, eq⟩ := uniform entry mem
  rw [eq]
  refine Editing.edits fun v earlier => .bind ?_
  have grows := (recipe.agree asm.unowned).grows.extends' v.store
  refine Edit.onStore_ends (fun behaviors store ran => ?_) fun d store ran => ?_ <;>
    rw [ran] at grows
  · obtain ⟨-, -, inner⟩ := recipe.made ran
    have making : Editing rules w (asm.makeParts [] (behaviors.zip (recipe.parts asm.unowned))) :=
      Assembly.makeParts_editing lawful wf [] _ fun part mem =>
        makes part.1 (inner part.1 (of_mem_zip mem).1)
    exact (making.bind fun nodes => .pure _) _ (earlier.tail (.store grows))
  · exact earlier.tail (.store grows)

end Blockflow
