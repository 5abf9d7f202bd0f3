import Blockflow.Proofs.Expand.Layouts

/-!
# The block types that follow recipes

A built-in block reads its literals and makes one node, or one for every output, that waits for the
inputs of the block. So does a native. Libraries of them are uniform and positional, whatever their
circuits are.
-/

namespace Blockflow

open List Effect Edit

open Store (Agree Tidy)

variable {P : Native → Prop} {α β : Type}

namespace Edit

lemma onStore_bind (action : Action α) (next : α → Action β) :
    onStore (action >>= next) = onStore action >>= fun a => onStore (next a) := by
  ext w : 1
  show ((action >>= next).run w.store |>.1, { w with store := ((action >>= next).run w.store).2 }) =
    _
  rw [run_bind, run_bind]
  have ran : (onStore action).run w =
      ((action.run w.store).1, { w with store := (action.run w.store).2 }) := rfl
  rw [ran]
  rcases action.run w.store with ⟨d | a, store⟩ <;> rfl

lemma onStore_pure (a : α) : onStore (pure a) = pure a := rfl

lemma onStore_ofExcept (result : Except Diagnostic α) :
    onStore (ofExcept result) = ofExcept result := rfl

lemma ofExcept_bind (first : Except Diagnostic α) (next : α → Except Diagnostic β) :
    (ofExcept (first >>= next) : Effect σ β) = ofExcept first >>= fun a => ofExcept (next a) := by
  cases first <;> rfl

end Edit

lemma length_mapM {σ : Type} {f : α → Effect σ β} {items : List α} {s t : σ} {results : List β}
    (ran : (items.mapM f).run s = (.ok results, t)) : results.length = items.length := by
  induction items generalizing s results with
  | nil =>
    cases ran
    rfl
  | cons item items ih =>
    rw [mapM_cons] at ran
    obtain ⟨first, u, -, ran⟩ := run_bind_eq_ok.mp ran
    obtain ⟨rest, v, ranRest, ran⟩ := run_bind_eq_ok.mp ran
    cases ran
    exact congrArg (· + 1) (ih ranRest)

namespace Assembly

/-- The links that the nodes of a built-in block wait for. -/
def links (asm : Assembly) : List PinSource := asm.block.inputs.map .link

variable (asm : Assembly) (made : List Handle)

lemma makePart_links (behavior : Behavior) : asm.makePart made behavior asm.links =
    asm.addNode behavior := by
  rw [makePart, links, addNode]
  simp only [length_map, zipIdx_map, foldl_map]
  rfl

lemma makeParts_links (behavior : α → Behavior) (items : List α) :
    asm.makeParts made (items.map fun item => (behavior item, asm.links)) = do
      let nodes ← items.mapM fun item => asm.addNode (behavior item)
      return made ++ nodes := by
  induction items generalizing made with
  | nil => rw [map_nil, makeParts, mapM_nil, pure_bind, append_nil]
  | cons item items ih =>
    rw [map_cons, makeParts, makePart_links, mapM_cons, bind_assoc]
    refine bind_congr fun n => ?_
    rw [ih, bind_assoc]
    refine bind_congr fun nodes => ?_
    rw [append_assoc]
    rfl

/-- Making a node for every output, each of which waits for the inputs of the block. -/
lemma makeParts_outputs (count : Nat) (behavior : Nat → Behavior) : (do
      let nodes ← asm.makeParts [] (((range count).map behavior).zip (replicate count asm.links))
      return (range count).filterMap (nodes[·]?)) =
      (range count).mapM fun i => asm.addNode (behavior i) := by
  have parts : ((range count).map behavior).zip (replicate count asm.links) =
      (range count).map fun i => (behavior i, asm.links) :=
    ext_getElem (by simp) fun i _ _ => by simp
  rw [parts, makeParts_links, bind_assoc]
  generalize making : (range count).mapM (fun i => asm.addNode (behavior i)) = make
  ext w : 1
  rw [run_bind]
  rcases outcome : make.run w with ⟨d | nodes, w'⟩
  · rfl
  · have length : nodes.length = count := by
      rw [← making] at outcome
      rw [length_mapM outcome, length_range]
    have all : (range count).filterMap (nodes[·]?) = nodes := by
      have listed : (range nodes.length).map (nodes[·]?) = nodes.map some :=
        ext_getElem (by simp) fun i inside _ => by simp_all
      calc (range count).filterMap (nodes[·]?)
          = ((range nodes.length).map (nodes[·]?)).filterMap
            id := by rw [filterMap_map, length]; rfl
        _ = (nodes.map some).filterMap id := by rw [listed]
        _ = nodes := by simp
    show ((pure _ : Edit (List Handle)).run w') = _
    rw [nil_append, all]
    rfl

lemma outputs_of_expect {asm : Assembly} {count : Nat}
    (fits : asm.expect .outputs (.exactly count) = .ok ()) : asm.block.outputs.length = count := by
  rw [expect] at fits
  split at fits
  next accepts => simpa [Arity.accepts, Assembly.count] using accepts
  next => cases fits

end Assembly

section

variable (R : α → α → Prop) (check : Assembly → Action α) (count : Assembly → Nat)
  (behavior : Assembly → α → Nat → Behavior) (agree : ∀ asm, Agree R (check asm) (check asm))
  (alike : ∀ {asm a b}, R a b → ∀ i, (behavior asm a i).Alike (behavior asm b i))
  (inner : ∀ asm a i, (behavior asm a i).Inner P)
  (tidy : ∀ asm heap, Tidy heap (fun heap a => ∀ i v, behavior asm a i = .const v →
    v.In heap) (check asm))
  (like : ∀ {a b : Assembly}, a.Like b → check a = check b ∧ count a = count b ∧
    behavior a = behavior b)
  (counted : ∀ {asm s a t}, (check asm).run s = (.ok a, t) → count asm = asm.block.outputs.length)

/-- The recipe of a block that is checked and then makes a number of nodes, one for every output,
each of which waits for the inputs of the block. -/
def Recipe.ofOutputs : Recipe P where
  parts asm := replicate (count asm) asm.links
  outputs asm := range (count asm)
  behaviors asm := do return (range (count asm)).map (behavior asm (← check asm))
  agree asm := (agree asm).bind
    (fun a b related => .pure (forall₂_map_left_iff.mpr (forall₂_map_right_iff.mpr
      (forall₂_same.mpr fun i _ => alike related i))))
    (fun _ => .pure _) fun _ => .pure _
  tidy asm heap := (tidy asm heap).bind fun a later _ holds => .pure fun last more v mem => by
    obtain ⟨i, -, eq⟩ := mem_map.mp mem
    exact (holds i v eq).mono more
  like similar := by
    obtain ⟨checks, counts, computes⟩ := like similar
    simp only [checks, counts, computes, Assembly.links, similar.block, and_self]
  made ran := by
    obtain ⟨a, u, checked, ran⟩ := run_bind_eq_ok.mp ran
    cases ran
    refine ⟨by simp, by rw [length_range, counted checked], fun behavior mem => ?_⟩
    obtain ⟨i, -, rfl⟩ := mem_map.mp mem
    exact inner _ a i
  known mem := by simpa using mem
  earlier found other mem := by
    rw [(mem_replicate.mp (mem_of_getElem? found)).2] at mem
    obtain ⟨_, -, eq⟩ := mem_map.mp mem
    cases eq

lemma Recipe.ofOutputs_assembler (asm : Assembly) :
    (Recipe.ofOutputs R check count behavior agree alike inner tidy like counted).assembler asm =
      onStore (check asm.unowned) >>= fun a =>
        (range (count asm.unowned)).mapM fun i =>
          asm.addNode (behavior asm.unowned a i) := by
  rw [assembler]
  dsimp only [ofOutputs]
  rw [onStore_bind, bind_assoc]
  refine bind_congr fun a => ?_
  rw [onStore_pure]
  exact asm.makeParts_outputs (count asm.unowned) (behavior asm.unowned a)

/-- The layout of a block that is checked and then makes a number of nodes, one for every output,
each of which waits for the inputs of the block. -/
def Layout.ofOutputs : Layout where
  behaviors asm := do return (range (count asm)).map (behavior asm (← check asm))
  pins asm := replicate (count asm) ((range asm.block.inputs.length).map .input)
  outputs asm := range (count asm)

lemma Layout.ofOutputs_assembler (asm : Assembly) :
    (Layout.ofOutputs check count behavior).assembler asm = onStore (check asm.blank) >>= fun a =>
        (range (count asm.blank)).mapM fun i =>
          asm.addNode (behavior asm.blank a i) := by
  have places : ((range asm.blank.block.inputs.length).map PinPlace.input).map asm.source =
      asm.links := by
    refine ext_getElem (by simp [Assembly.links, Assembly.blank]) fun i _ inside => ?_
    simp [Assembly.links] at inside
    simp [Assembly.links, Assembly.source, inside]
  rw [assembler]
  dsimp only [ofOutputs]
  rw [onStore_bind, bind_assoc, map_replicate, places]
  refine bind_congr fun a => ?_
  rw [onStore_pure]
  exact asm.makeParts_outputs (count asm.blank) (behavior asm.blank a)

end

/-- A block type that follows a recipe and has a layout. -/
def Built (P : Native → Prop) (build : Assembler) : Prop :=
  (∃ recipe : Recipe P, build = recipe.assembler) ∧ ∃ layout : Layout, build = layout.assembler

/-- A block that is checked and then makes one node follows a recipe; the checks do not look at
names. -/
lemma built_of_check (check : Assembly → Action α) (behavior : Assembly → α → Behavior)
    (builds : ∀ asm, build asm =
      onStore (check asm.unowned) >>= fun a => asm.single (behavior asm.unowned a))
    (agree : ∀ asm, Agree R (check asm) (check asm))
    (alike : ∀ {asm a b}, R a b → (behavior asm a).Alike (behavior asm b))
    (inner : ∀ asm a, (behavior asm a).Inner P) (tidy : ∀ asm heap, Tidy heap
      (fun heap a => ∀ v, behavior asm a = .const v → v.In heap) (check asm))
    (like : ∀ {a b : Assembly}, a.Like b → check a = check b ∧ behavior a = behavior b)
    (blind : ∀ asm : Assembly, check asm.blank = check asm.unowned ∧
      behavior asm.blank = behavior asm.unowned)
    (counted : ∀ {asm s a t}, (check asm).run s = (.ok a, t) →
      asm.expect .outputs (.exactly 1) = .ok ()) : Built P build := by
  have single : ∀ (asm : Assembly) (made : Behavior), (range 1).mapM (fun _ => asm.addNode made) =
      asm.single made := by
    intro asm made
    rw [range_one, mapM_cons, mapM_nil]
    refine bind_congr fun n => ?_
    rw [pure_bind]
  refine ⟨⟨.ofOutputs R check (fun _ => 1) (fun asm a _ => behavior asm a) agree
    (fun related _ => alike related) (fun asm a _ => inner asm a)
    (fun asm heap => (tidy asm heap).imp fun _ _ _ holds _ => holds) (fun similar => ?_)
    (fun checked => (Assembly.outputs_of_expect (counted checked)).symm), funext fun asm => ?_⟩,
    .ofOutputs check (fun _ => 1) (fun asm a _ => behavior asm a), funext fun asm => ?_⟩
  · obtain ⟨checks, computes⟩ := like similar
    exact ⟨checks, rfl, by rw [computes]⟩
  · rw [builds, Recipe.ofOutputs_assembler]
    exact bind_congr fun a => (single asm _).symm
  · obtain ⟨checks, computes⟩ := blind asm
    rw [builds, Layout.ofOutputs_assembler, checks, computes]
    exact bind_congr fun a => (single asm _).symm

namespace Assembly

open Value (Alike)

/-- The argument at an index read as a literal, as a computation on the store. -/
def reading (asm : Assembly) (i : Nat) (tag : String) : Action Value :=
  ofExcept (asm.argument i) >>= fun text => Literal.parse tag text

section

variable (asm : Assembly) (i : Nat) (tag : String)

lemma onStore_reading : onStore (asm.unowned.reading i tag) = asm.literal i tag :=
  onStore_bind _ _

lemma reading_agree : Agree Alike (asm.reading i tag) (asm.reading i tag) :=
  .after _ fun text => Literal.parse_agree tag text

lemma reading_tidy (heap : Heap) :
    Tidy heap (fun heap v => ∀ made, Behavior.const v = .const made → made.In heap)
      (asm.reading i tag) :=
  .after _ fun text => (Literal.parse_tidy tag text heap).imp fun _ _ _ holds _ eq =>
    Behavior.const.inj eq ▸ holds

lemma expect_blank (side : Side) (arity : Arity) :
    asm.blank.expect side arity = asm.unowned.expect side arity := by
  have count : asm.blank.count side = asm.unowned.count side := by
    cases side <;> simp [count, blank, unowned]
  rw [expect, count]
  rfl

/-! A check of a block is a check of its numbers of links and arguments, followed by the reading of
what its arguments say. -/

lemma ofLiteral_built : Built P (ofLiteral tag) :=
  built_of_check (fun asm => ofExcept (asm.expect .inputs (.exactly 0)) >>= fun _ =>
      ofExcept (asm.expect .outputs (.exactly 1)) >>= fun _ =>
      ofExcept (asm.expect .arguments (.exactly 1)) >>= fun _ => asm.reading 0 tag)
    (fun _ v => .const v)
    (fun asm => by
      simp only [onStore_bind, onStore_ofExcept, onStore_reading, bind_assoc]
      rfl)
    (fun asm => .after _ fun _ => .after _ fun _ => .after _ fun _ => asm.reading_agree 0 tag)
    (fun related => .const related) (fun _ _ => trivial)
    (fun asm heap => .after _ fun _ => .after _ fun _ => .after _ fun _ =>
      asm.reading_tidy 0 tag heap)
    (fun similar => by
      rw [similar.eq]
      exact ⟨rfl, rfl⟩)
    (fun _ => ⟨by simp only [expect_blank]; rfl, rfl⟩)
    fun ran => by
      obtain ⟨-, -, ran⟩ := run_ofExcept_bind_eq_ok.mp ran
      obtain ⟨_, fits, -⟩ := run_ofExcept_bind_eq_ok.mp ran
      exact fits

end

def constReading (asm : Assembly) : List String → Action Value
  | [_] => asm.reading 0 "auto"
  | [tag, _] => asm.reading 1 tag
  | args => .refuse (.constArguments args.length)

lemma const_built : Built P const :=
  built_of_check (fun asm => ofExcept (asm.expect .inputs (.exactly 0)) >>= fun _ =>
      ofExcept (asm.expect .outputs (.exactly 1)) >>= fun _ =>
      asm.constReading asm.arguments)
    (fun _ v => .const v)
    (fun asm => by
      have eq : asm.unowned.arguments = asm.arguments := rfl
      simp only [const, onStore_bind, onStore_ofExcept, bind_assoc, eq]
      refine bind_congr fun _ => bind_congr fun _ => ?_
      rcases asm.arguments with _ | ⟨first, _ | ⟨second, _ | ⟨third, rest⟩⟩⟩
      · rfl
      · rw [constReading, onStore_reading]
      · rw [constReading, onStore_reading]
      · rfl)
    (fun asm => .after _ fun _ => .after _ fun _ => by
      rcases asm.arguments with _ | ⟨first, _ | ⟨second, _ | ⟨third, rest⟩⟩⟩
      · exact .fail _ _
      · exact asm.reading_agree 0 "auto"
      · exact asm.reading_agree 1 first
      · exact .fail _ _)
    (fun related => .const related) (fun _ _ => trivial)
    (fun asm heap => .after _ fun _ => .after _ fun _ => by
      rcases asm.arguments with _ | ⟨first, _ | ⟨second, _ | ⟨third, rest⟩⟩⟩
      · exact .fail _
      · exact asm.reading_tidy 0 "auto" heap
      · exact asm.reading_tidy 1 first heap
      · exact .fail _)
    (fun similar => by
      rw [similar.eq]
      exact ⟨rfl, rfl⟩)
    (fun _ => ⟨by simp only [expect_blank]; rfl, rfl⟩)
    fun ran => by
      obtain ⟨-, -, ran⟩ := run_ofExcept_bind_eq_ok.mp ran
      obtain ⟨_, fits, -⟩ := run_ofExcept_bind_eq_ok.mp ran
      exact fits

/-- A block that is checked by its numbers of links and arguments only. -/
lemma built_of_arity {build : Assembler} (check : Assembly → Except Diagnostic Unit)
    (behavior : Assembly → Behavior) (builds : ∀ asm, build asm =
      ofExcept (check asm.unowned) >>= fun _ => asm.single (behavior asm.unowned))
    (inner : ∀ asm, (behavior asm).Inner P) (constant : ∀ asm v, behavior asm ≠ .const v)
    (inward : ∀ (asm : Assembly) owner circuits, check { asm with owner, circuits } = check asm ∧
      behavior { asm with owner, circuits } = behavior asm)
    (blind : ∀ asm : Assembly, check asm.blank = check asm.unowned ∧
      behavior asm.blank = behavior asm.unowned)
    (counted : ∀ {asm}, check asm = .ok () → asm.expect .outputs (.exactly 1) = .ok ()) :
    Built P build :=
  built_of_check (fun asm => ofExcept (check asm)) (fun asm _ => behavior asm) builds
    (fun _ => .same _) (fun _ => .same _) (fun asm _ => inner asm)
    (fun asm heap => by
      cases check asm with
      | ok => exact .pure fun _ _ v eq => absurd eq (constant asm v)
      | error d => exact .fail d)
    (fun {a b} similar => by
      obtain ⟨checks, computes⟩ := inward a b.owner b.circuits
      rw [similar.eq]
      exact ⟨congrArg _ checks.symm, by rw [computes]⟩)
    (fun asm => by
      obtain ⟨checks, computes⟩ := blind asm
      exact ⟨congrArg _ checks, by rw [computes]⟩)
    fun ran => counted (congrArg Prod.fst ran)

lemma built_of_inputs {build : Assembler} (arity : Arity) (behavior : Behavior)
    (builds : ∀ asm, build asm = do
      asm.expect .inputs arity
      asm.expect .outputs (.exactly 1)
      asm.single behavior)
    (inner : behavior.Inner P) (constant : ∀ v, behavior ≠ .const v) : Built P build :=
  built_of_arity (fun asm => do
      asm.expect .inputs arity
      asm.expect .outputs (.exactly 1))
    (fun _ => behavior) (fun asm => by rw [ofExcept_bind, bind_assoc]; exact builds asm)
    (fun _ => inner) (fun _ => constant) (fun _ _ _ => ⟨rfl, rfl⟩)
      (fun _ => ⟨by simp only [expect_blank], rfl⟩)
    fun fits => by
      obtain ⟨-, -, fits⟩ := bind_eq_ok.mp fits
      exact fits

lemma operator_built (name : String) (inputs : Nat) : Built P (operator name inputs) :=
  built_of_inputs (.exactly inputs) (.virtual [name]) (fun _ => rfl) trivial fun _ => nofun

lemma loopBegin_built : Built P loopBegin :=
  built_of_inputs (.exactly 1) .loopBegin (fun _ => rfl) trivial fun _ => nofun

lemma loopEnd_built : Built P loopEnd :=
  built_of_inputs (.exactly 3) .loopEnd (fun _ => rfl) trivial fun _ => nofun

lemma switch_built : Built P switch :=
  built_of_inputs (.atLeast 2) .switch (fun _ => rfl) trivial fun _ => nofun

lemma ofNative_built (holds : P native) : Built P (ofNative native) :=
  built_of_inputs native.arity (.op native) (fun _ => rfl) holds fun _ => nofun

lemma virtualCall_built : Built P virtualCall :=
  built_of_arity (fun asm => do
      asm.expect .inputs (.atLeast 1)
      asm.expect .outputs (.exactly 1)
      asm.expect .arguments (.atLeast 1))
    (fun asm => .virtual asm.arguments)
    (fun asm => by simp only [ofExcept_bind, bind_assoc]; rfl)
    (fun _ => trivial) (fun _ _ => nofun) (fun _ _ _ => ⟨rfl, rfl⟩)
      (fun _ => ⟨by simp only [expect_blank], rfl⟩)
    fun fits => by
      obtain ⟨-, -, fits⟩ := bind_eq_ok.mp fits
      obtain ⟨_, fits, -⟩ := bind_eq_ok.mp fits
      exact fits

lemma pack_built : Built P pack :=
  built_of_arity (fun asm => asm.expect .outputs (.exactly 1)) (fun _ => .pack)
    (fun _ => rfl) (fun _ => trivial) (fun _ _ => nofun) (fun _ _ _ => ⟨rfl, rfl⟩)
    (fun _ => ⟨by simp only [expect_blank], rfl⟩) fun fits => fits

/-- The name of the circuit that a call block calls, once it has been checked. -/
def callee (asm : Assembly) : Except Diagnostic String := do
  asm.expect .outputs (.exactly 1)
  asm.expect .arguments (.exactly 1)
  let name ← asm.argument 0
  match findCircuit? asm.circuits name with
  | none => .error { problem := .unknownCircuit name }
  | some callee =>
    let pins := callee.inputPins
    let supplied := asm.block.inputs.length
    if pins.isVariadic || pins.size != supplied then
      .error { problem := .circuitTakes name pins.size .inputs supplied }
    else .ok name

lemma callee_like {a b : Assembly} (similar : a.Like b) : a.callee = b.callee := by
  rw [similar.eq]
  refine bind_congr fun _ => bind_congr fun _ => bind_congr fun name => ?_
  have eq := similar.inputs name
  cases found : findCircuit? a.circuits name <;> cases found' : findCircuit? b.circuits name <;>
    rw [found, found'] at eq
  · cases eq
  · cases eq
  · next left right =>
    have pins : left.inputPins = right.inputPins := congrArg Pins.mk (Option.some.inj eq)
    dsimp only
    rw [pins]

lemma callee_blank (asm : Assembly) : asm.blank.callee = asm.unowned.callee := by
  have found : ∀ name, findCircuit? asm.blank.circuits name =
      (findCircuit? asm.unowned.circuits name).map Circuit.signature := fun name => find?_map ..
  rw [callee, expect_blank]
  refine bind_congr fun _ => bind_congr fun _ => bind_congr fun name => ?_
  rw [found]
  cases findCircuit? asm.unowned.circuits name with
  | none => rfl
  | some callee =>
    have supplied : asm.blank.block.inputs.length = asm.unowned.block.inputs.length := length_map _
    rw [supplied]
    rfl

lemma call_built : Built P call :=
  built_of_check (fun asm => ofExcept asm.callee) (fun _ name => .call name) (fun asm => by
      have eq : asm.unowned.circuits = asm.circuits := rfl
      simp only [call, callee, onStore_ofExcept, onStore_bind, ofExcept_bind, bind_assoc, eq]
      refine bind_congr fun _ => bind_congr fun _ => bind_congr fun name => ?_
      cases findCircuit? asm.circuits name with
      | none => rfl
      | some callee =>
        have eq' : asm.unowned.block = asm.block := rfl
        simp only [eq']
        split <;> rfl)
    (fun _ => .same _) (fun eq => by rw [eq]; exact .same _) (fun _ _ => trivial)
    (fun asm heap => by
      cases asm.callee with
      | ok => exact .pure fun _ _ v computes => by cases computes
      | error d => exact .fail d)
    (fun similar => ⟨congrArg _ (callee_like similar), rfl⟩)
      (fun asm => ⟨congrArg _ asm.callee_blank, rfl⟩)
    fun ran => by
      obtain ⟨_, fits, -⟩ := bind_eq_ok.mp (congrArg Prod.fst ran)
      exact fits

/-- Where the elements that an unpack block takes start, once it has been checked. -/
def offset (asm : Assembly) : Action Nat :=
  ofExcept (asm.expect .inputs (.exactly 1)) >>= fun _ =>
  if asm.arguments.isEmpty then pure 0
  else ofExcept (asm.expect .outputs (.exactly 1)) >>= fun _ =>
    asm.reading 0 "int" >>= fun v =>
      if (v.int?).getD 0 < 0 then .refuse (.negativeUnpackIndex ((v.int?).getD 0))
      else pure ((v.int?).getD 0).toNat

lemma offset_agree (asm : Assembly) : Agree Eq asm.offset asm.offset := by
  have last : ∀ v : Value,
      Agree Eq (if (v.int?).getD 0 < 0 then refuse (.negativeUnpackIndex ((v.int?).getD 0))
        else pure ((v.int?).getD 0).toNat)
      (if (v.int?).getD 0 < 0 then refuse (.negativeUnpackIndex ((v.int?).getD 0))
        else pure ((v.int?).getD 0).toNat) := by
    intro v
    split
    · exact .fail _ _
    · exact .pure rfl
  refine .after _ fun _ => ?_
  split
  · exact .pure rfl
  · refine .after _ fun _ => (asm.reading_agree 0 "int").bind (fun a b alike => ?_)
      (fun a => (last a).grows) fun b => (last b).grows
    have eq : a.int? = b.int? := by rw [← Value.int?_bare a, ← Value.int?_bare b, alike]
    rw [eq]
    exact last b

lemma offset_tidy (asm : Assembly) (heap : Heap) :
    Tidy heap (fun heap start => ∀ i v, Behavior.unpack (start + i) = .const v →
      v.In heap) asm.offset := by
  refine .after _ fun _ => ?_
  split
  · exact .pure fun _ _ _ _ => nofun
  · refine .after _ fun _ => (asm.reading_tidy 0 "int" heap).bind fun v later _ _ => ?_
    split
    · exact .fail _
    · exact .pure fun _ _ _ _ => nofun

lemma unpack_built : Built P unpack := by
  have inner : ∀ (_ : Assembly) (start i : Nat), (Behavior.unpack (start + i)).Inner P :=
    fun _ _ _ => trivial
  have follows : ∀ asm : Assembly, unpack asm = onStore asm.unowned.offset >>= fun start =>
      (range (if asm.arguments.isEmpty then asm.block.outputs.length else 1)).mapM fun i =>
        asm.addNode (.unpack (start + i)) := by
    intro asm
    rw [offset, onStore_bind, bind_assoc]
    refine bind_congr fun _ => ?_
    have args : asm.unowned.arguments = asm.arguments := rfl
    rw [args]
    by_cases noArgument : asm.arguments.isEmpty
    · rw [if_pos noArgument, if_pos noArgument, if_pos noArgument, onStore_pure, pure_bind]
      simp only [Nat.zero_add]
    · rw [if_neg noArgument, if_neg noArgument, if_neg noArgument, onStore_bind, bind_assoc]
      refine bind_congr fun _ => ?_
      rw [onStore_bind, onStore_reading, bind_assoc]
      refine bind_congr fun v => ?_
      by_cases negative : (v.int?).getD 0 < 0
      · rw [if_pos negative, if_pos negative]
        rfl
      · rw [if_neg negative, if_neg negative, onStore_pure, pure_bind, range_one, mapM_cons,
          mapM_nil, Nat.add_zero]
        refine bind_congr fun n => ?_
        rw [pure_bind]
  refine ⟨⟨.ofOutputs Eq offset
    (fun asm => if asm.arguments.isEmpty then asm.block.outputs.length else 1)
    (fun _ start i => .unpack (start + i)) offset_agree (fun eq _ => by rw [eq]; exact .same _)
    inner offset_tidy (fun similar => ?_) (fun ran => ?_), funext fun asm => ?_⟩,
    .ofOutputs offset (fun asm => if asm.arguments.isEmpty then asm.block.outputs.length else 1)
      (fun _ start i => .unpack (start + i)), funext fun asm => ?_⟩
  · rw [similar.eq]
    exact ⟨rfl, rfl, rfl⟩
  · obtain ⟨-, -, ran⟩ := run_ofExcept_bind_eq_ok.mp ran
    split at ran
    next noArgument => rw [if_pos noArgument]
    next someArgument =>
      obtain ⟨_, fits, -⟩ := run_ofExcept_bind_eq_ok.mp ran
      rw [if_neg someArgument]
      exact (outputs_of_expect fits).symm
  · rw [Recipe.ofOutputs_assembler, follows]
    rfl
  · have outputs : asm.blank.block.outputs.length = asm.block.outputs.length := length_map _
    have args : asm.blank.arguments = asm.arguments := rfl
    have checks : asm.blank.offset = asm.unowned.offset := by
      rw [offset, expect_blank, expect_blank]
      rfl
    rw [Layout.ofOutputs_assembler, follows, checks, outputs, args]

end Assembly

namespace Library

open Assembly

lemma builtin_built (holds : ∀ native ∈ Operators.natives, P native) :
    ∀ entry ∈ builtin.assemblers, Built P entry.2 := by
  intro entry mem
  simp only [builtin, builtinAssemblers, mem_append, mem_map, mem_cons, not_mem_nil,
    or_false] at mem
  rcases mem with (((⟨tag, -, rfl⟩ | rfl) | ⟨⟨name, inputs⟩, -, rfl⟩) | rfl | rfl
      | rfl | rfl | rfl |
    rfl | rfl) | ⟨native, known, rfl⟩
  · exact ofLiteral_built tag
  · exact const_built
  · exact operator_built name inputs
  · exact virtualCall_built
  · exact pack_built
  · exact unpack_built
  · exact loopBegin_built
  · exact loopEnd_built
  · exact switch_built
  · exact call_built
  · exact ofNative_built (holds native known)

lemma builtin_uniform (holds : ∀ native ∈ Operators.natives, P native) : builtin.Uniform P :=
  fun entry mem => (builtin_built holds entry mem).1

lemma builtin_conforms (lawful : rules.Expanding)
    (makes : ∀ behavior : Behavior, behavior.Inner P → rules.Makes behavior)
    (holds : ∀ native ∈ Operators.natives, P native) : builtin.Conforms rules :=
  (builtin_uniform holds).conforms lawful makes

lemma builtin_positional : builtin.Positional :=
  fun entry mem => (builtin_built (P := fun _ => True) (fun _ _ => trivial) entry mem).2

section

variable {lib : Library}

lemma Uniform.insertAll (uniform : lib.Uniform P) (circuits : List Circuit) :
    (lib.insertAll circuits).Uniform P := by
  rw [Uniform, lib.assemblers_insertAll]
  exact uniform

lemma Positional.insertAll (positional : lib.Positional) (circuits : List Circuit) :
    (lib.insertAll circuits).Positional := by
  rw [Positional, lib.assemblers_insertAll]
  exact positional

end

end Library

end Blockflow
