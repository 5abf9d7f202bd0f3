import Blockflow.Proofs.Expand.Recipes

/-!
# Places

Where the nodes of an expanded circuit belong can be told before any of them is made. A place is a
way down through nested circuits and a role at its end. The blueprint of a graph says of each place
what its node computes and which places its pins read; which of them are made, when and under which
handles, is left to the order in which the graph settles.
-/

namespace Blockflow

open List

/-- What a node is for in an instance of a circuit. -/
inductive Role where
  | param (i : Nat)
  | output (i : Nat)
  | argument (i : Nat)
  /-- Packs what the variadic input gathers. -/
  | rest
  | part (block i : Nat)
  /-- Stands for an output of a block that is a circuit. -/
  | nested (block pin : Nat)
  /-- Unpacks the variadic output of a block that is a circuit. -/
  | spread (block i : Nat)
  deriving DecidableEq

/-- The way to an instance of a circuit: a root, or a block of an instance further out. -/
inductive Way where
  | root (i : Nat)
  | inner (outer : Way) (block : Nat)
  deriving DecidableEq

def Way.outer : Way → Way
  | .root i => .root i
  | .inner path _ => path

def Way.depth : Way → Nat
  | .root _ => 0
  | .inner path _ => path.depth + 1

lemma Way.inner_ne_self (path : Way) (block : Nat) : path.inner block ≠ path := by
  induction path generalizing block with
  | root => exact Way.noConfusion
  | inner path other ih => exact fun eq => ih other (Way.inner.inj eq).1

/-- A role in the instance at the end of a way. -/
structure Place where
  path : Way
  role : Role
  deriving DecidableEq

/-- What a pin reads, seen from the instance of its node. -/
inductive PinTarget where
  | link (name : String)
  /-- A link of the instance around. -/
  | outer (name : String)
  /-- An output of a block that is a circuit. -/
  | nested (block pin : Nat)
  | role (role : Role)

/-- A library whose block types follow recipes, and the circuits that are expanded. -/
structure Blueprint (P : Native → Prop) where
  library : Library
  recipes : List (String × Recipe P)
  follows : library.Follows recipes
  /-- The roots before anything is made of them. -/
  bases : List Expansion

namespace Blueprint

variable {P : Native → Prop} (bp : Blueprint P)

/-- The instances on a way, innermost first, before anything is made of them. A circuit does not
occur twice on a way. -/
def layers : Way → Option (List Expansion)
  | .root i => bp.bases[i]?.map ([·])
  | .inner path block => do
    let outer ← layers path
    let around ← outer.head?
    let descriptor := (around.block? block).getD default
    let callee ← bp.library.circuit? descriptor.blockType
    if outer.any (·.circuit.name = callee.name) then none
    else
      let child ← (Expansion.make callee [] (around.specialize descriptor.arguments)).toOption
      return child :: outer

/-- The instance at the end of a way. -/
def layer? (path : Way) : Option Expansion := (bp.layers path).bind head?

/-- What the recipe of a block is told. -/
def assembly? (path : Way) (block : Nat) : Option Assembly := do
  let layer ← bp.layer? path
  let descriptor ← layer.block? block
  return ⟨default, descriptor, layer.specialize descriptor.arguments, bp.library.circuits⟩

/-- The links that a block reads. -/
def linksOf (path : Way) (block : Nat) : List String :=
  ((bp.layer? path).bind (·.block? block)).elim [] Block.inputs

/-- How many inputs the instance at a way declares. -/
def inputCount (path : Way) :
    Nat := (bp.layer? path).elim 0 fun layer => layer.circuit.inputs.length

/-- How a block makes its outputs. -/
inductive Method (P : Native → Prop) where
  | recipe (recipe : Recipe P)
  | circuit (callee : Circuit)

def method? (blockType : String) : Option (Method P) :=
  match bp.recipes.lookup blockType with
  | some recipe => some (.recipe recipe)
  | none => (bp.library.circuit? blockType).map .circuit

/-- How many outputs of a nested block stand for outputs of its circuit. -/
def fixedOutputs (callee : Circuit) (supplied : Nat) : Nat :=
  if callee.outputPins.isVariadic then callee.outputPins.fixed else supplied

def nestedRoles (block : Nat) (callee : Circuit) (supplied : Nat) : List Role :=
  let fixed := fixedOutputs callee supplied
  (range (min fixed supplied)).map (.nested block)
  ++ if callee.outputPins.isVariadic then (range (supplied - fixed)).map (.spread block) else []

def outputRoles (path : Way) (block : Nat) : List Role :=
  match bp.assembly? path block with
  | none => []
  | some asm =>
    match bp.method? asm.block.blockType with
    | some (.recipe recipe) => (recipe.outputs asm).map (.part block)
    | some (.circuit callee) => nestedRoles block callee asm.block.outputs.length
    | none => []

/-- The target of a link. -/
def target? (path : Way) (name : String) : Option LinkTarget :=
  (bp.layer? path).bind (·.links.lookup name)

/-- Whether an input of the instance at a way is its variadic one. -/
def isRest (path : Way) (i : Nat) : Bool :=
  ((bp.layer? path).bind (·.circuit.inputPins.rest?)) == some i

/-- The place that a link leads to, where the places of inputs are known. -/
def follow (path : Way) (input : Nat → Option Place) (name : String) : Option Place :=
  if name.isEmpty then none
  else match bp.target? path name with
    | none => none
    | some (.argument i) => some ⟨path, .argument i⟩
    | some (.output block pin) => (bp.outputRoles path block)[pin]?.map (⟨path, ·⟩)
    | some (.input i) => input i

/-- The place of an input of a nested circuit, where the places of the links around are known. -/
def inputSource (path : Way) (block i : Nat) (around : String → Option Place) : Option Place :=
  if bp.isRest (path.inner block) i then some ⟨path.inner block, .rest⟩
  else (bp.linksOf path block)[i]?.bind around

/-- The place that a link leads to. -/
def source : Way → String → Option Place
  | .root root => bp.follow (.root root) fun i =>
    if i < bp.inputCount (.root root) then some ⟨.root root, .param i⟩ else none
  | .inner path block => bp.follow (path.inner block) fun i =>
    bp.inputSource path block i (source path)

/-- The place that an output of a nested block stands for. -/
def nestedSource (path : Way) (block pin : Nat) : Option Place :=
  ((bp.layer? (path.inner block)).bind (·.circuit.outputPins.name? pin)).bind
    (bp.source (path.inner block))

/-- The place that a pin reads. -/
def targetSource (path : Way) : PinTarget → Option Place
  | .link name => bp.source path name
  | .outer name => bp.source path.outer name
  | .nested block pin => bp.nestedSource path block pin
  | .role role => some ⟨path, role⟩

/-- What the pins of a node of a block read. -/
def partTarget (block : Nat) : PinSource → PinTarget
  | .link name => .link name
  | .part i => .role (.part block i)

/-- What the pins of a place read. -/
def pins : Place → List PinTarget
  | ⟨_, .param _⟩ | ⟨_, .argument _⟩ => []
  | ⟨path, .output i⟩ => ((bp.layer? path).bind (·.circuit.outputPins.name? i)).toList.map .link
  | ⟨.root _, .rest⟩ => []
  | ⟨.inner path block, .rest⟩ =>
    match (bp.layer? (path.inner block)).bind (·.circuit.inputPins.rest?) with
    | some i => ((bp.linksOf path block).drop i).map .outer
    | none => []
  | ⟨path, .part block i⟩ =>
    match bp.assembly? path block with
    | none => []
    | some asm =>
      match bp.method? asm.block.blockType with
      | some (.recipe recipe) => ((recipe.parts asm)[i]?.getD []).map (partTarget block)
      | _ => []
  | ⟨_, .nested block pin⟩ => [.nested block pin]
  | ⟨path, .spread block _⟩ =>
    match (bp.assembly? path block).bind fun asm => bp.method? asm.block.blockType with
    | some (.circuit callee) => callee.outputPins.rest?.toList.map fun rest =>
      .role (.nested block rest)
    | _ => []

/-! ## What can be made -/

open Store (Answers)
open Value (Alike)

/-- The nodes of a block can be made, in every later store. -/
def BlockFine (store : Store) (path : Way) (block : Nat) : Prop :=
  ∀ asm, bp.assembly? path block = some asm →
    match bp.method? asm.block.blockType with
    | some (.recipe recipe) =>
      ∃ behaviors, Answers (Forall₂ Behavior.Alike) store (recipe.behaviors asm) behaviors
    | some (.circuit callee) =>
      callee.inputPins.accepts asm.block.inputs.length ∧
        callee.outputPins.accepts asm.block.outputs.length ∧
        callee.argumentPins.accepts asm.arguments.length
    | none => False

/-- An argument has a value, in every later store. -/
def ArgumentFine (store : Store) (path : Way) (i : Nat) : Prop :=
  ∃ layer v, bp.layer? path = some layer ∧ Answers Alike store (Expand.argumentValue layer i) v

/-- A link can be resolved, where it is known which inputs can. -/
def FollowFine (store : Store) (path : Way) (input : Nat → Prop) (name : String) : Prop :=
  name.isEmpty = false → match bp.target? path name with
    | none => False
    | some (.argument i) => bp.ArgumentFine store path i
    | some (.output block _) => bp.BlockFine store path block
    | some (.input i) => input i

/-- An input of a nested circuit can be resolved, where it is known which links around can. -/
def InputFine (path : Way) (block i : Nat) (around : String → Prop) : Prop :=
  if bp.isRest (path.inner block) i then
    ∀ link ∈ (bp.linksOf path block).drop i, around link
  else ∀ link, (bp.linksOf path block)[i]? = some link → around link

/-- A link can be resolved, in every later store. -/
def LinkFine (store : Store) : Way → String → Prop
  | .root root => bp.FollowFine store (.root root) fun _ => True
  | .inner path block => bp.FollowFine store (path.inner block) fun i =>
    bp.InputFine path block i (LinkFine store path)

/-- A pin can be connected, in every later store. -/
def TargetFine (store : Store) (path : Way) : PinTarget → Prop
  | .link name => bp.LinkFine store path name
  | .outer name => bp.LinkFine store path.outer name
  | .nested block pin => ∃ layer, bp.layer? (path.inner block) = some layer ∧
    ∀ name, layer.circuit.outputPins.name? pin = some name →
    bp.LinkFine store (path.inner block) name
  | .role _ => True

/-- A pin cannot be connected, in any later store. -/
def Hopeless (store : Store) (path : Way) (target : PinTarget) : Prop :=
  ∀ later, store.Extends later → ¬bp.TargetFine later path target

/-- A block stands for a circuit. -/
def Nests (path : Way) (block : Nat) (callee : Circuit) (outs : Nat) : Prop :=
  ∃ asm, bp.assembly? path block = some asm ∧
    bp.method? asm.block.blockType = some (.circuit callee) ∧ outs = asm.block.outputs.length

/-- What the node of a place computes. -/
def Suits (store : Store) : Place → Behavior → Prop
  | ⟨_, .param i⟩, b => b = .param i
  | ⟨_, .output _⟩, b => b = .pass
  | ⟨path, .argument i⟩, b => ∃ layer v, bp.layer? path = some layer ∧
    Answers Alike store (Expand.argumentValue layer i) v ∧ b = .const v
  | ⟨_, .rest⟩, b => b = .pack
  | ⟨path, .part block i⟩, b => ∃ asm recipe behaviors,
    bp.assembly? path block = some asm ∧
      bp.method? asm.block.blockType = some (.recipe recipe) ∧
      Answers (Forall₂ Behavior.Alike) store (recipe.behaviors asm) behaviors ∧
      behaviors[i]? = some b
  | ⟨path, .nested block pin⟩, b => b = .nested block pin ∧ ∃ callee outs,
    bp.Nests path block callee outs ∧ (pin < outs ∨ callee.outputPins.rest? = some pin)
  | ⟨path, .spread block i⟩, b => b = .unpack i ∧ ∃ callee outs,
    bp.Nests path block callee outs ∧ i < outs

/-! ## The empty link -/

lemma source_empty (path : Way) (isEmpty : name.isEmpty) : bp.source path name = none := by
  cases path <;> rw [source, follow, if_pos isEmpty]

lemma linkFine_empty (store : Store) (path : Way) (isEmpty : name.isEmpty) :
    bp.LinkFine store path name := by
  cases path <;> exact fun filled => by cases isEmpty.symm.trans filled

/-! ## Later stores -/

variable {bp} {store later : Store} {path : Way} {block : Nat} {name : String} {target : PinTarget}
  {place : Place} {b : Behavior}

lemma BlockFine.mono (fine : bp.BlockFine store path block)
    (more : store.Extends later) : bp.BlockFine later path block := by
  intro asm found
  have fine := fine asm found
  split at fine
  · obtain ⟨behaviors, answers⟩ := fine
    exact ⟨behaviors, answers.mono more⟩
  · exact fine
  · exact fine

lemma FollowFine.mono (fine : bp.FollowFine store path input name) (more : store.Extends later)
    (inputs : ∀ i, input i → input' i) : bp.FollowFine later path input' name := by
  intro filled
  have fine := fine filled
  split at fine
  · exact fine
  · obtain ⟨layer, v, found, answers⟩ := fine
    exact ⟨layer, v, found, answers.mono more⟩
  · exact fine.mono more
  · exact inputs _ fine

lemma InputFine.imp (fine : bp.InputFine path block i around)
    (weaker : ∀ link, around link → around' link) :
    bp.InputFine path block i around' := by
  rw [InputFine] at fine ⊢
  split at fine
  next isRest =>
    rw [if_pos isRest]
    exact fun link mem => weaker link (fine link mem)
  next isRest =>
    rw [if_neg isRest]
    exact fun link found => weaker link (fine link found)

lemma LinkFine.mono (fine : bp.LinkFine store path name)
    (more : store.Extends later) : bp.LinkFine later path name := by
  induction path generalizing name with
  | root => exact FollowFine.mono fine more fun _ holds => holds
  | inner path block ih =>
    exact FollowFine.mono fine more fun i holds => InputFine.imp holds fun link => ih

lemma TargetFine.mono (fine : bp.TargetFine store path target)
    (more : store.Extends later) : bp.TargetFine later path target := by
  cases target with
  | link name => exact LinkFine.mono fine more
  | outer name => exact LinkFine.mono fine more
  | nested block pin =>
    obtain ⟨layer, found, fine⟩ := fine
    exact ⟨layer, found, fun name isName => (fine name isName).mono more⟩
  | role => exact fine

lemma Hopeless.mono (hopeless : bp.Hopeless store path target)
    (more : store.Extends later) : bp.Hopeless later path target :=
  fun last more' => hopeless last (more.trans more')

lemma Suits.mono (suits : bp.Suits store place b)
    (more : store.Extends later) : bp.Suits later place b := by
  obtain ⟨path, role⟩ := place
  cases role with
  | argument i =>
    obtain ⟨layer, v, found, answers, eq⟩ := suits
    exact ⟨layer, v, found, answers.mono more, eq⟩
  | part block i =>
    obtain ⟨asm, recipe, behaviors, found, method, answers, eq⟩ := suits
    exact ⟨asm, recipe, behaviors, found, method, answers.mono more, eq⟩
  | param | output | rest | nested | spread => exact suits

/-- What suits a place computes the same, whatever the stores were. -/
lemma Suits.alike (suits : bp.Suits store place b) (suits' : bp.Suits store' place b')
    (more : store.Extends later) (more' : store'.Extends later) : b.Alike b' := by
  obtain ⟨path, role⟩ := place
  cases role with
  | argument i =>
    obtain ⟨layer, v, found, answers, rfl⟩ := suits
    obtain ⟨layer', v', found', answers', rfl⟩ := suits'
    obtain rfl := Option.some.inj (found.symm.trans found')
    obtain ⟨made, t, ran, alike⟩ := answers later more
    obtain ⟨made', t', ran', alike'⟩ := answers' later more'
    cases ran.symm.trans ran'
    exact .const (alike.trans alike'.symm)
  | part block i =>
    obtain ⟨asm, recipe, behaviors, found, method, answers, eq⟩ := suits
    obtain ⟨asm', recipe', behaviors', found', method', answers', eq'⟩ := suits'
    obtain rfl := Option.some.inj (found.symm.trans found')
    cases method.symm.trans method'
    obtain ⟨made, t, ran, alike⟩ := answers later more
    obtain ⟨made', t', ran', alike'⟩ := answers' later more'
    cases ran.symm.trans ran'
    obtain ⟨between, isMade, first⟩ := forall₂_getElem? alike.flip eq
    obtain ⟨_, isMade', second⟩ := forall₂_getElem? alike'.flip eq'
    cases isMade.symm.trans isMade'
    exact Behavior.Alike.trans first (Behavior.Alike.symm second)
  | param | output | rest =>
    rw [show b = _ from suits, show b' = _ from suits']
    exact .same _
  | nested | spread =>
    rw [suits.1, suits'.1]
    exact .same _

lemma Suits.param (suits : bp.Suits store ⟨path, role⟩ (.param k)) : role = .param k := by
  cases role with
  | param i => cases (show Behavior.param k = _ from suits); rfl
  | part block i =>
    obtain ⟨asm, recipe, behaviors, -, -, answers, eq⟩ := suits
    obtain ⟨made, t, ran, alike⟩ := answers store (.refl _)
    obtain ⟨b, isMade, first⟩ := forall₂_getElem? alike.flip eq
    cases first
    exact ((recipe.made ran).2.2 _ (mem_of_getElem? isMade)).elim
  | argument =>
    obtain ⟨_, _, -, -, isConst⟩ := suits
    cases isConst
  | output | rest => cases (show Behavior.param k = _ from suits)
  | nested | spread => cases suits.1

end Blueprint

end Blockflow
