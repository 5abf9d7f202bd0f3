import Blockflow.Proofs.Session.Ownership

/-!
# What settled graphs mean

The values of nodes by demand: a node has the value that its own inputs give it, and nothing else of
the graph is looked at. A switch looks at its selector and at the branch that it picks; a loop looks
at its initial state once and then goes from state to state. Natives are applied in one store, which
knows the types of all values. No address, scope or order of evaluation occurs here.
-/

namespace Blockflow

open Machine

open Compile (States StandsFor HandsOutState)

namespace Reference

/-- The selector of a value. A type may have a method that makes it. -/
def Selects (env : Environment) (store : Store) (v : Value) (sel : Selector) : Prop :=
  match env.methods.find? v.ty "switch" with
  | some method =>
    ∃ made, ((method.call [v]).run store).1 = .ok made ∧ Selector.ofValue made = .ok sel
  | none => Selector.ofValue v = .ok sel

/-- The pin is there and leads nowhere. -/
def Unconnected (g : Graph) (n : Node) (pin : Nat) : Prop :=
  pin < n.inputs.length ∧ ∀ src, n.source? pin = some src → StandsFor g src none

mutual

/-- The value of a node of a graph, for arguments of the root and states of the loops around it. -/
inductive Gives (env : Environment) (store : Store) :
    Graph → List Value → States → Handle → Value → Prop where
  | const {g args states id v} (computes : behaviorOf g id = some (.const v)) :
      Gives env store g args states id v
  | param {g args states id i v} (computes : behaviorOf g id = some (.param i))
      (given : args[i]? = some v) : Gives env store g args states id v
  | pass {g args states id src n v}
      (live : g.node? id = some n) (passes : n.isPass)
      (reads : n.source? 0 = some src) (given : Gives env store g args states src v) :
      Gives env store g args states id v
  | op {g args states id n native vs v} (live : g.node? id = some n)
      (computes : n.behavior = .op native)
      (inputs : GivesAll env store g args states n.inputs vs)
      (applied : ((native.call vs).run store).1 = .ok v) :
      Gives env store g args states id v
  | virtual {g args states id n names vs v} (live : g.node? id = some n)
      (computes : n.behavior = .virtual names)
      (inputs : GivesAll env store g args states n.inputs vs)
      (applied : ((env.methods.dispatch names vs).run store).1 = .ok v) :
      Gives env store g args states id v
  | pack {g args states id n vs}
      (live : g.node? id = some n) (computes : n.behavior = .pack)
      (inputs : GivesAll env store g args states n.inputs vs) :
      Gives env store g args states id (Store.pack vs store).1
  | unpack {g args states id src n i whole v} (live : g.node? id = some n)
      (computes : n.behavior = .unpack i) (reads : n.source? 0 = some src)
      (given : Gives env store g args states src whole)
      (element : whole.element i = .ok v) : Gives env store g args states id v
  | call {g args states id n c vs v} (live : g.node? id = some n)
      (computes : n.behavior = .call c)
      (inputs : GivesAll env store g args states n.inputs vs)
      (called : Calls env store c vs v) : Gives env store g args states id v
  | branch {g args states id selects src n selected v sel}
      (live : g.node? id = some n)
      (computes : n.behavior = .switch) (reads : n.source? 0 = some selects)
      (given : Gives env store g args states selects selected)
      (picked : Selects env store selected sel) (leads : n.source? (sel.path + 1) = some src)
      (result : Gives env store g args states src v) :
      Gives env store g args states id v
  /-- A branch that leads nowhere gives the payload of the selector. -/
  | openBranch {g args states id selects n selected sel}
      (live : g.node? id = some n)
      (computes : n.behavior = .switch) (reads : n.source? 0 = some selects)
      (given : Gives env store g args states selects selected)
      (picked : Selects env store selected sel)
      (nowhere : Unconnected g n (sel.path + 1)) :
      Gives env store g args states id sel.payload
  /-- The begin of a loop has the state that the loop is in. -/
  | state {g args states id v}
      (computes : behaviorOf g id = some .loopBegin) (running : states id = some v) :
      Gives env store g args states id v
  | loop {g args states id opens first init next cond n start initial last}
      (live : g.node? id = some n) (computes : n.behavior = .loopEnd)
      (closes : n.source? 0 = some opens) (stands : StandsFor g opens (some first))
      (live' : g.node? first = some start) (begins : start.behavior = .loopBegin)
      (readsInit : start.source? 0 = some init)
      (given : Gives env store g args states init initial)
      (readsNext : n.source? 1 = some next) (readsCond : n.source? 2 = some cond)
      (rounds : Iterates env store g args states first next cond initial last) :
      Gives env store g args states id last

/-- The values of all sources, every one of which is connected. -/
inductive GivesAll (env : Environment) (store : Store) :
    Graph → List Value → States → List (Option Handle) → List Value → Prop where
  | nil {g args states} :
      GivesAll env store g args states [] []
  | cons {g args states src sources v vs}
      (first : Gives env store g args states src v)
      (rest : GivesAll env store g args states sources vs) :
      GivesAll env store g args states (some src :: sources) (v :: vs)

/-- The rounds of a loop from a state to its last one. -/
inductive Iterates (env : Environment) (store : Store) :
    Graph → List Value → States → Handle → Handle → Handle → Value → Value → Prop where
  | stop {g args states first next cond state v sel}
      (condition : Gives env store g args (states.set first state) cond v)
      (selects : Selector.ofValue v = .ok sel) (ends : sel.path = 0) :
      Iterates env store g args states first next cond state state
  | round {g args states first next cond state v following last sel}
      (condition : Gives env store g args (states.set first state) cond v)
      (selects : Selector.ofValue v = .ok sel) (continues : sel.path ≠ 0)
      (advances : Gives env store g args (states.set first state) next following)
      (rest : Iterates env store g args states first next cond following last) :
      Iterates env store g args states first next cond state last

/-- The result of a circuit: the value of its only output, or the values of all outputs packed. -/
inductive Results (env : Environment) (store : Store) :
    Graph → List Value → List Handle → Value → Prop where
  | single {g args output v}
      (given : Gives env store g args (fun _ => none) output v) :
      Results env store g args [output] v
  | packed {g args outs vs} (several : outs.length ≠ 1)
      (given : GivesAll env store g args (fun _ => none) (outs.map some) vs) :
      Results env store g args outs (Store.pack vs store).1

/-- The result of a called circuit is that of the graph it settles to. A circuit that hands out the
state of one of its loops has no meaning by itself, so there it is what a run of its program makes
of it. -/
inductive Calls (env : Environment) (store : Store) : String → List Value → Value → Prop where
  | settled {c vs v limit before after g root}
      (isSettled : Settled env limit c before after g root)
      (known : after.Extends store) (result : Results env store g vs root.outputs v) :
      Calls env store c vs v
  | ran {c vs vs' v owners fuel g root prog m m'}
      (coherent : Session.Coherent env owners (session m))
      (made : Made env (session m).store c prog g root)
      (calls : Compile.CallsAmong (fun c slot => owners[slot]? = some c) prog.code)
      (handsOut : HandsOutState g root) (alike : Value.AllAlike vs' vs)
      (ran : (invokeWith (running fuel) prog vs').run m = (.ok v, m'))
      (known : (session m').store.Extends store) : Calls env store c vs v

end

variable {env : Environment} {store : Store} {g : Graph} {args : List Value} {states : States}

/-- A node has the value of the node that it stands for. -/
lemma Gives.through {id : Handle} (stands : StandsFor g id target) {src : Handle}
    (isSource : target = some src) {v : Value} (given : Gives env store g args states src v) :
    Gives env store g args states id v := by
  induction stands with
  | gone | «open» => cases isSource
  | itself =>
    cases isSource
    exact given
  | through live passes reads _ ih => exact .pass live passes reads (ih isSource)

end Reference

end Blockflow
