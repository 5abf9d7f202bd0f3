import Blockflow.Proofs.Compile.Emission
import Blockflow.Proofs.Compile.Visibility
import Blockflow.Proofs.Machine.Runs

/-!
# Accounts of a call

An account says what the values in the frame of a call mean: which values a node may have once the
loops around it are in given states. It lists what the steps of the machine have to respect, so that
one proof about runs serves every account that does. `Available` is the invariant of such a run:
while the code of a scope runs, every node that was reached, in the scope or around it, has a value
at its address, and the account knows the value.
-/

namespace Blockflow.Compile

open List Visit

/-- The states of the loops that are running, by their begins. -/
abbrev States := Handle → Option Value

def States.set (states : States) (first : Handle) (state : Value) : States :=
  fun id => if id = first then some state else states id

/-- All sources are connected and have the given values. -/
def Supplied (Has : Handle → Value → Prop) (sources : List (Option Handle)) (vs : List Value) :
    Prop :=
  Forall₂ (fun src v => ∃ id, src = some id ∧ Has id v) sources vs

lemma Supplied.imp {sources : List (Option Handle)} {vs : List Value}
    (supplied : Supplied Has sources vs)
    (more : ∀ {id v}, Has id v → Has' id v) : Supplied Has' sources vs :=
  Forall₂.imp (fun _ _ ⟨id, eq, has⟩ => ⟨id, eq, more has⟩) supplied

/-- The rounds of a loop from a state to its last one. -/
inductive Rounds (Has : States → Handle → Value → Prop) (states : States)
    (first next cond : Handle) :
    Value → Value → Prop where
  | stop {state v : Value} {sel : Selector}
      (condition : Has (states.set first state) cond v)
      (selects : Selector.ofValue v = .ok sel) (ends : sel.path = 0) :
      Rounds Has states first next cond state state
  | round {state v following last : Value} {sel : Selector}
      (condition : Has (states.set first state) cond v)
      (selects : Selector.ofValue v = .ok sel) (continues : sel.path ≠ 0)
      (advances : Has (states.set first state) next following)
      (rest : Rounds Has states first next cond following last) :
      Rounds Has states first next cond state last

/-- A failure by which a run reads an address of its own frame that holds nothing. The failures of
calls carry a trace, those of settling a node, and those of natives are no definition problems. -/
def OwnRead (d : Diagnostic) : Prop :=
  (∃ addr, d.problem = .unwrittenRead addr) ∧ d.kind = .definition ∧ d.locator.node = none ∧
    d.locator.trace = []

/-- What the values of the nodes of a call mean, as far as runs with fewer than `bound` steps left
go.
`Valid` holds of the sessions of the run and `Later` relates those before to those after; `Gives`,
`Picks`, `Calls` and `Packs` say which values nodes, selections, calls of circuits and packs
have. -/
structure Account (g : Graph) (root : Root) (args : List Value)
    (Named : String → Nat → Prop) (bound : Nat) where
  Valid : Session → Prop
  Later : Session → Session → Prop
  Gives : Session → States → Handle → Value → Prop
  Picks : Session → Value → Selector → Prop
  Calls : Session → String → List Value → Value → Prop
  Packs : Session → List Value → Value → Prop
  refl : ∀ session, Later session session
  trans : ∀ {a b c : Session}, Later a b → Later b c → Later a c
  gives_later : ∀ {s t : Session} {states : States} {id : Handle} {v : Value},
    Later s t → Gives s states id v → Gives t states id v
  gives_states : ∀ {s : Session} {states states' : States} {id : Handle} {v : Value},
    (∀ first state, states first = some state → states' first = some state) →
    Gives s states id v → Gives s states' id v
  picks_later : ∀ {s t : Session} {v : Value} {sel : Selector},
    Later s t → Picks s v sel → Picks t v sel
  param : ∀ {s : Session} {states : States} {id : Handle} {i : Nat} {v : Value},
    (paramPlaces root).lookup id = some i → args[i]? = some v →
    Gives s states id v
  state : ∀ {s : Session} {states : States} {id : Handle} {v : Value},
    kindOf g id = .loopBegin → states id = some v → Gives s states id v
  const : ∀ {s : Session} {states : States} {id : Handle} {v : Value},
    behaviorOf g id = some (.const v) → Gives s states id v
  op : ∀ {s : Session} {states : States} {id : Handle} {native : Native}
    {sources : List (Option Handle)} {vs : List Value}, Valid s →
    behaviorOf g id = some (.op native) → sourcesOf g id = .ok sources →
    Supplied (Gives s states) sources vs →
    (Session.onStore (native.call vs)).Ends s
      (fun v t => Valid t ∧ Later s t ∧ Gives t states id v) fun _ t => Valid t ∧ Later s t
  virtual : ∀ {s : Session} {states : States} {id : Handle} {names : List String}
    {sources : List (Option Handle)} {vs : List Value}, Valid s →
    behaviorOf g id = some (.virtual names) → sourcesOf g id = .ok sources →
    Supplied (Gives s states) sources vs →
    (Session.onStore (s.methods.dispatch names vs)).Ends s
      (fun v t => Valid t ∧ Later s t ∧ Gives t states id v) fun _ t => Valid t ∧ Later s t
  packs : ∀ {s : Session} (vs : List Value), Valid s →
    (Session.onStore (Store.pack vs)).Ends s
      (fun v t => Valid t ∧ Later s t ∧ Packs t vs v) fun _ t => Valid t ∧ Later s t
  pack : ∀ {s : Session} {states : States} {id : Handle} {sources : List (Option Handle)}
    {vs : List Value} {v : Value}, behaviorOf g id = some .pack →
    sourcesOf g id = .ok sources → Supplied (Gives s states) sources vs →
    Packs s vs v → Gives s states id v
  unpack : ∀ {s : Session} {states : States} {id src : Handle} {i : Nat}
    {sources : List (Option Handle)} {whole v : Value},
    behaviorOf g id = some (.unpack i) → sourcesOf g id = .ok sources →
    sources[0]? = some (some src) → Gives s states src whole → whole.element i = .ok v →
    Gives s states id v
  call : ∀ {s : Session} {states : States} {id : Handle} {circuit : String}
    {sources : List (Option Handle)} {vs : List Value} {v : Value},
    behaviorOf g id = some (.call circuit) → sourcesOf g id = .ok sources →
    Supplied (Gives s states) sources vs → Calls s circuit vs v → Gives s states id v
  callee : ∀ {s t : Session} {circuit : String} {slot : Nat} {prog : Program}, Valid s →
    Named circuit slot → s.compileSlot slot circuit = (.ok prog, t) →
    Valid t ∧ Later s t ∧ ∀ {fuel : Nat} {vs : List Value} {m : Machine}, fuel < bound →
      m.session = t → (Machine.invokeWith (Machine.running fuel) prog vs).Ends m
        (fun v after => Valid after.session ∧ Later t after.session ∧
          Calls after.session circuit vs v)
        fun _ after => Valid after.session ∧ Later t after.session
  uncompiled : ∀ {s t : Session} {circuit : String} {slot : Nat} {failure : CompileFailure},
    Valid s →
    Named circuit slot → s.compileSlot slot circuit = (.error failure, t) →
    Valid t ∧ Later s t ∧ ¬OwnRead failure.diagnostic
  picksMethod : ∀ {s : Session} {v : Value} {method : Native}, Valid s →
    s.methods.find? v.ty "switch" = some method →
    (Session.onStore (method.call [v])).Ends s
      (fun made t => Valid t ∧ Later s t ∧
        ∀ sel, Selector.ofValue made = .ok sel → Picks t v sel)
      fun _ t => Valid t ∧ Later s t
  picksValue : ∀ {s : Session} {v : Value} {sel : Selector}, Valid s →
    s.methods.find? v.ty "switch" = none → Selector.ofValue v = .ok sel →
    Picks s v sel
  branch : ∀ {s : Session} {states : States} {id first src : Handle} {selected v : Value}
    {sel : Selector} {sources : List (Option Handle)},
    behaviorOf g id = some .switch → sourcesOf g id = .ok sources →
    sources[0]? = some (some first) → Gives s states first selected → Picks s selected sel →
    sources[sel.path + 1]? = some (some src) → Gives s states src v →
    Gives s states id v
  openBranch : ∀ {s : Session} {states : States} {id first : Handle} {selected : Value}
    {sel : Selector} {sources : List (Option Handle)},
    behaviorOf g id = some .switch → sourcesOf g id = .ok sources →
    sources[0]? = some (some first) → Gives s states first selected → Picks s selected sel →
    sources[sel.path + 1]? = some none → Gives s states id sel.payload
  loop : ∀ {s : Session} {states : States} {id first init next cond : Handle}
    {sources firstSources : List (Option Handle)} {start last : Value},
    behaviorOf g id = some .loopEnd → sourcesOf g id = .ok sources →
    sources[0]? = some (some first) → sources[1]? = some (some next) →
    sources[2]? = some (some cond) → kindOf g first = .loopBegin →
    sourcesOf g first = .ok firstSources → firstSources[0]? = some (some init) →
    Gives s states init start → Rounds (Gives s) states first next cond start last →
    Gives s states id last

variable {g : Graph} {root : Root} {args : List Value} {Named : String → Nat → Prop} {bound : Nat}
  {acc : Account g root args Named bound} {plan : Plan} {loops : List (Handle × Handle)}

/-- A node has a value at its address that the account knows. -/
def Account.Holds (acc : Account g root args Named bound) (plan : Plan) (m : Machine)
    (states : States) (id : Handle) : Prop :=
  ∃ addr v, plan.addresses.find? id = some addr ∧ m.frame.get? addr = some v ∧
    acc.Gives m.session states id v

/-- The state of a run in the code of a scope, of whose visits `all` those in `done` were
reached. -/
structure Available (acc : Account g root args Named bound) (plan : Plan) (m : Machine)
    (scope : Nat) (all done : List Visit) (states : States) : Prop where
  valid : acc.Valid m.session
  params : ∀ {id : Handle} {i : Nat}, (paramPlaces root).lookup id = some i →
    ∃ v, args[i]? = some v ∧ m.frame.get? i = some v
  nodes : ∀ {id : Handle} {own : Nat}, id ∈ all.map node →
    plan.placement.scopes.lookup id = some own →
    plan.placement.tree.Encloses own scope →
    (own = scope → id ∈ done.map node ∨ kindOf g id = .loopBegin) →
    acc.Holds plan m states id
  running : ∀ {id : Handle} {state : Value}, states id = some state →
    ∃ own, plan.placement.scopes.lookup id = some own ∧
      plan.placement.tree.Encloses own scope

lemma Planned.address_lt_limit (planned : Planned g root plan loops) {id : Handle}
    (placed : plan.placement.scopes.lookup id = some own)
    (around : plan.placement.tree.Encloses own scope)
    (found : plan.addresses.find? id = some addr) :
    addr < plan.placement.tree.limit scope := by
  have below := (planned.address_bounds placed found).2
  by_cases eq : own = scope
  · exact eq ▸ below
  · have above := planned.laid.limit_le_base around eq
    have grows := plan.placement.tree.base_le_limit scope
    omega

namespace Available

variable {m after : Machine} {scope : Nat} {all done : List Visit} {states : States}

variable (available : Available acc plan m scope all done states)
include available

lemma read (planned : Planned g root plan loops) (reached : done.map node ⊆ all.map node)
    {id : Handle} (provided : Provided root plan done id scope) : acc.Holds plan m states id := by
  rcases provided with isParam | ⟨found, own, placed, around⟩
  · obtain ⟨i, place⟩ := Option.isSome_iff_exists.mp isParam
    obtain ⟨v, argument, held⟩ := available.params place
    exact ⟨i, v, planned.address_param place, held, acc.param place argument⟩
  · exact available.nodes (reached found) placed around fun _ => .inl found

lemma gather (planned : Planned g root plan loops) (reached : done.map node ⊆ all.map node)
    (inputs : Inputs plan.addresses visit ins)
    (provided : ∀ id, some id ∈ visit.sources → Provided root plan done id scope) :
    ∃ vs, Forall₂ (fun addr v => m.frame.get? addr = some v) ins vs ∧
      Supplied (acc.Gives m.session states) visit.sources vs := by
  rw [Inputs] at inputs
  generalize visit.sources = sources at inputs provided
  induction inputs with
  | nil => exact ⟨[], .nil, .nil⟩
  | cons found _ ih =>
    obtain ⟨id, rfl, addr⟩ := found
    obtain ⟨addr', v, found, held, gives⟩ :=
      available.read planned reached (provided id mem_cons_self)
    cases addr.symm.trans found
    obtain ⟨vs, pointwise, supplied⟩ := ih fun other mem =>
      provided other (mem_cons_of_mem _ mem)
    exact ⟨v :: vs, .cons held pointwise, .cons ⟨id, rfl, gives⟩ supplied⟩

lemma move (planned : Planned g root plan loops)
    (inside : scope < plan.placement.tree.size) (valid : acc.Valid after.session)
    (later : acc.Later m.session after.session)
    (same : ∀ addr, addr < plan.placement.tree.limit scope →
      after.frame.get? addr = m.frame.get? addr) :
    Available acc plan after scope all done states where
  valid := valid
  params := by
    intro id i place
    obtain ⟨v, argument, held⟩ := available.params place
    have below := planned.param_lt_base place inside
    have grows := plan.placement.tree.base_le_limit scope
    exact ⟨v, argument, (same i (by omega)).trans held⟩
  nodes := by
    intro id own mem placed around reached
    obtain ⟨addr, v, found, held, gives⟩ := available.nodes mem placed around reached
    have below := planned.address_lt_limit placed around found
    exact ⟨addr, v, found, (same addr below).trans held, acc.gives_later later gives⟩
  running := available.running

lemma skip {visit : Visit}
    (silent : plan.placement.scopes.lookup visit.node = some scope →
      kindOf g visit.node = .loopBegin) :
    Available acc plan m scope all (done ++ [visit]) states where
  valid := available.valid
  params := available.params
  nodes := by
    intro id own mem placed around reached
    refine available.nodes mem placed around fun eq => ?_
    subst eq
    rcases reached rfl with found | isBegin
    · rw [map_append, mem_append, map_singleton, mem_singleton] at found
      rcases found with found | rfl
      · exact .inl found
      · exact .inr (silent placed)
    · exact .inr isBegin
  running := available.running

/-- The code of a scope inside starts with what was reached around it. -/
lemma enter {inner : Nat} (planned : Planned g root plan loops)
    (reached : done.map node ⊆ all.map node) (lies : plan.placement.tree.LiesIn inner scope)
    (valid : acc.Valid after.session) (later : acc.Later m.session after.session)
    (same : ∀ addr, addr < plan.placement.tree.limit scope → after.frame.get? addr =
      m.frame.get? addr)
    (more : ∀ id state, states id = some state → states' id = some state)
    (running : ∀ id state, states' id = some state → states id = some state ∨
      plan.placement.scopes.lookup id = some inner)
    (begins : ∀ id, plan.placement.scopes.lookup id = some inner →
      kindOf g id = .loopBegin → acc.Holds plan after states' id) :
    Available acc plan after inner done [] states' := by
  have wf := planned.placed.sound.tree
  have inside := Nat.lt_trans (wf.liesIn lies).1 lies.lt_size
  have moved := available.move planned inside valid later same
  refine ⟨valid, moved.params, ?_, ?_⟩
  · intro id own mem placed around found
    by_cases here : own = inner
    · subst here
      rcases found rfl with absent | isBegin
      · simp at absent
      · exact begins id placed isBegin
    · obtain ⟨addr, v, found, held, gives⟩ := moved.nodes (reached mem) placed
        (around.of_ne here lies) fun _ => .inl mem
      exact ⟨addr, v, found, held, acc.gives_states more gives⟩
  · intro id state found
    rcases running id state found with found | placed
    · obtain ⟨own, placed, around⟩ := available.running found
      exact ⟨own, placed, around.trans (.of_liesIn lies)⟩
    · exact ⟨inner, placed, .refl _ _⟩

end Available

/-- What the instruction of a visit did: the address of the visit holds a value of the node, and no
other address of the scope or below it has changed. -/
structure Wrote (acc : Account g root args Named bound) (plan : Plan) (scope : Nat)
    (states : States) (visit : Visit) (m after : Machine) : Prop where
  valid : acc.Valid after.session
  later : acc.Later m.session after.session
  holds : acc.Holds plan after states visit.node
  same : ∀ addr, addr < plan.placement.tree.limit scope →
    plan.addresses.find? visit.node ≠ some addr → after.frame.get? addr = m.frame.get? addr

lemma Available.write {m after : Machine} {scope : Nat} {all done : List Visit} {states : States}
    {visit : Visit}
    (available : Available acc plan m scope all done states) (planned : Planned g root plan loops)
    (placed : plan.placement.scopes.lookup visit.node = some scope)
    (wrote : Wrote acc plan scope states visit m after) :
    Available acc plan after scope all (done ++ [visit]) states where
  valid := wrote.valid
  params := by
    intro id i place
    obtain ⟨v, argument, held⟩ := available.params place
    have below := planned.param_lt_base place (planned.placed.sound.inside placed)
    have grows := plan.placement.tree.base_le_limit scope
    refine ⟨v, argument, (wrote.same i (by omega) fun found => ?_).trans held⟩
    have bounds := planned.address_bounds placed found
    omega
  nodes := by
    intro id own mem placed' around reached
    by_cases isVisit : id = visit.node
    · exact isVisit ▸ wrote.holds
    · obtain ⟨addr, v, found, held, gives⟩ := available.nodes mem placed' around fun eq => by
        have known := reached eq
        rw [map_append, mem_append, map_singleton, mem_singleton] at known
        rcases known with (known | rfl) | isBegin
        · exact .inl known
        · exact absurd rfl isVisit
        · exact .inr isBegin
      refine ⟨addr, v, found, (wrote.same addr
        (planned.address_lt_limit placed' around found) fun found' => ?_).trans held,
        acc.gives_later wrote.later gives⟩
      exact planned.address_ne placed' placed around isVisit found found' rfl
  running := available.running

end Blockflow.Compile
