import Blockflow.Proofs.Session.FrameSafety
import Blockflow.Proofs.Session.Reference

/-!
# Programs compute what their graphs mean

A value in the frame of a call denotes a node if it is the value of the node by demand, up to
buffers, in every later store. The simulation runs with this account of values. A call is accounted
for by the program of the called circuit, which is run with fewer steps left; so the proof goes by
induction on the steps.
-/

namespace Blockflow

open Compile List Machine Native Option Reference Session Slots Store Value

/-- Both know the same loops, in states that differ at most in their buffers. -/
def StatesAlike (states states' : States) : Prop :=
  ∀ id state, states id = some state → ∃ state', states' id = some state' ∧ state.Alike state'

lemma StatesAlike.set (alike : StatesAlike states states') (first : Handle)
    (same : state.Alike state') :
    StatesAlike (states.set first state) (states'.set first state') := by
  intro id found isFound
  rw [States.set] at isFound ⊢
  split at isFound
  next here =>
    cases isFound
    exact ⟨state', if_pos here, same⟩
  next elsewhere =>
    rw [if_neg elsewhere]
    exact alike id found isFound

section

variable (env : Environment) (g : Graph) (args : List Value)

/-- The value of a node by demand, in every store from this one on and for all arguments and states
that differ at most in their buffers. -/
def Denotes (store : Store) (states : States) (id : Handle) (v : Value) : Prop :=
  ∀ later, store.Extends later → ∀ args', AllAlike args args' →
    ∀ states', StatesAlike states states' →
      ∃ v', Gives env later g args' states' id v' ∧ v.Alike v'

/-- The selector that a switch finds in a value. -/
def Picks (store : Store) (v : Value) (sel : Selector) : Prop :=
  ∀ later, store.Extends later → ∀ v', v.Alike v' →
    ∃ sel', Selects env later v' sel' ∧ sel'.path = sel.path ∧
      sel.payload.Alike sel'.payload

/-- The result of a called circuit. -/
def Answers (store : Store) (c : String) (vs : List Value) (v : Value) : Prop :=
  ∀ later, store.Extends later → ∀ vs', AllAlike vs vs' →
    ∃ v', Calls env later c vs' v' ∧ v.Alike v'

end

/-- A pack of values. -/
def Packs (store : Store) (vs : List Value) (v : Value) : Prop :=
  ∀ later, store.Extends later → ∀ vs', AllAlike vs vs' →
    v.Alike (pack vs' later).1

section

variable {env : Environment} {g : Graph} {args : List Value} {store : Store} {states : States}
  {input : Option Handle} {later : Store} {v : Value} {n : Node} {sources : List (Option Handle)}
  {args' : List Value} {states' : States} (known : store.Extends later)
  (alike : AllAlike args args') (same : StatesAlike states states')

lemma pin_isSome {id : Handle} (reads : PinReads g input (some id)) : ∃ src, input = some src := by
  cases input with
  | none => cases reads
  | some src => exact ⟨src, rfl⟩

lemma gives_source {id : Handle} (reads : PinReads g input (some id))
    (gives : Gives env later g args states id v) :
    ∃ src, input = some src ∧ Gives env later g args states src v := by
  obtain ⟨src, rfl⟩ := pin_isSome reads
  exact ⟨src, rfl, gives.through reads rfl⟩

include known alike same

lemma Denotes.pin (pins : Forall₂ (PinReads g) n.inputs sources) {pin : Nat} {id : Handle}
    (found : sources[pin]? = some (some id)) (denotes : Denotes env g args store states id v) :
    ∃ src v', n.source? pin = some src ∧ Gives env later g args' states' src v' ∧ v.Alike v' := by
  obtain ⟨input, here, reads⟩ := forall₂_getElem? pins found
  obtain ⟨v', gives, equal⟩ := denotes later known args' alike states' same
  obtain ⟨src, rfl, gives⟩ := gives_source reads gives
  exact ⟨src, v', by rw [Node.source?, here]; rfl, gives, equal⟩

lemma Denotes.all (pins : Forall₂ (PinReads g) inputs sources)
    (supplied : Supplied (Denotes env g args store states) sources vs) :
    ∃ vs', GivesAll env later g args' states' inputs vs' ∧ AllAlike vs vs' := by
  induction pins generalizing vs with
  | nil =>
    cases supplied
    exact ⟨[], .nil, rfl⟩
  | cons reads _ ih =>
    cases supplied with
    | cons first rest =>
      obtain ⟨id, rfl, denotes⟩ := first
      obtain ⟨v', gives, equal⟩ := denotes later known args' alike states' same
      obtain ⟨src, rfl, gives⟩ := gives_source reads gives
      obtain ⟨vs', others, equals⟩ := ih rest
      exact ⟨v' :: vs', .cons gives others, .cons equal equals⟩

/-- The rounds of a loop, from a state that may differ in its buffers. -/
lemma iterates_of_rounds {first next cond nextInput condInput : Handle} {start last : Value}
    (rounds : Rounds (Denotes env g args store) states first next cond start last)
    (readsNext : PinReads g (some nextInput) (some next))
    (readsCond : PinReads g (some condInput) (some cond))
    {start' : Value} (equal : start.Alike start') :
    ∃ last', Iterates env later g args' states' first nextInput condInput start' last' ∧
    last.Alike last' := by
  induction rounds generalizing start' with
  | stop condition selects ends =>
    obtain ⟨v', gives, alike'⟩ := condition later known args' alike _ (same.set first equal)
    obtain ⟨sel', selects', path, -⟩ := Selector.ofValue_alike alike' selects
    exact ⟨start', .stop (gives.through readsCond rfl) selects' (path.trans ends), equal⟩
  | round condition selects continues advances _ ih =>
    obtain ⟨v', gives, alike'⟩ := condition later known args' alike _ (same.set first equal)
    obtain ⟨sel', selects', path, -⟩ := Selector.ofValue_alike alike' selects
    obtain ⟨following', gives', equal'⟩ := advances later known args' alike _ (same.set first equal)
    obtain ⟨last', rest, equal''⟩ := ih equal'
    exact ⟨last', .round (gives.through readsCond rfl) selects' (path ▸ continues)
      (gives'.through readsNext rfl) rest, equal''⟩

omit known alike same in
/-- A computation on the store whose outcome does not depend on the store. -/
lemma onStore_ends_agree (coherent : s.Coherent env owners) (agree : Agree Alike action action)
    (post : ∀ v after, after.Coherent env owners → s.store.Extends after.store →
      (action.run s.store) = (.ok v, after.store) → Post v after) :
    (Session.onStore action).Ends s Post fun _ after => after.Coherent env owners ∧
    s.store.Extends after.store := by
  have extended := agree.grows.extends' s.store
  refine .intro (fun v after ran => ?_) fun d after ran => ?_
  · obtain ⟨isOk, rfl⟩ := Prod.mk.inj ran
    exact post v _ (coherent.store extended) extended (Prod.ext isOk rfl)
  · obtain ⟨-, rfl⟩ := Prod.mk.inj ran
    exact ⟨coherent.store extended, extended⟩

end

/-- A session with the slots that a program was compiled for, and what was compiled and asked for
since. -/
def Since (env : Environment) (owners : List String) (s : Session) : Prop :=
  ∃ owners', owners <+: owners' ∧ s.Coherent env owners'

/-- What is known of a called circuit that is run with `fuel` steps left: its program answers as the
circuit does. -/
def CallsRun (env : Environment) (fuel : Nat) : Prop :=
  ∀ {owners : List String} {m : Machine} {name : String} {prog : Program} {g : Graph} {root : Root},
    m.session.Coherent env owners → Made env m.session.store name prog g root →
    CallsAmong (Owns owners) prog.code → ∀ vs, (invokeWith (running fuel) prog vs).Ends m
      (fun v after => Since env owners after.session ∧ m.session.store.Extends after.session.store ∧
        Answers env after.session.store name vs v)
      fun _ after => Since env owners after.session ∧ m.session.store.Extends after.session.store

section

variable {env : Environment} {g : Graph} {root : Root} {owners : List String} {s : Session}
  {action : Action Value}

lemma Since.mono (more : owners <+: owners') (since : Since env owners' s) :
    Since env owners s := by
  obtain ⟨owners'', more', coherent⟩ := since
  exact ⟨owners'', more.trans more', coherent⟩

lemma Since.methods (since : Since env owners s) : s.methods = env.methods := by
  obtain ⟨_, _, coherent⟩ := since
  exact congrArg Environment.methods coherent.environment

lemma Since.onStore (since : Since env owners s)
    (agree : Agree Alike action action) {Post : Value → Session → Prop}
    (post : ∀ v after, action.run s.store = (.ok v, after.store) → Post v after) :
    (Session.onStore action).Ends s (fun v after => Since env owners after ∧
      s.store.Extends after.store ∧ Post v after)
      fun _ after => Since env owners after ∧ s.store.Extends after.store := by
  obtain ⟨owners', more, coherent⟩ := since
  exact (onStore_ends_agree coherent agree fun v after kept extended ran =>
    (⟨⟨owners', more, kept⟩, extended, post v after ran⟩ :
      Since env owners after ∧ s.store.Extends after.store ∧ Post v after)).imp
    (fun _ _ ends => ends) fun _ _ failed => ⟨⟨owners', more, failed.1⟩, failed.2⟩

lemma agree_later (agree : Agree Alike action action')
    {store after later : Store} {v : Value} (ran : action.run store = (.ok v, after))
    (known : after.Extends later) : ∃ v', (action'.run later).1 = .ok v' ∧ v.Alike v' := by
  have same := agree.agree store later (by rw [ran]; exact known)
  rw [ran] at same
  rcases outcome : (action'.run later).1 with d | v' <;> rw [outcome] at same <;> cases same
  next alike => exact ⟨v', rfl, alike⟩

lemma node_computes {id : Handle} {sources : List (Option Handle)}
    (computes : behaviorOf g id = some b) (found : sourcesOf g id = .ok sources) :
    ∃ n, g.node? id = some n ∧ n.behavior = b ∧ Forall₂ (PinReads g) n.inputs sources := by
  obtain ⟨n, live, pins⟩ := sourcesOf_reads found
  rw [behaviorOf, live] at computes
  exact ⟨n, live, some.inj computes, pins⟩

/-- The account of values by what they denote. -/
def denoting (conforms : env.library.Conforms (.inner Pure)) (arePure : env.methods.Pure)
    (params : ∀ {id i}, root.params[i]? = some id → behaviorOf g id = some (.param i))
    (natives : ∀ {id native}, behaviorOf g id = some (.op native) → native.Pure)
    (args : List Value) (owners : List String) {bound : Nat}
    (runs : ∀ fuel < bound, CallsRun env fuel) :
    Account g root args (Owns owners) bound where
  Valid := Since env owners
  Later s t := s.store.Extends t.store
  Gives s := Denotes env g args s.store
  Picks s := Picks env s.store
  Calls s := Answers env s.store
  Packs s := Packs s.store
  refl _ := .refl _
  trans := .trans
  gives_later more denotes later known := denotes later (more.trans known)
  gives_states more denotes later known args' alike states' same :=
    denotes later known args' alike states' fun id state found =>
      same id state (more id state found)
  picks_later more picks later known := picks later (more.trans known)
  param place argument later known args' alike states' same := by
    obtain ⟨v', found, equal⟩ := alike.get argument
    have mem := lookup_mem place
    rw [paramPlaces, mem_reverse, mem_zipIdx_iff_getElem?] at mem
    exact ⟨v', .param (params mem) found, equal⟩
  state {s states id v} kind running later known args' alike states' same := by
    obtain ⟨v', running', equal⟩ := same id v running
    refine ⟨v', .state ?_ running', equal⟩
    rw [kindOf] at kind
    split at kind
    next n live =>
      rw [behaviorOf, live, map_some]
      rw [Node.kind] at kind
      cases computes : n.behavior <;> rw [computes] at kind <;> cases kind
    next => cases kind
  const computes later known args' alike states' same := ⟨_, .const computes, rfl⟩
  op {s states id native sources vs} since computes found supplied := by
    obtain ⟨n, live, isOp, pins⟩ := node_computes computes found
    refine since.onStore ((natives computes).call rfl) fun v after ran later known args' alike
      states' same => ?_
    have extended := ((natives computes).call (rfl : AllAlike vs vs)).grows.extends' s.store
    rw [ran] at extended
    obtain ⟨vs', gives, equal⟩ := Denotes.all (extended.trans known) alike same pins supplied
    obtain ⟨v', applied, alike'⟩ := agree_later ((natives computes).call equal) ran known
    exact ⟨v', .op live isOp gives applied, alike'⟩
  virtual {s states id names sources vs} since computes found supplied := by
    obtain ⟨n, live, isVirtual, pins⟩ := node_computes computes found
    rw [since.methods]
    refine since.onStore (arePure.dispatch names rfl) fun v after ran later known args' alike
      states' same => ?_
    have extended := (arePure.dispatch names (rfl : AllAlike vs vs)).grows.extends' s.store
    rw [ran] at extended
    obtain ⟨vs', gives, equal⟩ := Denotes.all (extended.trans known) alike same pins supplied
    obtain ⟨v', applied, alike'⟩ := agree_later (arePure.dispatch names equal) ran known
    exact ⟨v', .virtual live isVirtual gives applied, alike'⟩
  packs {s} vs since := by
    refine since.onStore (pack_agree rfl) fun v after ran later known vs' alike => ?_
    obtain ⟨v', packed, equal⟩ := agree_later (pack_agree alike) ran known
    cases packed
    exact equal
  pack {s states id sources vs v} computes found supplied packs later known args' alike
      states' same := by
    obtain ⟨n, live, computes, pins⟩ := node_computes computes found
    obtain ⟨vs', gives, equal⟩ := Denotes.all known alike same pins supplied
    exact ⟨_, .pack live computes gives, packs later known vs' equal⟩
  unpack {s states id src i sources whole v} computes found first denotes element later known
      args' alike states' same := by
    obtain ⟨n, live, computes, pins⟩ := node_computes computes found
    obtain ⟨input, whole', reads, gives, equal⟩ := denotes.pin known alike same pins first
    obtain ⟨v', element', equal'⟩ := equal.element element
    exact ⟨v', .unpack live computes reads gives element', equal'⟩
  call {s states id c sources vs v} computes found supplied answers later known args'
      alike states' same := by
    obtain ⟨n, live, computes, pins⟩ := node_computes computes found
    obtain ⟨vs', gives, equal⟩ := Denotes.all known alike same pins supplied
    obtain ⟨v', calls, equal'⟩ := answers later known vs' equal
    exact ⟨v', .call live computes gives calls, equal'⟩
  callee {s t c slot prog} since named compiled := by
    obtain ⟨owners', more, coherent⟩ := since
    obtain ⟨owners'', more', kept, extended, made⟩ := coherent.compileSlot conforms arePure
      (owner_mono more named)
    rw [compiled] at kept extended made
    obtain ⟨⟨g', root', isMade⟩, calls⟩ := made prog rfl
    refine ⟨⟨owners'', more.trans more', kept⟩, extended, fun {fuel vs m} less same => ?_⟩
    subst same
    exact (runs fuel less kept isMade calls vs).imp
      (fun _ _ => .imp_left (.mono (more.trans more')))
      fun _ _ => .imp_left (.mono (more.trans more'))
  uncompiled {s t c slot failure} since named failed := by
    obtain ⟨owners', more, coherent⟩ := since
    obtain ⟨owners'', more', kept, extended, -⟩ := coherent.compileSlot conforms arePure
      (owner_mono more named)
    rw [failed] at kept extended
    refine ⟨⟨owners'', more.trans more', kept⟩, extended, ?_⟩
    have lib : s.library = env.library := congrArg Environment.library coherent.environment
    exact compileFresh_fails (lib ▸ conforms) (compileSlot_error failed)
  picksMethod {s v method} since found := by
    rw [since.methods] at found
    have isPure := arePure.find? found
    refine since.onStore (isPure.call rfl) fun made after ran sel selected later known v' equal =>
      ?_
    obtain ⟨made', applied, alike⟩ := agree_later
      (isPure.call (show AllAlike [v] [v'] from .cons equal rfl)) ran known
    obtain ⟨sel', selected', path, payload⟩ := Selector.ofValue_alike alike selected
    refine ⟨sel', ?_, path, payload⟩
    rw [Selects, ← equal.ty_eq, found]
    exact ⟨made', applied, selected'⟩
  picksValue {s v sel} since found selected later known v' equal := by
    rw [since.methods] at found
    obtain ⟨sel', selected', path, payload⟩ := Selector.ofValue_alike equal selected
    refine ⟨sel', ?_, path, payload⟩
    rw [Selects, ← equal.ty_eq, found]
    exact selected'
  branch {s states id first src selected v sel sources} computes found isFirst denotes picks
      isSource denotes' later known args' alike states' same := by
    obtain ⟨n, live, computes, pins⟩ := node_computes computes found
    obtain ⟨selects, selected', reads, gives, equal⟩ := denotes.pin known alike same pins isFirst
    obtain ⟨sel', picked, path, -⟩ := picks later known selected' equal
    obtain ⟨input, v', leads, result, equal'⟩ := denotes'.pin known alike same pins isSource
    rw [← path] at leads
    exact ⟨v', .branch live computes reads gives picked leads result, equal'⟩
  openBranch {s states id first selected sel sources} computes found isFirst denotes picks isOpen
      later known args' alike states' same := by
    obtain ⟨n, live, computes, pins⟩ := node_computes computes found
    obtain ⟨selects, selected', reads, gives, equal⟩ := denotes.pin known alike same pins isFirst
    obtain ⟨sel', picked, path, payload⟩ := picks later known selected' equal
    obtain ⟨input, here, nowhere⟩ := forall₂_getElem? pins isOpen
    refine ⟨sel'.payload, .openBranch live computes reads gives picked
      ⟨?_, fun src leads => ?_⟩, payload⟩
    · rw [path]
      exact lt_of_getElem? here
    · rw [path, Node.source?, here] at leads
      subst leads
      exact nowhere
  loop {s states id first init next cond sources firstSources start last} computes found
    isFirst isNext isCond
      kind found' isInit denotes rounds later known args' alike states' same := by
    obtain ⟨n, live, computes, pins⟩ := node_computes computes found
    obtain ⟨begin', live', pins'⟩ := sourcesOf_reads found'
    have begins : begin'.behavior = .loopBegin := by
      rw [kindOf_eq live', Node.kind] at kind
      cases is : begin'.behavior <;> rw [is] at kind <;> cases kind
    obtain ⟨opens, here, stands⟩ := forall₂_getElem? pins isFirst
    obtain ⟨opens, rfl⟩ := pin_isSome stands
    obtain ⟨inits, start', readsInit, gives, equal⟩ := denotes.pin known alike same pins' isInit
    obtain ⟨nextInput, isNextInput, readsNext⟩ := forall₂_getElem? pins isNext
    obtain ⟨condInput, isCondInput, readsCond⟩ := forall₂_getElem? pins isCond
    obtain ⟨nextInput, rfl⟩ := pin_isSome readsNext
    obtain ⟨condInput, rfl⟩ := pin_isSome readsCond
    obtain ⟨last', iterates, equal'⟩ :=
      iterates_of_rounds known alike same rounds readsNext readsCond equal
    exact ⟨last', .loop live computes (by rw [Node.source?, here]; rfl) stands live' begins
      readsInit gives (by rw [Node.source?, isNextInput]; rfl)
        (by rw [Node.source?, isCondInput]; rfl)
      iterates, equal'⟩

variable {Named : String → Nat → Prop} {prog : Program} {plan : Plan}
  {loops : List (Handle × Handle)}

/-- What the outputs of a plan denote is the result of the root. -/
lemma results_of_denotes {store later : Store} {v : Value}
    (src : CompiledFrom g root Named prog plan loops)
    (results : (∃ output, plan.outputs = [output] ∧
        Denotes env g args store (fun _ => none) output v) ∨
      plan.outputs.length ≠ 1 ∧
      ∃ vs, Forall₂ (Denotes env g args store fun _ => none) plan.outputs vs ∧
        Packs store vs v)
      (known : store.Extends later) {args' : List Value} (alike : AllAlike args args') :
    ∃ v', Results env later g args' root.outputs v' ∧ v.Alike v' := by
  have same : StatesAlike (fun _ => none) fun _ => none := fun _ _ found => by cases found
  have resolves := src.resolves
  rcases results with ⟨output, single, denotes⟩ | ⟨several, vs, denotes, packs⟩
  · rw [single] at resolves
    obtain ⟨first, rest, resolved, others, isOutputs⟩ := forall₂_cons_right_iff.mp resolves
    rw [forall₂_nil_right_iff] at others
    obtain ⟨v', gives, equal⟩ := denotes later known args' alike _ same
    rw [isOutputs, others]
    exact ⟨v', .single (gives.through (resolve_standsFor resolved) rfl), equal⟩
  · have all : ∃ vs', GivesAll env later g args' (fun _ => none) (root.outputs.map some) vs' ∧
        AllAlike vs vs' := by
      clear packs several
      generalize plan.outputs = targets at resolves denotes
      generalize root.outputs = outs at resolves
      induction resolves generalizing vs with
      | nil =>
        cases denotes
        exact ⟨[], .nil, rfl⟩
      | cons resolved _ ih =>
        cases denotes with
        | cons first rest =>
          obtain ⟨v', gives, equal⟩ := first later known args' alike _ same
          obtain ⟨vs', others, equals⟩ := ih _ rest
          exact ⟨v' :: vs', .cons (gives.through (resolve_standsFor resolved) rfl) others,
            .cons equal equals⟩
    obtain ⟨vs', gives, equal⟩ := all
    exact ⟨_, .packed (resolves.length_eq ▸ several) gives, packs later known vs' equal⟩

variable (conforms : env.library.Conforms (.inner Pure)) (arePure : env.methods.Pure)

include conforms arePure

/-- A call of a compiled program gives what its graph means, if calls with fewer steps left do. -/
lemma Made.invokes (runs : ∀ less < fuel, CallsRun env less)
    {m : Machine} {name : String} (coherent : m.session.Coherent env owners)
    (made : Made env m.session.store name prog g root) (calls : CallsAmong (Owns owners) prog.code)
    (args : List Value) : (invokeWith (running fuel) prog args).Ends m
      (fun v after => Since env owners after.session ∧ m.session.store.Extends after.session.store ∧
        (¬HandsOutState g root → ∀ later, after.session.store.Extends later →
          ∀ args', AllAlike args args' → ∃ v',
            Results env later g args' root.outputs v' ∧ v.Alike v'))
      fun _ after =>
        Since env owners after.session ∧ m.session.store.Extends after.session.store := by
  obtain ⟨limit, before, after, settled, -⟩ := made.settled
  obtain ⟨plan, loops, src⟩ := made.compiledFrom calls
  have listed : ParamsListed g root := fun id i found =>
    mem_of_getElem? ((settled.param_iff conforms).mp found)
  let acc : Account g root args (Owns owners) fuel :=
    denoting conforms arePure (fun place => (settled.param_iff conforms).mpr place)
      (fun found => settled.native conforms found) args owners runs
  refine (src.invokes acc listed (Nat.le_refl fuel) (m := m) ⟨owners, prefix_refl _, coherent⟩).imp
    ?_ fun _ _ failed => ⟨failed.1, failed.2.1⟩
  rintro v after ⟨since, extended, results⟩
  exact ⟨since, extended, fun stateless later known args' alike =>
    results_of_denotes src (results stateless) known alike⟩

/-- The programs of called circuits answer as the circuits do, whatever the number of steps. -/
lemma callsRun (fuel : Nat) : CallsRun env fuel := by
  induction fuel using Nat.strongRecOn with
  | _ fuel ih =>
    intro owners m name prog g root coherent made calls vs
    -- a circuit that hands out a state means what its own run makes of it
    refine .intro (fun v after ran => ?_) fun d after ran => ?_
    · obtain ⟨since, extended, results⟩ :=
        (made.invokes conforms arePure ih coherent calls vs).of_ok ran
      refine ⟨since, extended, fun later known vs' alike => ?_⟩
      by_cases stateful : HandsOutState g root
      · exact ⟨v, .ran coherent made calls stateful alike ran known, rfl⟩
      · obtain ⟨limit, before, settledStore, settled, isKnown⟩ := made.settled
        obtain ⟨v', result, equal⟩ := results stateful later known vs' alike
        exact ⟨v', .settled settled ((isKnown.trans extended).trans known) result, equal⟩
    · exact (made.invokes conforms arePure ih coherent calls vs).of_error ran

end

section

variable {env : Environment} (conforms : env.library.Conforms (.inner Pure))
  (arePure : env.methods.Pure)

include conforms arePure

variable {owners : List String} {s after : Session}

lemma coherent_step (coherent : s.Coherent env owners)
    (step : Session.Step KeepsMeaning Holds s after) :
    Since env owners after ∧ s.store.Extends after.store := by
  cases step with
  | change changes =>
    obtain ⟨environment, slots, extended⟩ := changes
    refine ⟨⟨owners, prefix_refl _, ?_⟩, extended⟩
    exact coherent.of_program? (environment.trans coherent.environment) (slots ▸ coherent.owned)
      (prefix_refl _) extended fun _ => by rw [slots]
  | compile _ name =>
    obtain ⟨owners', more, kept, extended, -⟩ := coherent.compile conforms arePure name
    exact ⟨⟨owners', more, kept⟩, extended⟩
  | @invoke m prog holds args =>
    obtain ⟨slot, found⟩ := holds
    obtain ⟨name, g, root, -, made, calls⟩ := coherent.programs slot prog found
    have ends : (invoke prog args).Ends m _ _ :=
      made.invokes conforms arePure (fun less _ => callsRun conforms arePure less) (m :=
        m) coherent calls args
    rcases outcome : (invoke prog args).run m with ⟨d | v, m'⟩
    · exact ends.of_error outcome
    · exact ⟨(ends.of_ok outcome).1, (ends.of_ok outcome).2.1⟩
  | invalidate _ name =>
    refine ⟨⟨owners, prefix_refl _, ?_⟩, .refl _⟩
    refine coherent.of_program? coherent.environment
      (coherent.owned.forget (programs_invalidate _ _)
      lookup_of_invalidate) (prefix_refl _) (.refl _) fun slot => ?_
    rw [program?, program?, Session.invalidate, programs_invalidate]
  | invalidateAll =>
    refine ⟨⟨owners, prefix_refl _, ?_⟩, .refl _⟩
    exact coherent.of_program? coherent.environment (coherent.owned.forget rfl fun found => by
      cases found)
      (prefix_refl _) (.refl _) fun _ => rfl

lemma coherent_steps (coherent : s.Coherent env owners)
    (steps : Relation.ReflTransGen (Session.Step KeepsMeaning Holds) s after) :
    Since env owners after ∧ s.store.Extends after.store := by
  induction steps with
  | refl => exact ⟨⟨owners, prefix_refl _, coherent⟩, .refl _⟩
  | tail _ step ih =>
    obtain ⟨⟨owners', more, kept⟩, extended⟩ := ih
    obtain ⟨since, extended'⟩ := coherent_step conforms arePure kept step
    exact ⟨since.mono more, extended.trans extended'⟩

end

/-- Every program that a session compiles was made from a settled graph of its circuit. For every
such graph, unless one of its outputs is the state of a loop, a call of the program that succeeds,
at any later time and with any budget, gives the value that the graph has by demand for the
arguments, up to buffers. No assembler of the library may make a node for a parameter: the circuits
that are instantiated have such nodes of their own, and what another holds is left from other
computations. -/
theorem compiled_program_sound {start session after : Session} {name : String} {program : Program}
    (empty : start.slots = {}) (conforms : start.library.Conforms (.inner Native.Pure))
    (arePure : start.methods.Pure)
    (reached : Relation.ReflTransGen (Session.Step KeepsMeaning Holds) start session)
    (compiled : session.compile name = (.ok program, after)) :
    (∃ graph root, Made start.environment after.store name program graph root) ∧
      ∀ graph root, Made start.environment after.store name program graph root →
        ¬HandsOutState graph root →
        ∀ (m : Machine) (arguments : List Value) (value : Value) (m' : Machine),
          Relation.ReflTransGen (Session.Step KeepsMeaning Holds) after m.session →
          (Machine.invoke program arguments).run m = (.ok value, m') →
          ∃ expected,
          Reference.Results start.environment m'.session.store graph arguments root.outputs
            expected ∧ value.Alike expected := by
  have coherent : start.Coherent start.environment [] := .empty _ empty rfl
  obtain ⟨⟨owners, -, kept⟩, -⟩ := coherent_steps conforms arePure coherent reached
  obtain ⟨owners', -, kept', -, made⟩ := kept.compile conforms arePure name
  rw [compiled] at kept' made
  obtain ⟨isMade, calls⟩ := made program rfl
  refine ⟨isMade, fun graph root made' stateless m arguments value m' later ran => ?_⟩
  obtain ⟨⟨owners'', more, kept''⟩, extended⟩ := coherent_steps conforms arePure kept' later
  have ends : (invoke program arguments).Ends m _ _ :=
    (made'.mono extended).invokes conforms arePure (fun less _ => callsRun conforms arePure less)
      (m := m) kept''
      (calls_mono more calls) arguments
  exact (ends.of_ok ran).2.2 stateless _ (.refl _) arguments rfl

/-- Whether a compiled circuit runs on some arguments within 100 steps. -/
def runsOn (s : Session) (name : String) (args : List Value) : Bool :=
  match s.compile name with
  | (.ok prog, after) =>
    ((invoke prog args).run { session := after, budget := 100 }).1.isOk
  | _ => false

/-- The countdown from 3 in steps of 1. -/
def countdownArguments : List Value :=
  [(int 3 countdownSession.store).1, (int 1 countdownSession.store).1]

lemma countdown_pure : countdownSession.library.Conforms (.inner Pure) :=
  (Library.builtin_conforms (EditRules.inner_expanding _) (fun _ inner => inner)
    fun native mem => Operators.natives_pure native mem).insertAll [countdown]

lemma make_pure (lib : Library) : (make lib).methods.Pure :=
  Operators.install_pure (show Methods.Pure {} from fun _ mem => by cases mem) {}

theorem countdown_sound : ∃ program after graph root value m' expected,
    countdownSession.compile "countdown" = (.ok program, after) ∧
      Made countdownSession.environment after.store "countdown" program graph root ∧
      ¬HandsOutState graph root ∧
      (Machine.invoke program countdownArguments).run { session := after, budget :=
        100 } = (.ok value, m') ∧
      Reference.Results countdownSession.environment m'.session.store graph
        countdownArguments root.outputs
        expected ∧ value.Alike expected := by
  have ranOk : runsOn countdownSession "countdown" countdownArguments = true := by decide +kernel
  have computes : outputsCompute (countdownSession.slotOf "countdown").2 "countdown" = true := by
    decide +kernel
  have unfilled : (countdownSession.slotOf "countdown").2.slots.programs = #[none] := rfl
  rcases compiled : countdownSession.compile "countdown" with ⟨failure | program, after⟩ <;>
    rw [runsOn, compiled] at ranOk
  · cases ranOk
  · obtain ⟨-, sound⟩ := compiled_program_sound rfl countdown_pure (make_pure _) .refl compiled
    rcases Session.compile_ok compiled with ⟨found, -⟩ | ⟨made, fresh, same⟩
    · rw [program?, unfilled] at found
      cases found
    · obtain ⟨store, graph, root, graph', slots, settled, compiled', left⟩ :=
        Session.compileFresh_ok fresh
      have isMade : Made countdownSession.environment after.store "countdown" program
          graph root := by
        refine ⟨⟨_, _, _, settled, ?_⟩, _, congrArg Prod.fst compiled'⟩
        rw [same, left]
        exact .refl _
      have stateless := stateless_of_outputsCompute computes settled
      rcases ran : (invoke program countdownArguments).run { session := after, budget := 100 } with
        ⟨d | value, m'⟩
      · simp [ran, Except.isOk, Except.toBool] at ranOk
      · obtain ⟨expected, results, alike⟩ :=
          sound graph root isMade stateless _ _ value m' .refl ran
        exact ⟨program, after, graph, root, value, m', expected, rfl, isMade, stateless, ran,
          results, alike⟩

/-- After a loop with the state 2, a switch hands out a node for the parameter that a block made. -/
def recalling : Circuit where
  name := "recalling"
  inputs := ["x"]
  outputs := ["y"]
  blocks := [
    { blockType := "int", arguments := ["2"], outputs := ["two"] },
    { blockType := "begin", inputs := ["two"], outputs := ["state"] },
    { blockType := "int", arguments := ["0"], outputs := ["zero"] },
    { blockType := "end", inputs := ["state", "state", "zero"], outputs := ["last"] },
    { blockType := "sub", inputs := ["last", "two"], outputs := ["path"] },
    { blockType := "first", outputs := ["parameter"] },
    { blockType := "switch", inputs := ["path", "parameter"], outputs := ["y"] }]

def recallingSession : Session :=
  .make ((Library.builtin.register "first" firstParameter).insert recalling)

/-- The integer that a compiled circuit gives for an integer. -/
def integerFor (s : Session) (name : String) (i : Int) : Option Int :=
  match s.compile name with
  | (.ok prog, after) =>
    (((invoke prog [(int i after.store).1]).run (.start after)).1.toOption).bind int?
  | _ => none

/-- The address of a parameter that a block made holds the state of a loop that ran before. -/
theorem stray_parameter_recalls_state : outputsCompute recallingSession "recalling" = true ∧
    integerFor recallingSession "recalling" 5 = some 2 := by
  refine ⟨?_, ?_⟩ <;> decide +kernel

/-! ## One circuit, called and expanded -/

/-- The only output is variadic. -/
def twofold : Circuit where
  name := "twofold"
  inputs := ["x"]
  outputs := ["both..."]
  blocks := [{ blockType := "pack", inputs := ["x", "x"], outputs := ["both"] }]

def throughBlock (b : Block) : Circuit where
  name := "through"
  inputs := ["x"]
  outputs := ["y"]
  blocks := [b]

/-- What a circuit with this one block gives for 5. -/
def throughFive (b : Block) : Option Value :=
  let s := Session.make (Library.builtin.insertAll [twofold, throughBlock b])
  ((Session.run "through" [(int 5 s.store).1]).run s).1.toOption

end Blockflow
