import Blockflow.Proofs.Compile.Account
import Blockflow.Proofs.Native.Failures

/-!
# Runs of compiled code

Compiled code computes what an account of the call says. The proof is by induction on the steps that
are left: an instruction finds the values of its sources, since they were reached before and lie in
its scope or around it; the code of a loop or a branch runs on addresses above those of the scope
around it, so it disturbs nothing there. A failure of such a run is never a read of an address that
holds nothing.
-/

namespace Blockflow.Compile

open Frame List Machine Visit

/-! ## Failures that are no reads -/

lemma not_ownRead_of_problem (other : ∀ addr, d.problem ≠ .unwrittenRead addr) :
    ¬OwnRead d := fun ⟨⟨addr, eq⟩, _⟩ => other addr eq

lemma not_ownRead_calledFrom (d : Diagnostic) (addr : Nat) : ¬OwnRead (d.calledFrom addr) := by
  rintro ⟨-, -, -, trace⟩
  simp [Diagnostic.calledFrom] at trace

lemma native_fails (native : Native) (vs : List Value) :
    (native.call vs).FailsWith fun d => ¬OwnRead d := by
  refine .mapFailure fun s d _ => ?_
  rintro ⟨-, kind, -⟩
  rw [Native.failure] at kind
  split at kind
  next budget =>
    rw [kind] at budget
    cases budget
  next resource =>
    rw [kind] at resource
    cases resource
  next => cases kind

lemma dispatch_fails (ms : Methods) (names : List String) (vs : List Value) :
    (ms.dispatch names vs).FailsWith fun d => ¬OwnRead d :=
  ms.dispatch_fails (fun _ other => not_ownRead_of_problem other)
    (fun _ _ method _ => native_fails method.2) names vs

lemma element_fails (v : Value) (i : Nat) : FailsWith (fun d => ¬OwnRead d) (v.element i) :=
  v.element_fails (fun _ other => not_ownRead_of_problem other) i

lemma selector_fails (v : Value) : FailsWith (fun d => ¬OwnRead d) (Selector.ofValue v) :=
  Selector.ofValue_fails (fun _ other => not_ownRead_of_problem other) v

variable {g : Graph} {root : Root} {args : List Value} {Named : String → Nat → Prop} {bound : Nat}
  {acc : Account g root args Named bound} {plan : Plan} {loops : List (Handle × Handle)}

/-- A failure that is no read of the own frame; the sessions are in order. -/
def Account.Failed (acc : Account g root args Named bound) (m : Machine) (d : Diagnostic)
    (after : Machine) : Prop :=
  ¬OwnRead d ∧ acc.Valid after.session ∧ acc.Later m.session after.session

lemma Account.Failed.of_later {m middle after : Machine} (failed : acc.Failed middle d after)
    (later : acc.Later m.session middle.session) : acc.Failed m d after :=
  ⟨failed.1, failed.2.1, acc.trans later failed.2.2⟩

/-! ## Single instructions -/

section

variable {m : Machine} {scope out : Nat} {states : States} {visit : Visit}

lemma wrote_of_set {middle : Machine} {v : Value}
    (addr : plan.addresses.find? visit.node = some out)
    (same : ∀ other, other < plan.placement.tree.limit scope → middle.frame.get? other =
      m.frame.get? other)
    (valid : acc.Valid middle.session) (later : acc.Later m.session middle.session)
    (gives : acc.Gives middle.session states visit.node v) :
    Wrote acc plan scope states visit m { middle with frame := middle.frame.set out v } where
  valid := valid
  later := later
  holds := ⟨out, v, addr, by simp [get?_set], gives⟩
  same := by
    intro other below different
    have notOut : other ≠ out := fun equal => different (equal ▸ addr)
    simp [get?_set, notOut, same other below]

lemma store_wrote (fails : action.FailsWith fun d => ¬OwnRead d)
    (addr : plan.addresses.find? visit.node = some out)
    (ends : (Session.onStore action).Ends m.session
      (fun v t => acc.Valid t ∧ acc.Later m.session t ∧ acc.Gives t states visit.node v)
      fun _ t => acc.Valid t ∧ acc.Later m.session t) :
    (onStore action >>= fun v => write out v).Ends m
      (fun _ after => Wrote acc plan scope states visit m after) (acc.Failed m) := by
  refine .bind (onStore_ends (.intro ?_ ?_))
  · intro v s ran
    obtain ⟨valid, later, gives⟩ := ends.of_ok ran
    exact wrote_of_set addr (fun _ _ => rfl) valid later gives
  · intro d s ran
    obtain ⟨valid, later⟩ := ends.of_error ran
    refine ⟨fails m.session.store d ?_, valid, later⟩
    exact congrArg Prod.fst ran

end

/-- Where a visit stands: its sources were reached before it. -/
structure Site (g : Graph) (root : Root) (plan : Plan) (loops : List (Handle × Handle))
    (done : List Visit) (visit : Visit) (scope : Nat) : Prop where
  planned : Planned g root plan loops
  split : ∃ later, plan.order = done ++ visit :: later
  placed : plan.placement.scopes.lookup visit.node = some scope

namespace Site

variable {done : List Visit} {visit : Visit} {scope : Nat}

lemma kindOf_eq {id : Handle} (found : behaviorOf g id = some b) : kindOf g id = b.kind := by
  obtain ⟨n, live, rfl⟩ := Option.map_eq_some_iff.mp found
  exact Compile.kindOf_eq live

variable (site : Site g root plan loops done visit scope)
include site

lemma sources : sourcesOf g visit.node = .ok visit.sources := by
  obtain ⟨later, split⟩ := site.split
  exact site.planned.ordered.sources visit (by simp [split])

lemma inside : scope < plan.placement.tree.size :=
  site.planned.placed.sound.inside site.placed

lemma provided (found : behaviorOf g visit.node = some b) (plain : b.kind = .instruction)
    (id : Handle) (mem : some id ∈ visit.sources) : Provided root plan done id scope := by
  obtain ⟨later, split⟩ := site.split
  obtain ⟨pin, src⟩ := getElem?_of_mem mem
  have kind := (kindOf_eq found).trans plain
  exact site.planned.plain_source split src site.placed (by simp [kind]) (by simp [kind])
    (by simp [kind])

/-- The begin of a loop lies in the loop that its end closes. -/
lemma begin_placed {inner : Nat} (isEnd : kindOf g visit.node = .loopEnd)
    (mem : begin' ∈ plan.order) (closes : visit.sources[0]? = some (some begin'.node))
    (isBody : plan.placement.loops.lookup visit.node = some inner) :
    plan.placement.scopes.lookup begin'.node = some inner := by
  obtain ⟨later, split⟩ := site.split
  obtain ⟨isBegin, closed⟩ := site.planned.ordered.loop_head (by simp [split]) isEnd closes
  obtain ⟨own, placed⟩ := (site.planned.placed.covers _).mp (mem_map_of_mem mem)
  obtain ⟨loopEnd, owner, isBody'⟩ := site.planned.placed.begins placed isBegin
  cases owner.symm.trans (lookup_of_mem site.planned.ordered.distinct closed)
  cases isBody.symm.trans isBody'
  exact placed

end Site

lemma Inputs.source {ins : List Nat} {pin input : Nat} (inputs : Inputs a visit ins)
    (at' : ins[pin]? = some input) :
    ∃ id, visit.sources[pin]? = some (some id) ∧ a.find? id = some input := by
  obtain ⟨_, src, id, rfl, found⟩ := forall₂_getElem? inputs at'
  exact ⟨id, src, found⟩

section

variable {m : Machine} {scope fuel : Nat} {all done : List Visit} {states : States} {visit : Visit}

variable (site : Site g root plan loops done visit scope)
  (available : Available acc plan m scope all done states) (reached : done.map node ⊆ all.map node)
include site available reached

lemma computes {Post : Unit → Machine → Prop} {Fail : Diagnostic → Machine → Prop}
    {next : List Value → Exec Unit}
    (found : behaviorOf g visit.node = some b) (plain : b.kind = .instruction)
    (inputs : Inputs plan.addresses visit ins)
    (rest : ∀ vs, Supplied (acc.Gives m.session states) visit.sources vs →
      (next vs).Ends m Post Fail) : (gather ins >>= next).Ends m Post Fail := by
  obtain ⟨vs, pointwise, supplied⟩ :=
    available.gather site.planned reached inputs (site.provided found plain)
  exact .bind (gather_ends pointwise (rest vs supplied))

/-- One call of a native, an operator or a circuit, a constant, and packing and unpacking. -/
lemma plain_wrote (enough : fuel < bound)
    (emitted : Emitted g plan.addresses plan.order Named done visit instr)
    (straight : kindOf g visit.node = .instruction) :
    (execute (running fuel) (iterating fuel) instr).Ends m
      (fun _ after => Wrote acc plan scope states visit m after) (acc.Failed m) := by
  cases emitted with
  | const behavior addr =>
    exact wrote_of_set addr (fun _ _ => rfl) available.valid (acc.refl _) (acc.const behavior)
  | op behavior inputs addr =>
    refine computes site available reached behavior rfl inputs fun vs supplied => ?_
    exact store_wrote (native_fails _ _) addr
      (acc.op available.valid behavior site.sources supplied)
  | virtual behavior inputs addr =>
    refine computes site available reached behavior rfl inputs fun vs supplied => ?_
    exact store_wrote (dispatch_fails _ _ _) addr
      (acc.virtual available.valid behavior site.sources supplied)
  | pack behavior inputs addr =>
    refine computes site available reached behavior rfl inputs fun vs supplied => ?_
    refine store_wrote (.ofState _) addr ((acc.packs vs available.valid).post ?_)
    rintro v s ⟨valid, later, packs⟩
    exact ⟨valid, later,
      acc.pack behavior site.sources (supplied.imp (acc.gives_later later)) packs⟩
  | unpack behavior inputs first addr =>
    obtain ⟨src, atFirst, found⟩ := inputs.source first
    obtain ⟨input, whole, found', held, gives⟩ := available.read site.planned reached
      (site.provided behavior rfl src (mem_of_getElem? atFirst))
    cases found.symm.trans found'
    refine .bind (read_ends held (.bind (.ofExcept (fun v is => ?_) fun d failed => ?_)))
    · exact wrote_of_set addr (fun _ _ => rfl) available.valid (acc.refl _)
        (acc.unpack behavior site.sources atFirst gives is)
    · exact ⟨element_fails _ _ d failed, available.valid, acc.refl _⟩
  | call behavior named inputs addr =>
    refine .bind (program_ends (fun prog s compiled => ?_) fun failure s failed => ?_)
    · obtain ⟨valid, later, calls⟩ := acc.callee available.valid named compiled
      have moved : Available acc plan { m with session := s } scope all done states :=
        available.move site.planned site.inside valid later fun _ _ => rfl
      refine computes site moved reached behavior rfl inputs fun vs supplied => ?_
      refine .bind (.mapFailure (((calls enough rfl).and
        (invokeWith_frame (running fuel) prog vs { m with session := s })).imp ?_ ?_))
      · rintro v after ⟨⟨valid', later', called⟩, frame⟩
        exact wrote_of_set addr (fun _ _ => by rw [frame]) valid' (acc.trans later later')
          (acc.call behavior site.sources (supplied.imp (acc.gives_later later')) called)
      · rintro d after ⟨⟨valid', later'⟩, -⟩
        exact ⟨not_ownRead_calledFrom _ _, valid', acc.trans later later'⟩
    · obtain ⟨valid, later, noRead⟩ := acc.uncompiled available.valid named failed
      exact ⟨noRead, valid, later⟩
  | loop behavior => cases straight.symm.trans (Site.kindOf_eq behavior)
  | switch behavior => cases straight.symm.trans (Site.kindOf_eq behavior)

end

/-- What running the code of a scope does with some steps left: all nodes of the scope are reached,
and no address below the scope is touched. -/
def RunsCode (acc : Account g root args Named bound) (plan : Plan) (fuel : Nat) : Prop :=
  ∀ {scope : Nat} {done todo later : List Visit} {code : List Instruction} {m : Machine}
    {states : States}, CodeOf g plan.addresses plan.order Named scope done todo code →
    plan.order = done ++ todo ++ later → scope < plan.placement.tree.size →
    Available acc plan m scope (done ++ todo) done states →
    (running fuel code).Ends m
      (fun _ after => Available acc plan after scope (done ++ todo) (done ++ todo) states ∧
        acc.Later m.session after.session ∧
        ∀ addr, addr < (plan.placement.tree.scope scope).base →
          after.frame.get? addr = m.frame.get? addr)
      (acc.Failed m)

section

variable {m : Machine} {scope fuel : Nat} {all done : List Visit} {states : States} {visit : Visit}

/-! ## Branches -/

lemma select_ends (valid : acc.Valid m.session) (held : m.frame.get? input = some v) :
    (select input).Ends m
      (fun sel after => after.frame = m.frame ∧ acc.Valid after.session ∧
        acc.Later m.session after.session ∧ acc.Picks after.session v sel) (acc.Failed m) := by
  refine .bind (read_ends held (.bind (methods_ends ?_)))
  cases found : m.session.methods.find? v.ty "switch" with
  | some method =>
    refine .bind (onStore_ends (.intro (fun made s ran => ?_) fun d s ran => ?_))
    · obtain ⟨valid', later, picks⟩ := (acc.picksMethod valid found).of_ok ran
      exact .ofExcept (fun sel is => ⟨rfl, valid', later, picks sel is⟩)
        fun d failed => ⟨selector_fails _ d failed, valid', later⟩
    · obtain ⟨valid', later⟩ := (acc.picksMethod valid found).of_error ran
      exact ⟨native_fails _ _ m.session.store d (congrArg Prod.fst ran), valid', later⟩
  | none =>
    exact .ofExcept (fun sel is => ⟨rfl, valid, acc.refl _, acc.picksValue valid found is⟩)
      fun d failed => ⟨selector_fails _ d failed, valid, acc.refl _⟩

section

variable (ih : RunsCode acc plan fuel) (site : Site g root plan loops done visit scope)
  (available : Available acc plan m scope all done states) (reached : done.map node ⊆ all.map node)
include ih site available reached

/-- The code of a branch leaves the addresses around it alone, and then its result can be read. -/
lemma branch_runs {i : Nat} {code : List Instruction}
    (coded : ∀ inner, ((plan.placement.branches.lookup visit.node).getD [])[i]? = some inner →
      CodeOf g plan.addresses plan.order Named inner [] done code)
    (empty : ((plan.placement.branches.lookup visit.node).getD [])[i]? = none → code = []) :
    (running fuel code).Ends m (fun _ after => acc.Valid after.session ∧
      acc.Later m.session after.session ∧
        (∀ addr, addr < plan.placement.tree.limit scope → after.frame.get? addr =
          m.frame.get? addr) ∧
        ∀ id, Provided root plan done id
          ((((plan.placement.branches.lookup visit.node).getD [])[i]?).getD scope) →
          acc.Holds plan after states id)
      (acc.Failed m) := by
  obtain ⟨rest, split⟩ := site.split
  cases opened : ((plan.placement.branches.lookup visit.node).getD [])[i]? with
  | none =>
    rw [empty opened]
    exact running_nil.mpr ⟨available.valid, acc.refl _, fun _ _ => rfl,
      fun id provided => available.read site.planned reached provided⟩
  | some inner =>
    obtain ⟨kind, around, placed, lies⟩ := site.planned.placed.sound.opened_branch opened
    cases site.placed.symm.trans placed
    have entered : Available acc plan m inner done [] states := by
      refine available.enter site.planned reached lies available.valid (acc.refl _)
        (fun _ _ => rfl) (fun _ _ found => found) (fun _ _ found => .inl found)
        fun id placed isBegin => ?_
      -- A begin lies in the scope of a loop, and this is a branch.
      obtain ⟨loopEnd, -, isBody⟩ := site.planned.placed.begins placed isBegin
      obtain ⟨-, -, -, isLoop⟩ := site.planned.placed.sound.loop isBody
      cases kind.symm.trans isLoop
    refine (ih (coded inner opened) split lies.lt_size entered).post ?_
    rintro _ after ⟨finished, later, same⟩
    refine ⟨finished.valid, later, fun addr below => ?_, fun id provided =>
      finished.read site.planned (Subset.refl _) provided⟩
    rw [← site.planned.laid.inner inner scope lies] at below
    exact same addr below

lemma switch_wrote (emitted : Emitted g plan.addresses plan.order Named done visit instr)
    (isSwitch : kindOf g visit.node = .switch) :
    (execute (running fuel) (iterating fuel) instr).Ends m
      (fun _ after => Wrote acc plan scope states visit m after) (acc.Failed m) := by
  obtain ⟨rest, split⟩ := site.split
  cases emitted with
  | switch behavior first selectorAddress opened length code empty results addr =>
    subst opened
    obtain ⟨input, selected, found, held, gives⟩ := available.read site.planned reached
      (site.planned.plain_source split first site.placed (by simp [isSwitch]) (by simp [isSwitch])
        fun _ => rfl)
    cases selectorAddress.symm.trans found
    refine .bind ((select_ends available.valid held).post ?_)
    rintro sel middle ⟨frame, valid, later, picks⟩
    have moved := available.move site.planned site.inside valid later fun _ _ => by rw [frame]
    refine .bind (.ofExcept (fun branch picked => ?_) fun d failed => ?_)
    · rw [Machine.branch] at picked
      split at picked
      next found =>
        cases picked
        refine .bind
          ((branch_runs ih site moved reached (fun inner => code found) (empty found)).imp
          ?_ fun _ _ failed => failed.of_later later)
        rintro _ after ⟨valid', later', same, holds⟩
        have gives' := acc.gives_later (acc.trans later later') gives
        have picks' := acc.picks_later later' picks
        have same' : ∀ other, other < plan.placement.tree.limit scope →
            after.frame.get? other = m.frame.get? other := fun other below =>
          (same other below).trans (by rw [frame])
        have bound : sel.path + 1 < visit.sources.length := by
          have inside := lt_of_getElem? found
          omega
        have sourceAt := getElem?_eq_getElem bound
        have result := results found sourceAt
        cases src : visit.sources[sel.path + 1] with
        | none =>
          rw [src] at sourceAt result
          have unread : branchResult branch sel = pure sel.payload := by
            rw [branchResult, show branch.result = none from result]
          rw [unread]
          exact wrote_of_set addr same' valid' (acc.trans later later')
            (acc.openBranch behavior site.sources first gives' picks' sourceAt)
        | some id =>
          rw [src] at sourceAt result
          obtain ⟨place, isPlace, found'⟩ := result
          obtain ⟨place', v, found'', held', given⟩ :=
            holds id (site.planned.branch_source split sourceAt isSwitch site.placed)
          cases found'.symm.trans found''
          have reads : branchResult branch sel = read place := by
            rw [branchResult, isPlace]
          rw [reads]
          refine .bind (read_ends held' ?_)
          exact wrote_of_set addr same' valid' (acc.trans later later')
            (acc.branch behavior site.sources first gives' picks' sourceAt given)
      next => cases picked
    · rw [branch] at failed
      split at failed
      next => cases failed
      next =>
        cases failed
        exact ⟨not_ownRead_of_problem (by simp), valid, later⟩
  | _ behavior => cases isSwitch.symm.trans (Site.kindOf_eq behavior)

end

/-! ## Loops -/

/-- What the rounds of a loop use: its begin, the next state and the condition with their addresses,
and the code of its body. -/
structure LoopCode (g : Graph) (root : Root) (plan : Plan) (Named : String → Nat → Prop)
    (done : List Visit) (visit : Visit) (inner : Nat) (first next cond : Handle) (addrs : Loop)
    (body : List Instruction) : Prop where
  isBody : plan.placement.loops.lookup visit.node = some inner
  placed : plan.placement.scopes.lookup first = some inner
  isBegin : kindOf g first = .loopBegin
  state : plan.addresses.find? first = some addrs.state
  nextAddress : plan.addresses.find? next = some addrs.next
  next : Provided root plan done next inner
  condAddress : plan.addresses.find? cond = some addrs.cond
  cond : Provided root plan done cond inner
  out : plan.addresses.find? visit.node = some addrs.out
  cleared : (addrs.clearFrom, addrs.clearTo) = plan.placement.tree.extent inner
  code : CodeOf g plan.addresses plan.order Named inner [] done body

variable {inner : Nat} {first next cond : Handle} {addrs : Loop} {body : List Instruction}
  {instr : Instruction}

/-- A round starts with the state at the address of the begin and leaves the addresses around
alone. -/
lemma round_enters (steps : Nat) (state : Value) (site : Site g root plan loops done visit scope)
    (loop : LoopCode g root plan Named done visit inner first next cond addrs body)
    (available : Available acc plan m scope all done states)
    (reached : done.map node ⊆ all.map node) :
    let entered : Machine := { m with
      steps
      frame := (m.frame.clear addrs.clearFrom addrs.clearTo).set addrs.state state }
    Available acc plan entered inner done [] (states.set first state) ∧
      ∀ addr, addr < plan.placement.tree.limit scope → entered.frame.get? addr =
        m.frame.get? addr := by
  intro entered
  have sound := site.planned.placed.sound
  obtain ⟨around, placed, lies, -⟩ := sound.loop loop.isBody
  cases site.placed.symm.trans placed
  have starts := site.planned.laid.inner inner scope lies
  have above := (site.planned.address_bounds loop.placed loop.state).1
  have from' : addrs.clearFrom = (plan.placement.tree.scope inner).base :=
    congrArg Prod.fst loop.cleared
  have same : ∀ addr, addr < plan.placement.tree.limit scope →
      entered.frame.get? addr = m.frame.get? addr := by
    intro addr below
    rw [get?_set, if_neg (by omega), get?_clear, if_neg (by omega)]
  have valid : acc.Valid entered.session := available.valid
  refine ⟨available.enter site.planned reached lies valid (acc.refl _) same ?_ ?_ ?_, same⟩
  · -- The loop is not running yet: its scope would lie around the scope that it is in.
    intro id other found
    have different : id ≠ first := by
      rintro rfl
      obtain ⟨own, placed', around⟩ := available.running found
      cases loop.placed.symm.trans placed'
      have older := (sound.tree.liesIn lies).1
      have newer := around.le sound.tree
      omega
    rw [States.set, if_neg different]
    exact found
  · intro id other found
    rw [States.set] at found
    split at found
    next same => exact .inr (same ▸ loop.placed)
    next => exact .inl found
  · intro id placed' isBegin
    obtain rfl := site.planned.begin_unique placed' loop.placed isBegin loop.isBegin
    refine ⟨addrs.state, state, loop.state, ?_, acc.state isBegin (by simp [States.set])⟩
    rw [get?_set, if_pos rfl]

/-- The condition of a round, and the next state if there is another round. -/
lemma next_ends {after : Machine} (site : Site g root plan loops done visit scope)
    (loop : LoopCode g root plan Named done visit inner first next cond addrs body)
    (available : Available acc plan after inner done done states) : (nextState? addrs).Ends after
      (fun following final => final = after ∧ ∃ v sel,
        acc.Gives after.session states cond v ∧ Selector.ofValue v = .ok sel ∧
          (following = none ∧ sel.path = 0 ∨ ∃ state, following = some state ∧
            sel.path ≠ 0 ∧ acc.Gives after.session states next state))
      (acc.Failed after) := by
  obtain ⟨place, v, found, held, gives⟩ :=
    available.read site.planned (Subset.refl _) loop.cond
  cases loop.condAddress.symm.trans found
  refine .bind (read_ends held (.bind (.ofExcept (fun sel selects => ?_) fun d failed => ?_)))
  · split
    next ends => exact ⟨rfl, v, sel, gives, selects, .inl ⟨rfl, ends⟩⟩
    next continues =>
      obtain ⟨place, state, found, held, gives'⟩ :=
        available.read site.planned (Subset.refl _) loop.next
      cases loop.nextAddress.symm.trans found
      refine .bind (read_ends held ?_)
      exact ⟨rfl, v, sel, gives, selects, .inr ⟨state, rfl, continues, gives'⟩⟩
  · exact ⟨selector_fails _ d failed, available.valid, acc.refl _⟩

/-- What the rounds of a loop do with some steps left: they go from a state to the last one, which
is written at the address of the end. -/
def RunsRounds (acc : Account g root args Named bound) (plan : Plan)
    (loops : List (Handle × Handle)) (fuel : Nat) : Prop :=
  ∀ {scope inner : Nat} {all done : List Visit} {visit : Visit} {first next cond : Handle}
    {addrs : Loop} {body : List Instruction} {m : Machine} {states : States} {state : Value},
    Site g root plan loops done visit scope →
    LoopCode g root plan Named done visit inner first next cond addrs body →
    Available acc plan m scope all done states → done.map node ⊆ all.map node →
    (iterating fuel addrs body state).Ends m
      (fun _ after => acc.Valid after.session ∧ acc.Later m.session after.session ∧
        (∃ last, after.frame.get? addrs.out = some last ∧
          Rounds (acc.Gives after.session) states first next cond state last) ∧
        ∀ addr, addr < plan.placement.tree.limit scope →
          plan.addresses.find? visit.node ≠ some addr →
          after.frame.get? addr = m.frame.get? addr)
      (acc.Failed m)

lemma rounds_succ (ih : RunsCode acc plan fuel) (iterate : RunsRounds acc plan loops fuel) :
    RunsRounds acc plan loops (fuel + 1) := by
  intro scope inner all done visit first next cond addrs body m states state site loop
    available reached
  obtain ⟨rest, split⟩ := site.split
  obtain ⟨around, placed, lies, -⟩ := site.planned.placed.sound.loop loop.isBody
  cases site.placed.symm.trans placed
  obtain ⟨entered, same⟩ := round_enters (m.steps + 1) state site loop available reached
  refine iterating_succ (.bind (.bind (step_ends (.bind (clear_ends (write_ends ?_))) ?_)))
  · refine .bind ((ih loop.code split lies.lt_size entered).post ?_)
    rintro _ middle ⟨finished, later, kept⟩
    have same' : ∀ addr, addr < plan.placement.tree.limit scope →
        middle.frame.get? addr = m.frame.get? addr := by
      intro addr below
      refine (kept addr ?_).trans (same addr below)
      rwa [site.planned.laid.inner inner scope lies]
    refine (next_ends site loop finished).imp ?_ fun _ _ failed => failed.of_later later
    rintro following final ⟨rfl, v, sel, condition, selects, outcome⟩
    rcases outcome with ⟨rfl, ends⟩ | ⟨state', rfl, continues, advances⟩
    · refine ⟨finished.valid, later, ⟨state, ?_, .stop condition selects ends⟩,
        fun addr below other => ?_⟩
      · simp [get?_set]
      · have notOut : addr ≠ addrs.out := fun equal => other (equal ▸ loop.out)
        simp [get?_set, notOut, same' addr below]
    · have moved := available.move site.planned site.inside finished.valid later same'
      refine (iterate site loop moved reached).imp ?_ fun _ _ failed => failed.of_later later
      rintro _ last ⟨valid, later', ⟨v', held, rounds⟩, kept'⟩
      refine ⟨valid, acc.trans later later', ⟨v', held, ?_⟩, fun addr below other =>
        (kept' addr below other).trans (same' addr below)⟩
      exact .round (acc.gives_later later' condition) selects continues
        (acc.gives_later later' advances) rounds
  · exact ⟨not_ownRead_of_problem (by simp), available.valid, acc.refl _⟩

lemma loop_wrote (iterate : RunsRounds acc plan loops fuel)
    (site : Site g root plan loops done visit scope)
    (available : Available acc plan m scope all done states)
    (reached : done.map node ⊆ all.map node)
    (emitted : Emitted g plan.addresses plan.order Named done visit instr)
    (isEnd : kindOf g visit.node = .loopEnd) :
    (execute (running fuel) (iterating fuel) instr).Ends m
      (fun _ after => Wrote acc plan scope states visit m after) (acc.Failed m) := by
  obtain ⟨later, split⟩ := site.split
  have ordered := site.planned.ordered
  cases emitted with
  | @loop _ _ begin' init ins inner addrs body behavior inputs mem closes starts isBody initAddress
      stateAddress nextAddress condAddress outAddress cleared code =>
    have isBegin := (ordered.loop_head (by simp [split]) isEnd closes).1
    obtain ⟨around, placedEnd, lies, -⟩ := site.planned.placed.sound.loop isBody
    cases site.placed.symm.trans placedEnd
    obtain ⟨next, nextAt, nextFound⟩ := inputs.source nextAddress
    obtain ⟨cond, condAt, condFound⟩ := inputs.source condAddress
    have placed := site.begin_placed isEnd mem closes isBody
    have loop : LoopCode g root plan Named done visit inner begin'.node next cond addrs body :=
      { isBody, placed, isBegin, state := stateAddress, nextAddress := nextFound
        next := site.planned.round_source split nextAt isEnd (by decide) isBody
        condAddress := condFound
        cond := site.planned.round_source split condAt isEnd (by decide) isBody
        out := outAddress, cleared, code }
    -- The begin was reached before its end, and its source before it.
    obtain ⟨earlier, between, split'⟩ : ∃ earlier between, done = earlier ++ begin' :: between := by
      rcases ordered.before split begin'.node (mem_of_getElem? closes) with isParam | found
      · rw [ordered.computed begin' mem] at isParam
        cases isParam
      · obtain ⟨visited, inside, same⟩ := mem_map.mp found
        obtain rfl := ordered.eq_of_node (by simp [split, inside]) mem same
        exact append_of_mem inside
    have provided : Provided root plan done init scope := by
      have whole : plan.order = earlier ++ begin' :: (between ++ visit :: later) := by
        simp [split, split']
      refine (site.planned.init_source whole starts isBegin placed lies).imp_right ?_
      rintro ⟨found, rest⟩
      rw [split', map_append]
      exact ⟨mem_append_left _ found, rest⟩
    obtain ⟨place, start, found, held, gives⟩ := available.read site.planned reached provided
    cases initAddress.symm.trans found
    refine .bind (read_ends held ((iterate site loop available reached).post ?_))
    rintro _ after ⟨valid, later', ⟨last, heldLast, rounds⟩, same⟩
    refine ⟨valid, later', ⟨addrs.out, last, outAddress, heldLast, ?_⟩, same⟩
    exact acc.loop behavior site.sources closes nextAt condAt isBegin (ordered.sources begin' mem)
      starts (acc.gives_later later' gives) rounds
  | _ behavior => cases isEnd.symm.trans (Site.kindOf_eq behavior)

lemma emitted_wrote (ih : RunsCode acc plan fuel) (iterate : RunsRounds acc plan loops fuel)
    (enough : fuel < bound) (site : Site g root plan loops done visit scope)
    (available : Available acc plan m scope all done states)
    (reached : done.map node ⊆ all.map node)
    (emitted : Emitted g plan.addresses plan.order Named done visit instr) :
    (execute (running fuel) (iterating fuel) instr).Ends m
      (fun _ after => Wrote acc plan scope states visit m after) (acc.Failed m) := by
  have emitted' := emitted
  cases emitted' with
  | loop behavior =>
    exact loop_wrote iterate site available reached emitted (Site.kindOf_eq behavior)
  | switch behavior =>
    exact switch_wrote ih site available reached emitted (Site.kindOf_eq behavior)
  | _ behavior => exact plain_wrote site available reached enough emitted (Site.kindOf_eq behavior)

end

/-! ## Whole runs -/

/-- No node that is computed is a parameter or passes a value on. -/
def Computing (g : Graph) (plan : Plan) : Prop :=
  ∀ visit ∈ plan.order, ∀ b, behaviorOf g visit.node = some b → IsSilent b →
    b.kind = .loopBegin

lemma code_runs (planned : Planned g root plan loops)
    (computing : Computing g plan) (next : fuel = 0 ∨ ∃ less, fuel = less + 1 ∧ less < bound ∧
      RunsCode acc plan less ∧ RunsRounds acc plan loops less) : RunsCode acc plan fuel := by
  intro scope done todo later code m states coded split inside available
  -- Visits that add nothing take no step, so the induction is on the visits.
  induction todo generalizing done code with
  | nil =>
    cases coded
    rw [append_nil] at available ⊢
    exact running_nil.mpr ⟨available, acc.refl _, fun _ _ => rfl⟩
  | cons visit todo ih =>
    have mem : visit ∈ plan.order := by simp [split]
    have again : done ++ visit :: todo = done ++ [visit] ++ todo := by simp
    cases coded with
    | skip silent rest =>
      have skipped : Available acc plan m scope (done ++ visit :: todo) (done ++ [visit]) states :=
          available.skip fun placed => by
        obtain ⟨b, found, isSilent⟩ := silent placed
        exact (Site.kindOf_eq found).trans (computing visit mem b found isSilent)
      rw [again] at skipped split ⊢
      exact ih rest split skipped
    | emit placed emitted rest =>
      rcases next with rfl | ⟨less, rfl, enough, runs, iterate⟩
      · exact running_zero.mpr
          ⟨not_ownRead_of_problem (by simp [Diagnostic.atAddress, Machine.exhausted]),
          available.valid, acc.refl _⟩
      · have site : Site g root plan loops done visit scope :=
          ⟨planned, ⟨todo ++ later, by simp [split]⟩, placed⟩
        refine running_cons.mpr (.bind (step_ends ?_ ?_))
        · have stepped : Available acc plan { m with steps := m.steps + 1 } scope
              (done ++ visit :: todo) done states :=
            available.move planned inside available.valid (acc.refl _) fun _ _ => rfl
          refine (emitted_wrote runs iterate enough site stepped (by simp) emitted).post ?_
          intro _ middle wrote
          have written := stepped.write planned placed wrote
          rw [again] at split written ⊢
          refine (runs rest split inside written).imp ?_ fun _ _ failed =>
            failed.of_later wrote.later
          rintro _ after ⟨finished, later', same⟩
          refine ⟨finished, acc.trans wrote.later later', fun addr below => ?_⟩
          have grows := plan.placement.tree.base_le_limit scope
          refine (same addr below).trans (wrote.same addr (by omega) fun found => ?_)
          have bounds := planned.address_bounds placed found
          omega
        · exact ⟨not_ownRead_of_problem (by simp [Diagnostic.atAddress]),
            available.valid, acc.refl _⟩

/-- Compiled code computes what the account says, with any number of steps that it covers. -/
lemma code_simulates (planned : Planned g root plan loops) (computing : Computing g plan)
    (enough : fuel ≤ bound) : RunsCode acc plan fuel ∧ RunsRounds acc plan loops fuel := by
  induction fuel with
  | zero =>
    refine ⟨code_runs planned computing (.inl rfl), ?_⟩
    intro scope inner all done visit first next cond addrs body m states state _ _ available _
    exact iterating_zero ⟨not_ownRead_of_problem (by simp [exhausted]), available.valid, acc.refl _⟩
  | succ fuel ih =>
    obtain ⟨runs, iterate⟩ := ih (Nat.le_of_succ_le enough)
    exact ⟨code_runs planned computing (.inr ⟨fuel, rfl, enough, runs, iterate⟩),
      rounds_succ runs iterate⟩

end Blockflow.Compile
