import Blockflow.Proofs.Machine.Runs
import Mathlib.Data.ENat.Basic

/-!
# Step budgets

A run takes the same steps under every budget, as long as the budget lasts. So the outcomes of all
budgets are those of one run: from some number of steps on the budget makes no difference, and below
it every run fails for want of steps and for no other reason. The number is infinite for a run that
never ends.
-/

namespace Blockflow

open Effect Machine

/-- The failure of a run that goes beyond its budget. -/
def Diagnostic.IsExhausted (budget : Nat) (d : Diagnostic) : Prop :=
  d.kind = .budget ∧ d.problem = .stepBudgetExhausted budget

namespace Machine

variable {α β : Type} {more : Nat}

def granted (m : Machine) (budget : Nat) : Machine := { m with budget }

/-- What a computation leaves of a machine: its budget, its open calls, and at most `beyond` steps
more than the budget allows. -/
structure Metered (m : Machine) (beyond : Nat) (after : Machine) : Prop where
  budget : after.budget = m.budget
  depth : after.depth = m.depth
  steps : after.steps ≤ max m.steps m.budget + beyond

lemma Metered.trans {m between after : Machine} {beyond : Nat} (first : Metered m 0 between)
    (second : Metered between beyond after) : Metered m beyond after where
  budget := second.budget.trans first.budget
  depth := second.depth.trans first.depth
  steps := by
    have bound := first.steps
    have bound' := second.steps
    rw [first.budget] at bound'
    omega

/-- The first computation ends as the second one does under a larger budget, unless it goes beyond
its own. -/
def Scales (more : Nat) (first second : Exec α) : Prop :=
  ∀ m : Machine, m.budget ≤ more → first.Ends m
    (fun a after => Metered m 0 after ∧ second.run (m.granted more) = (.ok a, after.granted more))
    fun d after => Metered m 1 after ∧
      (d.IsExhausted m.budget ∨ second.run (m.granted more) = (.error d, after.granted more))

namespace Scales

variable {first second : Exec α}

lemma bind (begins : Scales more first second) (goesOn : ∀ a, Scales more (next a) (next' a)) :
    Scales more (first >>= next) (second >>= next') := by
  intro m small
  refine .bind ((begins m small).imp ?_ ?_)
  · rintro a between ⟨metered, eq⟩
    have small' : between.budget ≤ more := metered.budget ▸ small
    have ran : (second >>= next').run (m.granted more) = (next' a).run (between.granted more) := by
      rw [run_bind, eq]
    refine (goesOn a between small').imp ?_ ?_
    · rintro b after ⟨metered', eq'⟩
      exact ⟨metered.trans metered', ran.trans eq'⟩
    · rintro d after ⟨metered', ended⟩
      rw [metered.budget] at ended
      exact ⟨metered.trans metered', ended.imp_right ran.trans⟩
  · rintro d after ⟨metered, ended⟩
    refine ⟨metered, ended.imp_right fun eq => ?_⟩
    rw [run_bind, eq]

lemma mapFailure (f : Diagnostic → Diagnostic) (scales : Scales more first second)
    (kept : ∀ {budget d}, d.IsExhausted budget → (f d).IsExhausted budget) :
    Scales more (first.mapFailure f) (second.mapFailure f) := by
  intro m small
  refine .mapFailure ((scales m small).imp ?_ ?_)
  · rintro a after ⟨metered, eq⟩
    refine ⟨metered, ?_⟩
    rw [Effect.mapFailure]
    simp only [eq]
  · rintro d after ⟨metered, ended⟩
    refine ⟨metered, ended.imp kept fun eq => ?_⟩
    rw [Effect.mapFailure]
    simp only [eq]

lemma of_blind {effect : Exec α} (blind : ∀ m, ∃ result after, effect.run m = (result, after) ∧
    after.budget = m.budget ∧ after.depth = m.depth ∧ after.steps = m.steps ∧
    effect.run (m.granted more) = (result, after.granted more)) : Scales more effect effect := by
  intro m _
  obtain ⟨result, after, ran, budget, depth, steps, eq⟩ := blind m
  rw [Ends, ran]
  cases result with
  | ok a => exact ⟨⟨budget, depth, by omega⟩, eq⟩
  | error d => exact ⟨⟨budget, depth, by omega⟩, .inr eq⟩

lemma pure (a : α) :
    Scales more (Pure.pure a) (Pure.pure a) := of_blind fun _ => ⟨_, _, rfl, rfl, rfl, rfl, rfl⟩

lemma ofExcept (result : Except Diagnostic α) : Scales more (ofExcept result) (ofExcept result) :=
  of_blind fun _ => ⟨_, _, rfl, rfl, rfl, rfl, rfl⟩

lemma read (addr : Nat) : Scales more (read addr) (read addr) :=
  of_blind fun _ => ⟨_, _, rfl, rfl, rfl, rfl, rfl⟩

lemma gather (addrs : List Nat) : Scales more (gather addrs) (gather addrs) :=
  of_blind fun _ => ⟨_, _, rfl, rfl, rfl, rfl, rfl⟩

lemma write (addr : Nat) (v : Value) : Scales more (write addr v) (write addr v) :=
  of_blind fun _ => ⟨_, _, rfl, rfl, rfl, rfl, rfl⟩

lemma onStore (action : Action α) : Scales more (onStore action) (onStore action) :=
  of_blind fun _ => ⟨_, _, rfl, rfl, rfl, rfl, rfl⟩

lemma methods : Scales more methods methods := of_blind fun _ => ⟨_, _, rfl, rfl, rfl, rfl, rfl⟩

lemma program (c : String) (slot : Nat) : Scales more (program c slot) (program c slot) :=
  of_blind fun _ => ⟨_, _, rfl, rfl, rfl, rfl, rfl⟩

lemma step : Scales more step step := by
  intro m small
  rw [Effect.Ends, Machine.step, granted]
  by_cases exhausted : m.budget < m.steps + 1
  · simp only [exhausted, if_true]
    exact ⟨⟨rfl, rfl, by dsimp only; omega⟩, .inl ⟨rfl, rfl⟩⟩
  · have enough : ¬more < m.steps + 1 := by omega
    simp only [exhausted, enough, if_false]
    exact ⟨⟨rfl, rfl, by dsimp only; omega⟩, rfl⟩

lemma select (addr : Nat) : Scales more (select addr) (select addr) := by
  refine (read addr).bind fun v => methods.bind fun table => ?_
  split
  · exact (onStore _).bind fun _ => ofExcept _
  · exact ofExcept _

lemma enterRound (loop : Loop) (state : Value) :
    Scales more (enterRound loop state) (enterRound loop state) :=
  step.bind fun _ => (of_blind fun _ => ⟨_, _, rfl, rfl, rfl, rfl, rfl⟩).bind fun _ => write _ _

lemma nextState? (loop : Loop) : Scales more (nextState? loop) (nextState? loop) := by
  refine (read _).bind fun v => (ofExcept _).bind fun sel => ?_
  split
  · exact pure _
  · exact (read _).bind fun _ => pure _

end Scales

variable {run run' : List Instruction → Exec Unit}

/-- A call closes what it opens, and runs its code under the budget of the caller. -/
lemma invokeWith_scales (runs : ∀ code, Scales more (run code) (run' code)) (prog : Program)
    (args : List Value) :
    Scales more (invokeWith run prog args) (invokeWith run' prog args) := by
  intro m small
  rw [Ends, invokeWith_eq, invokeWith_eq]
  have may : (m.granted more).mayCall prog args.length = m.mayCall prog args.length := rfl
  rw [may]
  cases m.mayCall prog args.length with
  | error d => exact ⟨⟨rfl, rfl, by omega⟩, .inr rfl⟩
  | ok _ =>
    let callee : Machine :=
      { m with depth := m.depth + 1, frame := Frame.withArguments prog.frameSize args }
    have ends := ((runs prog.code).bind fun _ => .read prog.ret) callee small
    have eq : ({ m.granted more with
        depth := (m.granted more).depth + 1
        frame := Frame.withArguments prog.frameSize args } : Machine) = callee.granted more := rfl
    rw [eq]
    rw [Ends] at ends
    rcases outcome : (run prog.code >>= fun _ => read prog.ret).run callee with ⟨d | v, after⟩ <;>
      rw [outcome] at ends <;> obtain ⟨metered, ended⟩ := ends
    · refine ⟨⟨metered.budget, congrArg (· - 1) metered.depth, metered.steps⟩,
        ended.imp id fun eq => ?_⟩
      rw [eq]
      rfl
    · refine ⟨⟨metered.budget, congrArg (· - 1) metered.depth, metered.steps⟩, ?_⟩
      rw [ended]
      rfl

lemma execute_scales (runs : ∀ code, Scales more (run code) (run' code))
    (iterates : ∀ loop body state, Scales more (iterate loop body state) (iterate' loop body state))
    (instr : Instruction) : Scales more (execute run iterate instr)
      (execute run' iterate' instr) := by
  cases instr with
  | loadConst v out => exact .write _ _
  | call native ins out => exact (Scales.gather _).bind fun args =>
    (Scales.onStore _).bind fun _ => .write _ _
  | virtualCall names ins out =>
    exact (Scales.gather _).bind fun args => Scales.methods.bind fun _ =>
      (Scales.onStore _).bind fun _ => .write _ _
  | pack ins out => exact (Scales.gather _).bind fun vs =>
    (Scales.onStore _).bind fun _ => .write _ _
  | unpack i input out => exact (Scales.read _).bind fun v =>
    (Scales.ofExcept _).bind fun _ => .write _ _
  | functionCall c slot ins out =>
    refine (Scales.program _ _).bind fun prog => (Scales.gather _).bind fun args => ?_
    exact ((invokeWith_scales runs prog args).mapFailure (·.calledFrom out) id).bind fun _ =>
      .write _ _
  | loop addrs body => exact (Scales.read _).bind fun state => iterates _ _ _
  | switch sel branches out =>
    refine (Scales.select _).bind fun sel => (Scales.ofExcept _).bind fun taken =>
      (runs _).bind fun _ => ?_
    refine Scales.bind ?_ fun _ => .write _ _
    rw [branchResult]
    split
    · exact .read _
    · exact .pure _

/-- An instruction that fails is named by its address, and nothing runs after it. -/
lemma running_cons_bind (fuel : Nat) (instr : Instruction) (rest : List Instruction) :
    running (fuel + 1) (instr :: rest) =
      (step >>= fun _ => execute (running fuel) (iterating fuel) instr).mapFailure
        (·.atAddress instr.output) >>= fun _ => running fuel rest := by
  ext m : 1
  rw [running_cons_eq]
  generalize step >>= (fun _ => execute (running fuel) (iterating fuel) instr) = executed
  rw [run_bind, mapFailure]
  dsimp only
  rcases executed.run m with ⟨d | _, after⟩ <;> rfl

/-- Every round of a loop is followed by the next one or by the end. -/
lemma iterating_succ_bind (fuel : Nat) (loop : Loop) (body : List Instruction) (state : Value) :
    iterating (fuel + 1) loop body state =
      (enterRound loop state >>= fun _ => running fuel body >>= fun _ => nextState? loop) >>=
      fun next =>
        next.elim (write loop.out state) (iterating fuel loop body) := by
  ext m : 1
  rw [iterating_succ_eq]
  generalize enterRound loop state >>= (fun _ => running fuel body >>= fun _ => nextState? loop) =
    round
  rw [run_bind]
  rcases round.run m with ⟨d | next | _, after⟩ <;> rfl

/-- Code and loops run alike under two budgets. The induction is on the bound of the recursion,
which is the steps that are left of the smaller budget: where it is used up, so is the budget. -/
lemma running_scales (less : fuel ≤ fuel') :
    (∀ code, Scales more (running fuel code) (running fuel' code)) ∧
      ∀ loop body state,
      Scales more (iterating fuel loop body state) (iterating fuel' loop body state) := by
  have done : ∀ fuel fuel', Scales more (running fuel []) (running fuel' []) := by
    intro fuel fuel' m _
    refine running_nil.mpr ⟨⟨rfl, rfl, by omega⟩, ?_⟩
    show runWithin fuel' [] (m.granted more) = _
    rw [runWithin]
  induction fuel generalizing fuel' with
  | zero =>
    have spent : ∀ m : Machine, Metered m 1 { m with steps := m.steps + 1 } :=
      fun m => ⟨rfl, rfl, by dsimp only; omega⟩
    refine ⟨fun code => ?_, fun loop body state m _ => iterating_zero ⟨spent m, .inl ⟨rfl, rfl⟩⟩⟩
    cases code with
    | nil => exact done _ _
    | cons instr rest => exact fun m _ => running_zero.mpr ⟨spent m, .inl ⟨rfl, rfl⟩⟩
  | succ fuel ih =>
    obtain ⟨fuel', rfl⟩ := Nat.exists_eq_succ_of_ne_zero (Nat.ne_zero_of_lt less)
    obtain ⟨runs, iterates⟩ := ih (Nat.le_of_succ_le_succ less)
    refine ⟨fun code => ?_, fun loop body state => ?_⟩
    · cases code with
      | nil => exact done _ _
      | cons instr rest =>
        rw [running_cons_bind, running_cons_bind]
        exact ((Scales.step.bind fun _ => execute_scales runs iterates instr).mapFailure
          (·.atAddress instr.output) id).bind fun _ => runs rest
    · rw [iterating_succ_bind, iterating_succ_bind]
      refine ((Scales.enterRound loop state).bind fun _ => (runs body).bind fun _ =>
        .nextState? loop).bind fun next => ?_
      cases next with
      | none => exact .write _ _
      | some next => exact iterates loop body next

/-- A call under a budget ends as under every larger one, unless it goes beyond its budget. -/
lemma invoke_scales (prog : Program) (args : List Value) :
    Scales more (invoke prog args) (invoke prog args) := by
  refine invokeWith_scales (fun code m small => ?_) prog args
  have less : m.stepsLeft ≤ (m.granted more).stepsLeft := Nat.sub_le_sub_right small _
  exact (running_scales less).1 code m small

def outcome (m : Machine) (prog : Program) (args : List Value) (budget : Nat) :
    Except Diagnostic Value :=
  ((invoke prog args).run (m.granted budget)).1

/-- The outcome stays as it is under larger budgets, unless the budget was used up. -/
lemma outcome_of_le (m : Machine) (prog : Program) (args : List Value) {budget larger : Nat}
    (small : budget ≤ larger) : outcome m prog args larger = outcome m prog args budget ∨
      ∃ d, outcome m prog args budget = .error d ∧ d.IsExhausted budget := by
  have ends := invoke_scales prog args (m.granted budget) small
  rw [Ends] at ends
  rw [outcome, outcome]
  rcases ran : (invoke prog args).run (m.granted budget) with ⟨d | v, after⟩ <;> rw [ran] at ends
  · rcases ends.2 with exhausted | eq
    · exact .inr ⟨d, rfl, exhausted⟩
    · exact .inl (Prod.ext_iff.mp eq).1
  · exact .inl (Prod.ext_iff.mp ends.2).1

/-- Whatever a program and its arguments are, every call under a budget comes to an end, at most one
step beyond the budget and with all calls closed that it opened. From a number of steps on, which
may be infinite, the outcome is one and the same; every smaller budget fails because it is used up.
So a result stays as it is under larger budgets. -/
theorem budget_has_threshold (m : Machine) (program : Program) (arguments : List Value) :
    (∀ budget, ((invoke program arguments).run (m.granted budget)).2.steps ≤
      max m.steps budget + 1 ∧
      ((invoke program arguments).run (m.granted budget)).2.depth = m.depth) ∧
    (∃ threshold : ℕ∞,
      (∃ result, ∀ budget : Nat, threshold ≤ budget → outcome m program arguments budget = result) ∧
      ∀ budget : Nat, budget < threshold → ∃ d, outcome m program arguments budget = .error d ∧
      d.kind = .budget ∧
        d.message = s!"step budget of {budget} exhausted") ∧
    ∀ budget larger value, budget ≤ larger → outcome m program arguments budget = .ok value →
      outcome m program arguments larger = .ok value := by
  refine ⟨fun budget => ?_, ?_, fun budget larger value small succeeded => ?_⟩
  · have ends := invoke_scales program arguments (m.granted budget) (Nat.le_refl _)
    rw [Ends] at ends
    rcases ran : (invoke program arguments).run (m.granted budget) with ⟨d | value, after⟩ <;>
        rw [ran] at ends
    · exact ⟨ends.1.steps, ends.1.depth⟩
    · exact ⟨Nat.le_succ_of_le ends.1.steps, ends.1.depth⟩
  · have message : ∀ {budget d}, outcome m program arguments budget = .error d →
        d.IsExhausted budget →
        ∃ d, outcome m program arguments budget = .error d ∧ d.kind = .budget ∧
          d.message = s!"step budget of {budget} exhausted" := by
      intro budget d failed exhausted
      refine ⟨d, failed, exhausted.1, ?_⟩
      rw [Diagnostic.message, exhausted.2]
      rfl
    by_cases lasts : ∃ budget, ¬∃ d, outcome m program arguments budget = .error d ∧
      d.IsExhausted budget
    · -- the least budget that is not used up
      classical
      refine ⟨Nat.find lasts, ⟨outcome m program arguments (Nat.find lasts), fun budget enough =>
        ?_⟩, fun budget less => ?_⟩
      · exact (outcome_of_le m program arguments (ENat.natCast_le_natCast.mp enough)).resolve_right
          (Nat.find_spec lasts)
      · obtain ⟨d, failed, exhausted⟩ :=
          not_not.mp (Nat.find_min lasts (ENat.natCast_lt_natCast.mp less))
        exact message failed exhausted
    · refine ⟨⊤, ⟨outcome m program arguments 0, fun budget enough => ?_⟩, fun budget _ => ?_⟩
      · exact absurd enough (not_le_of_gt (ENat.natCast_lt_top budget))
      · obtain ⟨d, failed, exhausted⟩ := not_not.mp (not_exists.mp lasts budget)
        exact message failed exhausted
  · rcases outcome_of_le m program arguments small with same | ⟨d, failed, -⟩
    · exact same.trans succeeded
    · cases failed.symm.trans succeeded

end Machine

end Blockflow
