import Blockflow.Machine.Basic
import Blockflow.Proofs.Machine.Frame
import Blockflow.Proofs.Program.Occurrences

/-!
# Runs of the machine

How the steps of a run end, one lemma for each, and what every run keeps: a property of sessions
that computations on the store and compilations keep holds after every run.
-/

namespace Blockflow.Machine

open List Effect Session Compile

variable {α : Type} {m : Machine} {Fail : Diagnostic → Machine → Prop}
  {Post : Unit → Machine → Prop} {addr : Nat}
  {v : Value}

/-! ## Steps -/

lemma step_ends (post : Post () { m with steps := m.steps + 1 })
    (fail : Fail { problem := .stepBudgetExhausted m.budget } { m with steps := m.steps + 1 }) :
    step.Ends m Post Fail := by
  rw [Ends, step]
  by_cases exhausted : m.budget < m.steps + 1
  · simp only [exhausted, if_true]
    exact fail
  · simp only [exhausted, if_false]
    exact post

lemma read_ends {Post : Value → Machine → Prop}
    (found : m.frame.get? addr = some v) (post : Post v m) : (read addr).Ends m Post Fail := by
  rw [Ends, read]
  simp only [Frame.get_of_get? found]
  exact post

lemma gather_ends {Post : List Value → Machine → Prop} {vs : List Value}
    (found : Forall₂ (fun addr v => m.frame.get? addr = some v) addrs vs)
    (post : Post vs m) : (gather addrs).Ends m Post Fail := by
  rw [Ends, gather]
  simp only [Frame.gather_of_get? found]
  exact post

lemma read_same (addr : Nat) (m : Machine) :
    (read addr).Ends m (fun _ after => after = m) fun _ after => after = m :=
  .intro (fun _ _ ran => (Prod.mk.inj ran).2.symm) fun _ _ ran => (Prod.mk.inj ran).2.symm

lemma gather_same (addrs : List Nat) (m : Machine) :
    (gather addrs).Ends m (fun _ after => after = m) fun _ after => after = m :=
  .intro (fun _ _ ran => (Prod.mk.inj ran).2.symm) fun _ _ ran => (Prod.mk.inj ran).2.symm

lemma onStore_ends {Post : α → Machine → Prop}
    (ends : (Session.onStore action).Ends m.session (fun a s => Post a { m with session := s })
      fun d s => Fail d { m with session := s }) : (onStore action).Ends m Post Fail := by
  rw [Ends] at ends ⊢
  rw [onStore]
  rcases outcome : (Session.onStore action).run m.session with ⟨d | a, s⟩ <;>
    rw [outcome] at ends <;> simp only [outcome] <;> exact ends

lemma methods_ends {Post : Methods → Machine → Prop} (post : Post m.session.methods m) :
    methods.Ends m Post Fail := post

lemma write_ends (post : Post () { m with frame := m.frame.set addr v }) :
    (write addr v).Ends m Post Fail := post

lemma clear_ends {start stop : Nat} (post : Post () { m with frame := m.frame.clear start stop }) :
    (clear start stop).Ends m Post Fail := post

lemma program_ends {Post : Program → Machine → Prop} {slot : Nat}
    (post : ∀ prog s, m.session.compileSlot slot c = (.ok prog, s) →
      Post prog { m with session := s })
    (fail : ∀ failure s, m.session.compileSlot slot c = (.error failure, s) →
      Fail failure.diagnostic { m with session := s }) : (program c slot).Ends m Post Fail := by
  rw [Ends, program]
  rcases outcome : m.session.compileSlot slot c with ⟨failure | found, s⟩ <;>
    simp only [outcome, Except.mapError]
  · exact fail failure s outcome
  · exact post found s outcome

lemma mem_of_branch {branches : List Branch} {taken : Branch}
    (picked : branch branches sel = .ok taken) : taken ∈ branches := by
  rw [branch] at picked
  split at picked
  next found =>
    cases picked
    exact mem_of_getElem? found
  next => cases picked

/-- A call either is refused, or runs the code on a frame of its own and reads the result. -/
lemma invokeWith_eq (run : List Instruction → Exec Unit) (prog : Program) (args : List Value) :
    (invokeWith run prog args).run m =
      match m.mayCall prog args.length with
      | .error d => (.error (d.inCircuit prog.name), m)
      | .ok () =>
        match (run prog.code >>= fun _ => read prog.ret).run
          { m with
            depth := m.depth + 1
            frame := Frame.withArguments prog.frameSize args } with
        | (result, callee) =>
          (result.mapError (·.inCircuit prog.name),
            { callee with depth := callee.depth - 1, frame := m.frame }) := rfl

lemma invokeWith_ends {Post : Value → Machine → Prop} {run : List Instruction → Exec Unit}
    {prog : Program} {args : List Value}
    (refused : ∀ d, m.mayCall prog args.length = .error d → Fail (d.inCircuit prog.name) m)
    (ran : args.length = prog.params → (run prog.code >>= fun _ => read prog.ret).Ends
        { m with
          depth := m.depth + 1
          frame := Frame.withArguments prog.frameSize args }
        (fun v callee => Post v { callee with depth := callee.depth - 1, frame := m.frame })
        fun d callee =>
          Fail (d.inCircuit prog.name) { callee with depth := callee.depth - 1, frame :=
            m.frame }) :
    (invokeWith run prog args).Ends m Post Fail := by
  rw [Ends, invokeWith_eq]
  cases may : m.mayCall prog args.length with
  | error d => exact refused d may
  | ok _ =>
    have fits : args.length = prog.params := by
      rw [mayCall] at may
      split at may
      · cases may
      next same => exact not_not.mp same
    have ends := ran fits
    rw [Ends] at ends
    rcases outcome : (run prog.code >>= fun _ => read prog.ret).run
        { m with
          depth := m.depth + 1
          frame := Frame.withArguments prog.frameSize args } with ⟨d | v, callee⟩ <;>
      rw [outcome] at ends <;> exact ends

lemma invokeWith_frame (run : List Instruction → Exec Unit) (prog : Program)
    (args : List Value) (m : Machine) : (invokeWith run prog args).Ends m
      (fun _ after => after.frame = m.frame) fun _ after => after.frame = m.frame :=
  invokeWith_ends (fun _ _ => rfl) fun _ => .of_forall (fun _ _ => rfl) fun _ _ => rfl

/-! ## Code and loops -/

/-- Running code is a computation. -/
abbrev running (fuel : Nat) (code : List Instruction) : Exec Unit := ⟨runWithin fuel code⟩

abbrev iterating (fuel : Nat) (loop : Loop) (body : List Instruction) (state : Value) : Exec Unit :=
  ⟨iterateWithin fuel loop body state⟩

section

variable {Post : Unit → Machine → Prop} {fuel : Nat} {instr : Instruction} {rest : List Instruction}

lemma running_nil : (running fuel []).Ends m Post Fail ↔ Post () m := by
  have unfolded : (running fuel []).run m = (.ok (), m) := by
    show runWithin fuel [] m = _
    rw [runWithin]
  rw [Ends, unfolded]

lemma running_zero : (running 0 (instr :: rest)).Ends m Post Fail ↔
      Fail (m.exhausted.atAddress instr.output) { m with steps := m.steps + 1 } := by
  have unfolded : (running 0 (instr :: rest)).run m =
      (.error (m.exhausted.atAddress instr.output), { m with steps := m.steps + 1 }) := by
    show runWithin 0 (instr :: rest) m = _
    rw [runWithin]
  rw [Ends, unfolded]

lemma running_cons_eq (instr : Instruction) (rest : List Instruction) :
    (running (fuel + 1) (instr :: rest)).run m =
      match (step >>= fun _ => execute (running fuel) (iterating fuel) instr).run m with
      | (.error d, m) => (.error (d.atAddress instr.output), m)
      | (.ok (), m) => (running fuel rest).run m := by
  rfl

lemma running_cons : (running (fuel + 1) (instr :: rest)).Ends m Post Fail ↔
      (step >>= fun _ => execute (running fuel) (iterating fuel) instr).Ends m
        (fun _ after => (running fuel rest).Ends after Post Fail)
        fun d after => Fail (d.atAddress instr.output) after := by
  rw [Ends, running_cons_eq, Ends]
  rcases (step >>= fun _ => execute (running fuel) (iterating fuel) instr).run m with
    ⟨d | _, after⟩ <;> exact Iff.rfl

lemma running_append {front back : List Instruction}
    (ends : (running fuel front).Ends m (fun _ after => ∀ less ≤ fuel,
      (running less back).Ends after Post Fail) Fail) :
    (running fuel (front ++ back)).Ends m Post Fail := by
  induction front generalizing fuel m with
  | nil => exact running_nil.mp ends fuel (Nat.le_refl _)
  | cons instr rest ih =>
    cases fuel with
    | zero => exact running_zero.mpr (running_zero.mp ends)
    | succ fuel =>
      refine running_cons.mpr ((running_cons.mp ends).post fun _ after ran => ih ?_)
      exact ran.post fun _ _ back less bound => back less (Nat.le_succ_of_le bound)

variable {loop : Loop} {body : List Instruction} {state : Value}

lemma iterating_zero (fail : Fail m.exhausted { m with steps := m.steps + 1 }) :
    (iterating 0 loop body state).Ends m Post Fail := by
  rw [Ends]
  exact fail

lemma iterating_succ_eq : (iterating (fuel + 1) loop body state).run m =
    match (enterRound loop state >>= fun _ => running fuel body >>=
      fun _ => nextState? loop).run m with
    | (.error d, m) => (.error d, m)
    | (.ok (some next), m) => (iterating fuel loop body next).run m
    | (.ok none, m) => (write loop.out state).run m := by
  rfl

lemma iterating_succ
    (round : (enterRound loop state >>= fun _ => running fuel body >>=
      fun _ => nextState? loop).Ends m
      (fun next after => match next with
        | some next => (iterating fuel loop body next).Ends after Post Fail
        | none => Post () { after with frame := after.frame.set loop.out state })
      Fail) : (iterating (fuel + 1) loop body state).Ends m Post Fail := by
  rw [Ends] at round ⊢
  rw [iterating_succ_eq]
  rcases outcome : (enterRound loop state >>= fun _ => running fuel body >>=
      fun _ => nextState? loop).run m with
    ⟨d | next | _, after⟩ <;> rw [outcome] at round <;> exact round

end

/-! ## What every run keeps -/

section

variable {P : Session → Prop} {Named : String → Nat → Prop}

/-- The sessions of a run: those with a property, in which what the running code calls may be
called. -/
abbrev Stays (P : Session → Prop) (May : Session → String → Nat → Prop)
    (Named : String → Nat → Prop) (m : Machine) : Prop :=
  P m.session ∧ ∀ c slot, Named c slot → May m.session c slot

/-- What keeps the property, and leaves what may be called. -/
def Acts (P : Session → Prop) (May : Session → String → Nat → Prop) (before after : Session) :
    Prop :=
  P after ∧ ∀ c slot, May before c slot → May after c slot

/-- Everything that runs do to a session keeps a property: making values with the natives in `Uses`,
and compiling circuits that may be called to code that keeps to the same rules. -/
structure Lasting (P : Session → Prop) (May : Session → String → Nat → Prop)
    (Uses : Native → Prop) :
    Prop where
  native : ∀ {s native} args, P s → Uses native →
    Acts P May s ((Session.onStore (native.call args)).run s).2
  dispatch : ∀ {s} names args, P s →
    Acts P May s ((Session.onStore (s.methods.dispatch names args)).run s).2
  method : ∀ {s ty native} v, P s → s.methods.find? ty "switch" = some native →
    Acts P May s ((Session.onStore (native.call [v])).run s).2
  pack : ∀ {s} vs, P s → Acts P May s ((Session.onStore (Effect.ofState (Store.pack vs))).run s).2
  compile : ∀ {s slot name}, P s → May s name slot → Acts P May s (s.compileSlot slot name).2 ∧
    ∀ prog, (s.compileSlot slot name).1 = .ok prog →
      Within (May (s.compileSlot slot name).2) Uses prog.code

variable {May : Session → String → Nat → Prop} {Uses : Native → Prop}

lemma step_keeps : step.Keeps (Stays P May Named) := fun _ holds => step_ends holds holds

lemma gather_keeps (addrs : List Nat) : (gather addrs).Keeps (Stays P May Named) :=
  fun m holds => (gather_same addrs m).imp (fun _ _ eq => eq ▸ holds) fun _ _ eq => eq ▸ holds

lemma read_keeps (addr : Nat) : (read addr).Keeps (Stays P May Named) :=
  fun m holds => (read_same addr m).imp (fun _ _ eq => eq ▸ holds) fun _ _ eq => eq ▸ holds

lemma write_keeps (addr : Nat) (v : Value) :
    (write addr v).Keeps (Stays P May Named) := fun _ holds => holds

lemma enterRound_keeps (loop : Loop)
    (state : Value) : (enterRound loop state).Keeps (Stays P May Named) :=
  .bind step_keeps fun _ => .bind (fun _ holds => holds) fun _ => write_keeps _ _

lemma nextState_keeps (loop : Loop) : (nextState? loop).Keeps (Stays P May Named) := by
  refine .bind (read_keeps _) fun v => .bind (.ofExcept _) fun sel => ?_
  split
  · exact .pure _
  · exact .bind (read_keeps _) fun following => .pure _

lemma onStore_keeps {action : Action Value}
    (acts : ∀ {s}, P s → Acts P May s ((Session.onStore action).run s).2) :
    (onStore action).Keeps (Stays P May Named) := by
  intro m holds
  obtain ⟨kept, may⟩ := acts holds.1
  refine onStore_ends (.intro (fun a t ran => ?_) fun d t ran => ?_) <;> rw [ran] at kept may <;>
    exact ⟨kept, fun c slot named => may c slot (holds.2 c slot named)⟩

lemma invokeWith_keeps {run : List Instruction → Exec Unit}
    (runs : (run prog.code).Keeps fun m => P m.session) (args : List Value) :
    (invokeWith run prog args).Keeps fun m => P m.session := by
  intro m holds
  refine invokeWith_ends (fun _ _ => holds) fun _ => ?_
  have reads : (read prog.ret).Keeps fun m => P m.session := fun m holds =>
    (read_same prog.ret m).imp (fun _ _ eq => eq ▸ holds) fun _ _ eq => eq ▸ holds
  exact (runs.bind fun _ => reads) _ holds

lemma invokeWith_stays {run : List Instruction → Exec Unit}
    (runs : (run prog.code).Keeps (Stays P May Named)) (args : List Value) :
    (invokeWith run prog args).Keeps (Stays P May Named) :=
  invokeWith_keeps (P := fun s => P s ∧ ∀ c slot, Named c slot → May s c slot) runs args

variable (lasting : Lasting P May Uses)

include lasting

variable {run : List Instruction → Exec Unit}

lemma virtualCall_keeps (names : List String) (args : List Value) (out : Nat) :
    (do write out (← onStore ((← methods).dispatch names args))).Keeps (Stays P May Named) := by
  intro m holds
  obtain ⟨kept, may⟩ := lasting.dispatch names args holds.1
  refine Ends.bind (methods_ends (Ends.bind (onStore_ends (.intro (fun a t ran => ?_)
    fun d t ran => ?_)))) <;> rw [ran] at kept may <;>
    exact ⟨kept, fun c slot named => may c slot (holds.2 c slot named)⟩

lemma select_keeps (addr : Nat) : (select addr).Keeps (Stays P May Named) := by
  refine .bind (read_keeps addr) fun v m holds => Ends.bind (methods_ends ?_)
  cases found : m.session.methods.find? v.ty "switch" with
  | none => exact (Keeps.ofExcept _) m holds
  | some method =>
    obtain ⟨kept, may⟩ := lasting.method v holds.1 found
    refine Ends.bind (onStore_ends (.intro (fun a t ran => ?_) fun d t ran => ?_)) <;>
      rw [ran] at kept may
    · exact (Keeps.ofExcept _) _ ⟨kept, fun c slot named => may c slot (holds.2 c slot named)⟩
    · exact ⟨kept, fun c slot named => may c slot (holds.2 c slot named)⟩

/-- The called program runs where its own calls may be made, and the caller goes on from there. -/
lemma functionCall_keeps
    (runs : ∀ {Named code}, Within Named Uses code → (run code).Keeps (Stays P May Named))
    {circuit : String}
    {slot : Nat} (named : Named circuit slot) (ins : List Nat) (out : Nat) : (do
      let prog ← program circuit slot
      let args ← gather ins
      write out (← (invokeWith run prog args).mapFailure (·.calledFrom out))).Keeps
    (Stays P May Named) := by
  intro m holds
  obtain ⟨⟨kept, may⟩, within⟩ := lasting.compile holds.1 (holds.2 circuit slot named)
  refine Ends.bind (program_ends (fun found t compiled => ?_) fun failure t compiled => ?_)
  · rw [compiled] at kept may within
    have called : (gather ins >>= fun args => (invokeWith run found args).mapFailure
        (·.calledFrom out) >>=
        write out).Keeps (Stays P May (May t)) :=
      .bind (gather_keeps ins) fun args =>
        .bind (.mapFailure (invokeWith_stays (runs (within found rfl)) args))
        fun v => write_keeps out v
    exact (called { m with session := t } ⟨kept, fun _ _ may => may⟩).imp
      (fun _ _ ends => ⟨ends.1, fun c s named => ends.2 c s (may c s (holds.2 c s named))⟩)
      fun _ _ ends => ⟨ends.1, fun c s named => ends.2 c s (may c s (holds.2 c s named))⟩
  · rw [compiled] at kept may
    exact ⟨kept, fun c s named => may c s (holds.2 c s named)⟩

lemma execute_keeps {iterate : Loop → List Instruction → Value → Exec Unit}
    (runs : ∀ {Named code}, Within Named Uses code → (run code).Keeps (Stays P May Named))
    (iterates : ∀ {Named body}, Within Named Uses body → ∀ loop state,
      (iterate loop body state).Keeps (Stays P May Named)) (within : Within Named Uses [instr]) :
    (execute run iterate instr).Keeps (Stays P May Named) := by
  cases instr with
  | loadConst v out => exact write_keeps _ _
  | call native ins out =>
    have uses := within.natives native ins out (.here mem_cons_self)
    exact .bind (gather_keeps _) fun args =>
      .bind (onStore_keeps fun holds => lasting.native args holds uses)
      fun v => write_keeps _ _
  | virtualCall names ins out =>
    exact .bind (gather_keeps _) fun args => virtualCall_keeps lasting names args out
  | pack ins out =>
    exact .bind (gather_keeps _) fun vs => .bind (onStore_keeps fun holds => lasting.pack vs holds)
      fun v => write_keeps _ _
  | unpack i input out =>
    exact .bind (read_keeps _) fun v => .bind (.ofExcept _) fun element => write_keeps _ _
  | functionCall c slot ins out =>
    exact functionCall_keeps lasting runs
      (within.calls c slot ins out (.here mem_cons_self)) ins out
  | loop addrs body =>
    have inside := within.of_occurs fun _ occurs => .body mem_cons_self occurs
    exact .bind (read_keeps _) fun state => iterates inside addrs state
  | switch sel branches out =>
    refine .bind (select_keeps lasting _) fun sel => ?_
    cases picked : branch branches sel with
    | error d => exact fun _ holds => holds
    | ok taken =>
      have inside :=
        within.of_occurs fun _ occurs => .branch mem_cons_self (mem_of_branch picked) occurs
      show (run taken.code >>= fun _ => branchResult taken sel >>= write out).Keeps
        (Stays P May Named)
      refine .bind (runs inside) fun _ => .bind ?_ fun v => write_keeps _ _
      rw [branchResult]
      split
      · exact read_keeps _
      · exact .pure _

/-- What lasts is kept by every run of code that keeps to the rules; and what the code calls may be
called afterwards. -/
lemma running_stays (fuel : Nat) :
    (∀ {Named code}, Within Named Uses code → (running fuel code).Keeps (Stays P May Named)) ∧
      ∀ {Named body}, Within Named Uses body → ∀ loop state,
        (iterating fuel loop body state).Keeps (Stays P May Named) := by
  induction fuel with
  | zero =>
    refine ⟨fun {_ code} _ m holds => ?_, fun _ loop state m holds => iterating_zero holds⟩
    cases code with
    | nil => exact running_nil.mpr holds
    | cons instr rest => exact running_zero.mpr holds
  | succ fuel ih =>
    obtain ⟨runs, iterates⟩ := ih
    refine ⟨fun {_ code} within m holds => ?_, fun {Named body} within loop state m holds =>
      iterating_succ ?_⟩
    · cases code with
      | nil => exact running_nil.mpr holds
      | cons instr rest =>
        refine running_cons.mpr (((step_keeps.bind fun _ => execute_keeps lasting runs iterates
          (within.mono (cons_subset_cons _ (nil_subset _)))) m holds).post ?_)
        exact fun _ after kept => runs (within.mono (subset_cons_self _ _)) after kept
    · refine (((enterRound_keeps loop state).bind fun _ => (runs within).bind fun _ =>
        nextState_keeps loop) m
        holds).post ?_
      intro following after kept
      cases following with
      | none => exact kept
      | some state => exact iterates within loop state after kept

lemma invoke_stays {prog : Program} (within : Within Named Uses prog.code)
    (args : List Value) : (invoke prog args).Keeps (Stays P May Named) :=
  invokeWith_stays (fun m holds => (running_stays lasting m.stepsLeft).1 within m holds) args

end

section

variable {P : Session → Prop}

variable (store : ∀ (action : Action Value) (s : Session), P s →
  P ((Session.onStore action).run s).2)
  (compile : ∀ (slot : Nat) (name : String) (s : Session), P s → P (s.compileSlot slot name).2)

include store compile

/-- A property of sessions that computations on the store and compilations keep is kept by every
run. -/
lemma running_keeps (fuel : Nat) (code : List Instruction) :
    (running fuel code).Keeps fun m => P m.session := by
  -- any call may be made, and any native applied
  have lasting : Lasting P (fun _ _ _ => True) fun _ => True :=
    { native := fun _ holds _ => ⟨store _ _ holds, fun _ _ _ => trivial⟩
      dispatch := fun _ _ holds => ⟨store _ _ holds, fun _ _ _ => trivial⟩
      method := fun _ holds _ => ⟨store _ _ holds, fun _ _ _ => trivial⟩
      pack := fun _ holds => ⟨store _ _ holds, fun _ _ _ => trivial⟩
      compile := fun holds _ => ⟨⟨compile _ _ _ holds, fun _ _ _ => trivial⟩,
        fun _ _ => ⟨fun _ _ _ _ _ => trivial, fun _ _ _ _ => trivial⟩⟩ }
  have within : Within (fun _ _ => True) (fun _ => True) code :=
    ⟨fun _ _ _ _ _ => trivial, fun _ _ _ _ => trivial⟩
  exact fun m holds => ((running_stays lasting fuel).1 within m ⟨holds, fun _ _ _ => trivial⟩).imp
    (fun _ _ ends => ends.1) fun _ _ ends => ends.1

lemma invoke_keeps (prog : Program) (args : List Value) :
    (invoke prog args).Keeps fun m => P m.session :=
  invokeWith_keeps (fun m holds => running_keeps store compile m.stepsLeft prog.code m holds) args

end

end Blockflow.Machine
