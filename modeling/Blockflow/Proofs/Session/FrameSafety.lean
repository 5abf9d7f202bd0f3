import Blockflow.Proofs.Expand.BlockTypes
import Blockflow.Proofs.Compile.Programs
import Blockflow.Proofs.Session.Origins

/-!
# Programs read what they wrote

A program that a session compiled never reads an address of its frame that holds nothing, unless it
hands out the state of a loop, and it never leaves its frame. The proof runs the simulation with an
account that takes every value for every node: that nothing is missing does not depend on what the
values are.
-/

namespace Blockflow

open Compile Machine

variable {P : Native → Prop} {prog : Program} {g : Graph} {root : Root}

lemma Origin.compiledFrom (origin : Origin P prog g root) :
    ParamsListed g root ∧ ∃ Named plan loops, CompiledFrom g root Named prog plan loops := by
  obtain ⟨env, limit, name, before, after, slots, conforms, settled, compiled⟩ := origin
  refine ⟨fun id i found => List.mem_of_getElem? ((settled.param_iff conforms).mp found), ?_⟩
  rcases outcome : compile g root slots with ⟨result, g', slots'⟩
  rw [outcome] at compiled
  obtain ⟨plan, loops, src, -⟩ := compile_compiledFrom (outcome.trans (by rw [← compiled]))
  exact ⟨_, plan, loops, src⟩

namespace Session

variable {s : Session} {slot : Nat} {name : String}

lemma compileSlot_environment (s : Session) (slot : Nat) (name : String) :
    (s.compileSlot slot name).2.environment = s.environment := by
  obtain ⟨store, slots, -, eq⟩ := compileFresh_session s name
  rcases outcome : s.compileSlot slot name with ⟨failure | prog, after⟩
  · rw [compileSlot_error outcome] at eq
    rw [show after = _ from eq]
    rfl
  · rcases compileSlot_ok outcome with ⟨-, rfl⟩ | ⟨made, fresh, rfl⟩
    · rfl
    · rw [fresh] at eq
      rw [show made = _ from eq]
      rfl

lemma compileSlot_library (s : Session) (slot : Nat) (name : String) :
    (s.compileSlot slot name).2.library = s.library :=
  congrArg Environment.library (compileSlot_environment s slot name)

lemma onStore_library (action : Action α) (eq : s.library = lib) : (onStore action).Ends s
      (fun _ after => after.library = lib) fun _ after => after.library = lib := by
  refine .intro (fun _ _ ran => ?_) fun _ _ ran => ?_ <;> rw [← (Prod.mk.inj ran).2] <;> exact eq

end Session

open Session

/-- The account that takes every value for every node, in sessions with a given library. -/
def anyValue (lib : Library) (conforms : lib.Conforms (.inner P)) (g : Graph)
    (root : Root) (args : List Value) (Named : String → Nat → Prop) (bound : Nat) :
    Account g root args Named bound where
  Valid session := session.library = lib
  Later _ _ := True
  Gives _ _ _ _ := True
  Picks _ _ _ := True
  Calls _ _ _ _ := True
  Packs _ _ _ := True
  refl _ := trivial
  trans _ _ := trivial
  gives_later _ _ := trivial
  gives_states _ _ := trivial
  picks_later _ _ := trivial
  param _ _ := trivial
  state _ _ := trivial
  const _ := trivial
  op valid _ _ _ := (onStore_library _ valid).imp (fun _ _ eq => ⟨eq, trivial, trivial⟩)
    fun _ _ eq => ⟨eq, trivial⟩
  virtual valid _ _ _ := (onStore_library _ valid).imp (fun _ _ eq => ⟨eq, trivial, trivial⟩)
    fun _ _ eq => ⟨eq, trivial⟩
  packs _ valid := (onStore_library _ valid).imp (fun _ _ eq => ⟨eq, trivial, trivial⟩)
    fun _ _ eq => ⟨eq, trivial⟩
  pack _ _ _ _ := trivial
  unpack _ _ _ _ _ := trivial
  call _ _ _ _ := trivial
  callee {s t c slot prog} valid _ compiled := by
    have kept : t.library = lib := by
      rw [← valid, ← compileSlot_library s slot c, compiled]
    refine ⟨kept, trivial, fun {fuel vs m} _ eq => ?_⟩
    have runs := running_keeps (P := fun session => session.library = lib) (fun _ _ eq => eq)
      (fun slot name s eq => (compileSlot_library s slot name).trans eq) fuel prog.code
    exact (invokeWith_keeps (P := fun session => session.library = lib) runs vs m
      (show m.session.library = lib from eq ▸ kept)).imp
      (fun _ _ eq => ⟨eq, trivial, trivial⟩) fun _ _ eq => ⟨eq, trivial⟩
  uncompiled {s t c slot failure} valid _ failed := by
    have kept : t.library = lib := by
      rw [← valid, ← compileSlot_library s slot c, failed]
    exact ⟨kept, trivial, compileFresh_fails (valid ▸ conforms) (compileSlot_error failed)⟩
  picksMethod valid _ :=
    (onStore_library _ valid).imp (fun _ _ eq => ⟨eq, trivial, fun _ _ => trivial⟩)
    fun _ _ eq => ⟨eq, trivial⟩
  picksValue _ _ _ := trivial
  branch _ _ _ _ _ _ _ := trivial
  openBranch _ _ _ _ _ _ := trivial
  loop _ _ _ _ _ _ _ _ _ _ := trivial

/-- Calling a program with an origin does not fail for want of a value in its frame. -/
lemma Origin.reads (origin : Origin P prog g root) (stateless : ¬HandsOutState g root) (m : Machine)
    (conforms : m.session.library.Conforms (.inner P)) (args : List Value)
    (failed : (invoke prog args).run m = (.error d, after)) : ¬OwnRead d := by
  obtain ⟨listed, names, plan, loops, src⟩ := origin.compiledFrom
  have ends := src.invokes (anyValue m.session.library conforms g root args _ m.stepsLeft) listed
    (Nat.le_refl m.stepsLeft) (m := m) rfl
  exact (ends.of_error failed).2.2 stateless

/-- All addresses of a program with an origin lie in its frame, so the frame never grows. -/
lemma Origin.frame (origin : Origin P prog g root) :
    Confined prog.frameSize prog.code ∧ prog.ret < prog.frameSize ∧
    prog.params ≤ prog.frameSize := by
  obtain ⟨-, names, plan, loops, src⟩ := origin.compiledFrom
  obtain ⟨confined, ret⟩ := src.confined
  refine ⟨confined, ret, ?_⟩
  rw [src.params, src.frameSize]
  exact src.compiled.planned.laid.reserved_le

/-- What a host may change about a session besides compiling, running and forgetting: everything but
the slots, as long as the library conforms. -/
def KeepsSlots (P : Native → Prop) (s s' : Session) : Prop :=
  s'.slots = s.slots ∧ s'.library.Conforms (.inner P)

lemma stocked_of_reached {start s : Session} (empty : start.slots = {})
    (conforms : start.library.Conforms (.inner P))
    (reached : Relation.ReflTransGen (Session.Step (KeepsSlots P) fun _ _ => True) start s) :
    s.Stocked P := by
  induction reached with
  | refl =>
    refine ⟨conforms, fun slot prog found => ?_⟩
    rw [empty] at found
    cases found
  | tail _ step ih =>
    refine ih.step (fun stocked changed => ⟨changed.2, fun slot prog found => ?_⟩) step
    rw [changed.1] at found
    exact stocked.programs slot prog found

/-- Every program that a session compiles has come from a settled graph. None of its addresses lies
outside its frame, which never grows during a run; and unless an output of the graph is the state of
a loop, no call of the program, with any budget, fails because it reads an address of its own frame
that holds nothing. No assembler of the library may make a node for a parameter: the circuits that
are instantiated have such nodes of their own, and nothing would write the address of another. -/
theorem compiled_program_reads_written {start session after : Session} {name : String}
    {program : Program}
    (empty : start.slots = {}) (conforms : start.library.Conforms (.inner P))
    (reached : Relation.ReflTransGen (Session.Step (KeepsSlots P) fun _ _ => True) start session)
    (compiled : session.compile name = (.ok program, after)) :
    (∃ graph root, Origin P program graph root) ∧
      (Confined program.frameSize program.code ∧ program.ret < program.frameSize ∧
        (∀ arguments, arguments.length = program.params →
          (Frame.withArguments program.frameSize arguments).size = program.frameSize) ∧
        ∀ fuel, (Machine.running fuel program.code).Keeps fun m =>
        m.frame.size = program.frameSize) ∧
      ∀ graph root, Origin P program graph root → ¬HandsOutState graph root →
        ∀ (m : Machine) (arguments : List Value) (d : Diagnostic) (m' : Machine),
          m.session.library.Conforms (.inner P) →
          (Machine.invoke program arguments).run m = (.error d, m') → ¬OwnRead d := by
  obtain ⟨graph, root, origin⟩ := (stocked_of_reached empty conforms reached).compile compiled
  obtain ⟨confined, ret, params⟩ := origin.frame
  refine ⟨⟨graph, root, origin⟩, ⟨confined, ret, fun arguments fits => ?_, fun fuel => ?_⟩, ?_⟩
  · exact Frame.size_withArguments (fits ▸ params)
  · exact (running_outlasts fuel).1 program.code confined.outlasts
  · exact fun graph root origin stateless m arguments d m' conforms failed =>
      origin.reads stateless m conforms arguments failed

/-- Counts down in a loop, and hands out the last state or a pair, as a switch tells. -/
def countdown : Circuit where
  name := "countdown"
  inputs := ["start", "one"]
  outputs := ["result"]
  blocks := [
    { blockType := "begin", inputs := ["start"], outputs := ["state"] },
    { blockType := "sub", inputs := ["state", "one"], outputs := ["next"] },
    { blockType := "end", inputs := ["state", "next", "state"], outputs := ["last"] },
    { blockType := "pack", inputs := ["start", "last"], outputs := ["pair"] },
    { blockType := "switch", inputs := ["one", "last", "pair"], outputs := ["result"] }]

def countdownSession : Session := .make (Library.builtin.insertAll [countdown])

lemma countdown_conforms : countdownSession.library.Conforms (.inner fun _ => True) :=
  (Library.builtin_conforms (EditRules.inner_expanding _) (fun _ inner => inner) fun _ _ =>
    trivial).insertAll
    [countdown]

/-- Whether all outputs of a circuit stand for nodes that are no begin. -/
def outputsCompute (s : Session) (name : String) : Bool :=
  match (Expand.instantiate s.library name []).run { store := s.store } with
  | (.ok root, w) =>
    let g := (w.settle s.environment s.config.settleLimit).2.graph
    root.outputs.all fun output =>
      match resolve g output with
      | .ok (some target) => kindOf g target != .loopBegin
      | _ => false
  | _ => false

lemma stateless_of_outputsCompute {store : Store} (computes : outputsCompute s name)
    (settled : Settled s.environment s.config.settleLimit name s.store store g root) :
    ¬HandsOutState g root := by
  rintro ⟨output, isOutput, first, stands, isBegin⟩
  obtain ⟨w, instantiated, reached⟩ := settled.reached
  rw [outputsCompute, show s.library = s.environment.library from rfl, instantiated] at computes
  simp only [reached, List.all_eq_true] at computes
  have computed := computes output isOutput
  split at computed
  next target resolved =>
    cases stands.unique (resolve_standsFor resolved)
    simp [isBegin] at computed
  next => cases computed

theorem countdown_reads_written :
    ∃ program after graph root, countdownSession.compile "countdown" = (.ok program, after) ∧
      Origin (fun _ => True) program graph root ∧ ¬HandsOutState graph root ∧
      Confined program.frameSize program.code ∧ program.ret < program.frameSize ∧
      ∀ (m : Machine) (arguments : List Value) (d : Diagnostic) (m' : Machine),
        m.session.library.Conforms (.inner fun _ => True) →
        (Machine.invoke program arguments).run m = (.error d, m') → ¬OwnRead d := by
  have unfilled : (countdownSession.slotOf "countdown").2.slots.programs = #[none] := rfl
  have compiles : (countdownSession.compile "countdown").1.isOk = true := by decide +kernel
  have computes : outputsCompute (countdownSession.slotOf "countdown").2 "countdown" = true := by
    decide +kernel
  rcases compiled : countdownSession.compile "countdown" with ⟨failure | program, after⟩
  · rw [compiled] at compiles
    cases compiles
  · obtain ⟨-, ⟨confined, ret, -⟩, reads⟩ :=
      compiled_program_reads_written rfl countdown_conforms .refl compiled
    rcases Session.compile_ok compiled with ⟨found, -⟩ | ⟨made, fresh, -⟩
    · rw [Slots.program?, unfilled] at found
      cases found
    · obtain ⟨store, graph, root, graph', slots, settled, compiled', -⟩ :=
        Session.compileFresh_ok fresh
      have origin : Origin (fun _ => True) program graph root :=
        ⟨_, _, _, _, _, _, countdown_conforms, settled, by rw [compiled']⟩
      have stateless := stateless_of_outputsCompute computes settled
      exact ⟨program, after, graph, root, rfl, origin, stateless, confined, ret,
        reads graph root origin stateless⟩

/-! ## Parameters that no circuit declares -/

/-- Makes a node for the first parameter, whatever circuit the block is in. -/
def firstParameter : Assembler := fun assembly => return [← assembly.addDetached (.param 0) 0]

/-- Hands out a node for its parameter that a block made. -/
def forwarding : Circuit where
  name := "forwarding"
  inputs := ["x"]
  outputs := ["y"]
  blocks := [{ blockType := "first", outputs := ["y"] }]

def forwardingSession : Session :=
  .make ((Library.builtin.register "first" firstParameter).insert forwarding)

/-- The failure of a compiled circuit on some arguments. -/
def failureOn (s : Session) (name : String) (args : List Value) : Option Diagnostic :=
  match s.compile name with
  | (.ok prog, after) =>
    match (Machine.invoke prog args).run (.start after) with
    | (.error d, _) => some d
    | _ => none
  | _ => none

/-- The address of a parameter that a block made is read, and nothing writes it. -/
theorem stray_parameter_unwritten : outputsCompute forwardingSession "forwarding" = true ∧
    ∃ program after d m', forwardingSession.compile "forwarding" = (.ok program, after) ∧
      (Machine.invoke program [default]).run (.start after) = (.error d, m') ∧ OwnRead d := by
  refine ⟨by decide +kernel, ?_⟩
  have failure : failureOn forwardingSession "forwarding" [default] =
      some (Diagnostic.inCircuit { problem := .unwrittenRead 1 } "forwarding") := by decide +kernel
  rw [failureOn] at failure
  split at failure
  next program after compiled =>
    rcases ran : (Machine.invoke program [default]).run (.start after) with ⟨d | _, m'⟩ <;>
      rw [ran] at failure <;> cases failure
    exact ⟨program, after, _, m', compiled, ran, ⟨1, rfl⟩, rfl, rfl, rfl⟩
  next => cases failure

end Blockflow
