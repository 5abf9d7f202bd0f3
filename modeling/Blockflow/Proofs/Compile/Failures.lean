import Blockflow.Proofs.Compile.Emission

/-!
# Failures of the compiler

Apart from a value that escapes its loop, which only the checks of the loops report, the compiler
fails with problems of wiring, or because a node lacks a pin or a loop a scope. Whether it succeeds
or not, it asks for the slots of the called circuits and changes nothing else about slots.
-/

namespace Blockflow.Compile

open Effect

/-- The problems of graphs whose nodes are not wired as a program needs it. -/
def IsWiring (d : Diagnostic) : Prop :=
  d.kind = .definition ∧ match d.problem with
  | .passCycle | .unresolvedOutput | .nodeRemoved | .unresolvedInput | .unconnectedInput _
  | .unconnectedOutput _ | .endWithoutBegin | .beginClosedTwice | .beginWithoutEnd | .endUnreachable
  | .dependencyCycle | .noAddress | .wrongInputCount .. => True
  | _ => False

/-- A pin or the scope of a loop is not there. -/
def IsCrash (d : Diagnostic) : Prop := d.problem = .indexOutOfRange

/-- A visit has the pins that its instruction reads, and the scope of the loop that it closes. -/
def Furnished (g : Graph) (a : Addresses) (visit : Visit) : Prop :=
  match (g.node? visit.node).map Node.behavior with
  | some (.unpack _) => 0 < visit.sources.length
  | some .loopEnd => 2 < visit.sources.length ∧ a.placement.loops.lookup visit.node ≠ none
  | _ => True

variable {g : Graph}

/-! ## The walk -/

variable (root : Root) (walk : Walk) (isParam : Handle → Bool) (a : Addresses) (order : List Visit)
  (loops : List (Handle × Handle)) (id : Handle) (visit : Visit)

lemma resolve_fails : FailsWith IsWiring (resolve g id) := by
  suffices within : ∀ lookups id, FailsWith IsWiring (resolveWithin g lookups id) from within _ id
  intro lookups
  induction lookups with
  | zero => exact fun id => .error ⟨rfl, trivial⟩
  | succ lookups ih =>
    intro id
    rw [resolveWithin]
    cases g.node? id with
    | none => exact .ok none
    | some n =>
      simp only
      split
      · exact .ok _
      · split
        · exact .error ⟨rfl, trivial⟩
        · cases n.source? 0 with
          | none => exact .ok none
          | some src => exact ih src

lemma sourcesOf_fails : FailsWith IsWiring (sourcesOf g id) := by
  have pins : ∀ kind pin inputs, FailsWith IsWiring (resolvePins g id kind pin inputs) := by
    intro kind pin inputs
    induction inputs generalizing pin with
    | nil => exact .ok []
    | cons input inputs ih =>
      have rest : ∀ src : Option Handle,
          FailsWith IsWiring (if src.isNone && !(kind == .switch && 0 < pin) then
            throw (Diagnostic.atNode (Diagnostic.atPin { problem := .unconnectedInput pin } pin) id)
          else do return src :: (← resolvePins g id kind (pin + 1) inputs)) := by
        intro src
        split
        · exact .error ⟨rfl, trivial⟩
        · exact (ih (pin + 1)).bind fun _ => .ok _
      cases input with
      | none => exact rest none
      | some input => exact (resolve_fails input).bind rest
  rw [sourcesOf]
  cases g.node? id with
  | none => exact .error ⟨rfl, trivial⟩
  | some n =>
    cases pending : n.pending with
    | nil =>
      simp only [pending]
      exact pins _ _ _
    | cons first rest =>
      simp only [pending]
      exact .error ⟨rfl, trivial⟩

lemma closeLoop_fails
    (sources : List (Option Handle)) : FailsWith IsWiring (closeLoop g loops id sources) := by
  rw [closeLoop]
  split
  · split
    · exact .error ⟨rfl, trivial⟩
    · split
      · split
        · exact .ok _
        · exact .error ⟨rfl, trivial⟩
      · exact .ok _
  · exact .error ⟨rfl, trivial⟩

lemma enter_fails : FailsWith IsWiring (walk.enter g id) := by
  refine (sourcesOf_fails id).bind fun sources => ?_
  split
  · exact (closeLoop_fails walk.loops id sources).bind fun _ => .ok _
  · exact .ok _

lemma run_fails (steps : Nat) (walk : Walk) : FailsWith IsWiring (walk.run g isParam steps) := by
  induction steps generalizing walk with
  | zero => exact .ok walk
  | succ steps ih =>
    rw [Walk.run]
    split
    · exact .ok walk
    · exact ih _
    · split
      · exact ih _
      · dsimp only
        split
        · exact ih _
        · split
          · exact .error ⟨rfl, trivial⟩
          · split
            next failed => exact .error (enter_fails _ _ _ failed)
            next => exact ih _

lemma walkOutputs_fails (outs : List (Handle × String)) (walk : Walk) :
    FailsWith IsWiring (walkOutputs g isParam outs walk) := by
  induction outs generalizing walk with
  | nil => exact .ok _
  | cons out outs ih =>
    refine (resolve_fails out.1).bind fun target => ?_
    cases target with
    | none => exact .error ⟨rfl, trivial⟩
    | some src =>
      have visited : FailsWith IsWiring (walk.visit g isParam src) := by
        rw [Walk.visit]
        split
        · exact .ok walk
        · exact (enter_fails walk src).bind fun _ => run_fails isParam _ _
      exact visited.bind fun _ => (ih _).bind fun _ => .ok _

/-! ## Placement -/

lemma placeNode_fails (outs : List Handle)
    (p : Placement) (id : Handle) : FailsWith IsWiring (placeNode g order loops outs p id) := by
  rw [placeNode]
  split
  · split
    · exact .error ⟨rfl, trivial⟩
    · split
      · exact .error ⟨rfl, trivial⟩
      · exact .ok _
  · exact .ok _

/-- The check of a loop reports a value that escapes, or a scope that is missing. -/
lemma checkLoop_fails (p : Placement) (loop : Handle × Handle) :
    FailsWith (fun d => d.kind = .definition ∧ d.problem = .valueEscapesLoop ∨ IsCrash d ∧
      p.loops.lookup loop.2 = none)
      (checkLoop order p loop) := by
  rw [checkLoop]
  split
  next missing => exact .error (.inr ⟨rfl, missing⟩)
  next =>
    split
    · exact .error (.inl ⟨rfl, rfl⟩)
    · exact .ok ()

/-! ## Emission -/

lemma get_fails : FailsWith IsWiring (a.get id) := by
  rw [Addresses.get]
  split
  · exact .ok _
  · exact .error ⟨rfl, trivial⟩

lemma insOf_fails : FailsWith IsWiring (insOf a visit) := by
  refine .mapM (fun ⟨src, pin⟩ => ?_) _
  cases src with
  | none => exact .error ⟨rfl, trivial⟩
  | some src => exact get_fails a src

lemma insOf_length (found : insOf a visit = .ok ins) : ins.length = visit.sources.length := by
  simpa using (mapM_eq_ok.mp found).length_eq.symm

lemma pinOf_fails (found : insOf a visit = .ok ins) (lacks : ¬pin < visit.sources.length → Lacks) :
    FailsWith (fun d => IsWiring d ∨ IsCrash d ∧ Lacks) (pinOf ins pin) := by
  rw [pinOf]
  split
  next => exact .ok _
  next missing =>
    refine .error (.inr ⟨rfl, lacks ?_⟩)
    rw [← insOf_length a visit found]
    exact Nat.not_lt.mpr (List.getElem?_eq_none_iff.mp missing)

variable (slots : Slots)

/-- A step of the emission asks only for slots, and every failure has a property. -/
abbrev Asks (P : Diagnostic → Prop) {α : Type} (step : Emit α) : Prop :=
  step.Guards (fun e => SlotsAsked slots e.slots) P

lemma take_asks (scope : Nat) : Asks slots P (ofState (Emission.take scope)) := fun _ asked => asked

lemma loopInstruction_asks (out : Nat) : Asks slots (fun d => IsWiring d ∨
      IsCrash d ∧ ¬(2 < visit.sources.length ∧ a.placement.loops.lookup visit.node ≠ none))
    (loopInstruction a order visit out) := by
  rw [loopInstruction]
  split
  · exact .fail (.inl ⟨rfl, trivial⟩)
  · dsimp only
    split
    · exact .fail (.inl ⟨rfl, trivial⟩)
    · split
      next missing => exact .fail (.inr ⟨rfl, fun has => has.2 missing⟩)
      next =>
        refine .ofExcept_bind ((insOf_fails a visit).mono fun _ => .inl) fun ins found => ?_
        refine .ofExcept_bind ((get_fails a _).mono fun _ => .inl) fun _ _ => ?_
        refine .ofExcept_bind ((get_fails a _).mono fun _ => .inl) fun _ _ => ?_
        refine .ofExcept_bind (pinOf_fails a visit found fun less has => less (by omega)) fun _ _ =>
          ?_
        refine .ofExcept_bind (pinOf_fails a visit found fun less has => less has.1) fun _ _ => ?_
        exact (take_asks slots _).bind fun _ => .pure _

lemma branchesOf_asks (scopes : List Nat)
    (pins : List (Option Handle × Nat)) : Asks slots IsWiring (branchesOf a scopes pins) := by
  induction pins with
  | nil => exact .pure []
  | cons pin pins ih =>
    obtain ⟨src, i⟩ := pin
    have rest : ∀ code, Asks slots IsWiring (do
        let result ← src.mapM fun src => (ofExcept (a.get src) : Emit Nat)
        return Branch.mk code result :: (← branchesOf a scopes pins)) := by
      intro code
      refine .bind ?_ fun _ => ih.bind fun _ => .pure _
      cases src with
      | none => exact .pure none
      | some src => exact .ofExcept_bind (get_fails a src) fun _ _ => .pure _
    rw [branchesOf]
    split
    · exact (take_asks slots _).bind rest
    · exact .bind (.pure []) rest

lemma instructionOf_asks : Asks slots (fun d => IsWiring d ∨ IsCrash d ∧ ¬Furnished g a visit)
    (instructionOf g a order visit) := by
  have ins := (insOf_fails a visit).mono (Q :=
    fun d => IsWiring d ∨ IsCrash d ∧ ¬Furnished g a visit) fun _ => .inl
  refine .ofExcept_bind ((get_fails a visit.node).mono fun _ => .inl) fun out _ => ?_
  split
  · exact .fail (.inl ⟨rfl, trivial⟩)
  · exact .pure _
  · refine .ofExcept_bind ins fun ins _ => .ofExcept_bind ?_ fun _ _ => .pure _
    rw [Native.bind]
    split
    · exact .ok _
    · exact .error (.inl ⟨rfl, trivial⟩)
  · exact .ofExcept_bind ins fun _ _ => .pure _
  · exact .ofExcept_bind ins fun _ _ => .pure _
  next isUnpack =>
    refine .ofExcept_bind ins fun ins found =>
      .ofExcept_bind (pinOf_fails a visit found fun less has => ?_) fun _ _ => .pure _
    rw [Furnished, isUnpack] at has
    exact less has
  next c _ =>
    have called : Asks slots (fun d => IsWiring d ∨ IsCrash d ∧ ¬Furnished g a visit)
        (ofState (Emission.callee c)) := fun _ asked => asked.tail ⟨c, rfl⟩
    exact called.bind fun _ => .ofExcept_bind ins fun _ _ => .pure _
  next isEnd =>
    refine .bind ?_ fun _ => .pure _
    rw [Furnished, isEnd]
    exact loopInstruction_asks a order visit slots out
  · refine .bind (.bind ((branchesOf_asks a slots _ _).mono fun _ => .inl) fun _ => ?_) fun _ =>
      .pure _
    split
    · exact .fail (.inl ⟨rfl, trivial⟩)
    · exact .ofExcept_bind ((get_fails a _).mono fun _ => .inl) fun _ _ => .pure _
  all_goals exact .pure none

lemma code_asks (plan : Plan) : Asks slots (fun d => IsWiring d ∨
      IsCrash d ∧ ∃ visit ∈ plan.order, ¬Furnished g plan.addresses visit) (code g plan) := by
  have emitted : ∀ visits ⊆ plan.order, Asks slots (fun d => IsWiring d ∨ IsCrash d ∧
      ∃ visit ∈ plan.order, ¬Furnished g plan.addresses visit)
        (emit g plan.addresses plan.order visits) := by
    intro visits among
    induction visits with
    | nil => exact .pure ()
    | cons visit visits ih =>
      obtain ⟨mem, among⟩ := List.cons_subset.mp among
      refine .bind ((instructionOf_asks plan.addresses plan.order visit slots).mono fun _ =>
        .imp_right (.imp_right fun lacks => ⟨visit, mem, lacks⟩)) fun instr => ?_
      cases instr with
      | none => exact ih among
      | some instr => exact fun _ asked => ih among _ asked
  have found : ∀ id, FailsWith (fun d => IsWiring d ∨ IsCrash d ∧ ∃ visit ∈ plan.order,
      ¬Furnished g plan.addresses visit) (plan.addresses.get id) := fun id =>
    (get_fails plan.addresses id).mono fun _ => .inl
  refine (emitted plan.order (List.Subset.refl _)).bind fun _ =>
    (take_asks slots _).bind fun code => ?_
  split
  · refine .bind ?_ fun _ => .pure _
    induction plan.outputs with
    | nil => exact .pure []
    | cons output outs ih =>
      rw [List.mapM_cons]
      exact .ofExcept_bind (found output) fun _ _ => ih.bind fun _ => .pure _
  · split
    · exact .ofExcept_bind (found _) fun _ _ => .pure _
    · exact .pure _

/-! ## Compilation -/

lemma plan_fails :
    FailsWith (fun d => IsWiring d ∨ d.kind = .definition ∧ d.problem = .valueEscapesLoop ∨
      IsCrash d) (plan g root) := by
  refine FailsWith.bind ((walkOutputs_fails _ _ _).mono fun _ => .inl) fun walked => ?_
  refine FailsWith.bind (FailsWith.bind ?_ fun p => FailsWith.bind ?_ fun _ => .ok _)
    fun placement => .ok _
  · exact (FailsWith.foldlM (placeNode_fails _ _ _) _ _).mono fun _ => .inl
  · intro d failed
    obtain ⟨loop, -, failed⟩ := forM_eq_error failed
    exact .inr ((checkLoop_fails _ p loop d failed).imp_right And.left)

variable (g) in
/-- Compiling asks for slots, whether it succeeds or not. -/
lemma compile_asks : SlotsAsked slots (compile g root slots).2.2 ∧
    FailsWith (fun d => IsWiring d ∨ d.kind = .definition ∧
      d.problem = .valueEscapesLoop ∨ IsCrash d)
      (compile g root slots).1 := by
  rw [compile]
  split
  next d failed => exact ⟨.refl, .error (plan_fails root d failed)⟩
  next plan _ =>
    have asks : (code g plan).Ends .. := code_asks slots plan { slots } .refl
    split
    next ran =>
      obtain ⟨fails, asked⟩ := asks.of_error ran
      exact ⟨asked, .error (fails.imp_right fun missing => .inr missing.1)⟩
    next ran => exact ⟨asks.of_ok ran, .ok _⟩

end Blockflow.Compile
