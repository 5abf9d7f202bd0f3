import Blockflow.Proofs.Compile.Plan

/-!
# Where sources lie

What a node reads is a parameter, or it was visited before and is computed in the scope in which it
is read or around it. For a node that is no begin this is what placement is for; the begin of a loop
stays inside its loop because the compiler checked all its uses.
-/

namespace Blockflow.Compile

/-- A parameter, or a node visited before that is computed in the scope or around it. -/
def Provided (root : Root) (plan : Plan) (before : List Visit) (id : Handle) (scope : Nat) : Prop :=
  isParamOf root id ∨ id ∈ before.map Visit.node ∧
    ∃ own, plan.placement.scopes.lookup id = some own ∧
      plan.placement.tree.Encloses own scope

namespace Planned

variable {g : Graph} {root : Root} {plan : Plan} {loops : List (Handle × Handle)}
  {earlier later : List Visit} {visit : Visit} {pin : Nat} {id : Handle} {scope body : Nat}

variable (planned : Planned g root plan loops)
include planned

/-- A begin that is read lies around its reader, or the reader is the end of its loop. -/
lemma begin_scope (placed : plan.placement.scopes.lookup id = some own)
    (isBegin : kindOf g id = .loopBegin)
    (mem : use ∈ usesOf plan.order id) : kindOf g use.reader.node = .loopEnd ∧
        plan.placement.loops.lookup use.reader.node = some own ∨
      ∃ scope, plan.placement.scopes.lookup use.reader.node = some scope ∧
      plan.placement.tree.Encloses own scope := by
  obtain ⟨loopEnd, closes, isBody⟩ := planned.placed.begins placed isBegin
  obtain ⟨body, isBody', uses⟩ := planned.inside _ (lookup_mem closes)
  obtain rfl := Option.some.inj (isBody.symm.trans isBody')
  refine (uses use mem).imp_left fun eq => ?_
  rw [show use.reader.node = loopEnd from eq]
  exact ⟨(planned.ordered.closes _ (lookup_mem closes)).2.1, isBody⟩

lemma begin_unique (placedA : plan.placement.scopes.lookup a = some scope)
    (placedB : plan.placement.scopes.lookup b = some scope)
    (beginA : kindOf g a = .loopBegin) (beginB : kindOf g b = .loopBegin) : a = b := by
  obtain ⟨endA, closesA, bodyA⟩ := planned.placed.begins placedA beginA
  obtain ⟨endB, closesB, bodyB⟩ := planned.placed.begins placedB beginB
  obtain ⟨-, -, -, kindA⟩ := planned.placed.sound.loop bodyA
  obtain ⟨-, -, -, kindB⟩ := planned.placed.sound.loop bodyB
  cases kindA.symm.trans kindB
  exact planned.ordered.eq_of_loops (lookup_mem closesA) (lookup_mem closesB)

section

variable (split : plan.order = earlier ++ visit :: later) (src : visit.sources[pin]? =
  some (some id))
include split src

/-- A source is a parameter or was visited before, and then it lies around the scope in which it is
read. A begin is read in its loop. -/
lemma provided
    (begins : ∀ {own}, id ∈ earlier.map Visit.node → plan.placement.scopes.lookup id = some own →
      kindOf g id = .loopBegin →
      (kindOf g visit.node = .loopEnd ∧ plan.placement.loops.lookup visit.node = some own ∨
        ∃ scope, plan.placement.scopes.lookup visit.node = some scope ∧
          plan.placement.tree.Encloses own scope) → plan.placement.tree.Encloses own target)
    (reads : ∀ {own}, plan.placement.scopes.lookup id = some own → kindOf g id ≠ .loopBegin →
      ReadsIn g plan.placement ⟨visit, pin⟩ (some target)) :
    Provided root plan earlier id target := by
  refine (planned.ordered.before split id (List.mem_of_getElem? src)).imp_right fun found => ?_
  have inside : id ∈ plan.order.map Visit.node := by
    rw [split, List.map_append]
    exact List.mem_append_left _ found
  have mem : ⟨visit, pin⟩ ∈ usesOf plan.order id := mem_usesOf.mpr ⟨by simp [split], src⟩
  obtain ⟨own, placed⟩ := (planned.placed.covers id).mp inside
  refine ⟨found, own, placed, ?_⟩
  by_cases isBegin : kindOf g id = .loopBegin
  · exact begins found placed isBegin (planned.begin_scope placed isBegin mem)
  · exact (planned.placed.hoisted placed isBegin).all _ mem _ (reads placed isBegin)

/-- A source of a node that is read in the scope of the node. -/
lemma plain_source (placed : plan.placement.scopes.lookup visit.node = some scope)
    (notEnd : kindOf g visit.node ≠ .loopEnd) (notBegin : kindOf g visit.node ≠ .loopBegin)
    (notBranch : kindOf g visit.node = .switch → pin = 0) :
    Provided root plan earlier id scope := by
  refine planned.provided split src ?_ fun _ _ => .plain notEnd notBegin notBranch placed
  rintro own - - - (⟨isEnd, -⟩ | ⟨other, placed', encloses⟩)
  · exact absurd isEnd notEnd
  · cases placed.symm.trans placed'
    exact encloses

/-- The next state and the condition of a loop are read inside the loop. -/
lemma round_source (isEnd : kindOf g visit.node = .loopEnd) (notFirst : pin ≠ 0)
    (isBody : plan.placement.loops.lookup visit.node = some body) :
    Provided root plan earlier id body := by
  refine planned.provided split src ?_ fun _ _ => .round isEnd notFirst isBody
  rintro own - - - (⟨-, isBody'⟩ | ⟨scope, placed, encloses⟩)
  · cases isBody.symm.trans isBody'
    exact .refl _ _
  · obtain ⟨scope', placed', lies, -⟩ := planned.placed.sound.loop isBody
    cases placed.symm.trans placed'
    exact encloses.trans (.of_liesIn lies)

lemma init_source (isBegin : kindOf g visit.node = .loopBegin)
    (placed : plan.placement.scopes.lookup visit.node = some body)
    (lies : plan.placement.tree.LiesIn body scope) : Provided root plan earlier id scope := by
  refine planned.provided split src ?_ fun _ _ => ?_
  · rintro own found placedSource sourceBegins (⟨isEnd, -⟩ | ⟨body', placed', encloses⟩)
    · cases isBegin.symm.trans isEnd
    · cases placed.symm.trans placed'
      refine encloses.of_ne ?_ lies
      -- The begin would read itself.
      rintro rfl
      obtain rfl := planned.begin_unique placedSource placed sourceBegins isBegin
      have nodup := planned.ordered.nodup
      rw [split, List.map_append, List.nodup_append] at nodup
      exact nodup.2.2 _ found _ (by simp) rfl
  · have reads : ReadsIn g plan.placement ⟨visit, pin⟩ _ := .init isBegin placed
    rwa [show plan.placement.tree.parent? body = some scope from lies] at reads

end

/-- The result of a branch is read in the scope of the branch; a branch without a scope is one that
passes on the state of a loop around the switch. -/
lemma branch_source (split : plan.order = earlier ++ visit :: later)
    (src : visit.sources[i + 1]? = some (some id)) (isSwitch : kindOf g visit.node = .switch)
    (placed : plan.placement.scopes.lookup visit.node = some scope) : Provided root plan earlier id
      ((((plan.placement.branches.lookup visit.node).getD [])[i]?).getD scope) := by
  refine planned.provided split src ?_ fun placedSource isBegin => ?_
  · rintro own - - - (⟨isEnd, -⟩ | ⟨scope', placed', encloses⟩)
    · cases isSwitch.symm.trans isEnd
    · cases placed.symm.trans placed'
      cases opened : ((plan.placement.branches.lookup visit.node).getD [])[i]? with
      | none => exact encloses
      | some branch =>
        obtain ⟨-, around, placed'', lies⟩ := planned.placed.sound.opened_branch opened
        cases placed.symm.trans placed''
        exact encloses.trans (.of_liesIn lies)
  · have mem : ⟨visit, i + 1⟩ ∈ usesOf plan.order id := mem_usesOf.mpr ⟨by simp [split], src⟩
    obtain ⟨target, _, reads, -, -⟩ :=
      planned.placed.use_target planned.ordered placedSource isBegin mem
    have reads' := reads
    generalize goal : some target = answer at reads
    cases reads with
    | loopName isEnd => cases isSwitch.symm.trans isEnd
    | round isEnd => cases isSwitch.symm.trans isEnd
    | init isBegin' => cases isSwitch.symm.trans isBegin'
    | plain _ _ notBranch => exact absurd (notBranch isSwitch) (Nat.succ_ne_zero i)
    | branch _ pin branches =>
      cases Nat.succ.inj pin
      rw [branches, Option.getD_some, ← goal]
      exact reads'

end Planned

end Blockflow.Compile
