import Blockflow.Proofs.Compile.LoopEscape
import Blockflow.Proofs.Compile.Programs
import Blockflow.Proofs.Scope.Ranges

/-!
# What instructions write

An instruction writes the address of its node, and whatever else it changes lies in the extents of
the scopes that the node opens: a loop empties the extent of its body before every round, and code
that stands in a loop or a branch was emitted for nodes placed there.
-/

namespace Blockflow.Compile

open List Machine ScopeTree

variable {g : Graph} {root : Root} {plan : Plan} {loops : List (Handle × Handle)}
  {Named : String → Nat → Prop} {instr : Instruction} {before : List Visit}
  {visit : Visit} {scope : Nat}

/-- The extents of the scopes that a node opens inside its own. -/
def Inner (plan : Plan) (id : Handle) (scope : Nat) : Set Nat :=
  {addr | ∃ inner, OpenedBy plan.placement.tree id inner ∧ plan.placement.tree.LiesIn inner scope ∧
    addr ∈ plan.placement.tree.reach inner}

/-- The frames that agree with another one at all addresses but some. -/
def AgreesOutside (frame : Frame) (changed : Set Nat) (other : Frame) : Prop :=
  ∀ addr, addr ∉ changed → other.get? addr = frame.get? addr

namespace AgreesOutside

variable {frame other : Frame} {changed : Set Nat} {addr : Nat}

lemma set (agrees : AgreesOutside frame changed other) (inside : addr ∈ changed) (v : Value) :
    AgreesOutside frame changed (other.set addr v) := by
  intro place outside
  rw [Frame.get?_set, if_neg (show place ≠ addr from fun eq => outside (eq ▸ inside))]
  exact agrees place outside

lemma clear (agrees : AgreesOutside frame changed other) {start stop : Nat}
    (inside : Set.Ico start stop ⊆ changed) :
    AgreesOutside frame changed (other.clear start stop) := by
  intro place outside
  rw [Frame.get?_clear,
    if_neg (show ¬(start ≤ place ∧ place < stop) from fun cleared => outside (inside cleared))]
  exact agrees place outside

end AgreesOutside

/-- The output of an instruction is the address of its node, and what a loop does besides stays in
its body. -/
lemma Emitted.writes (site : Site g root plan loops before visit scope)
    (emitted : Emitted g plan.addresses plan.order Named before visit instr) :
    plan.addresses.find? visit.node = some instr.output ∧ ∀ addrs body, instr = .loop addrs body →
      ∃ inner, OpenedBy plan.placement.tree visit.node inner ∧
      plan.placement.tree.LiesIn inner scope ∧
        addrs.state ∈ plan.placement.tree.own inner ∧
        Set.Ico addrs.clearFrom addrs.clearTo = plan.placement.tree.reach inner := by
  cases emitted with
  | loop behavior _ mem closes _ isBody _ stateAddress _ _ outAddress cleared =>
    refine ⟨outAddress, fun addrs body eq => ?_⟩
    cases eq
    obtain ⟨_, placed, lies, kind⟩ := site.planned.placed.sound.loop isBody
    cases site.placed.symm.trans placed
    have state := site.begin_placed (Site.kindOf_eq behavior) mem closes isBody
    refine ⟨_, .inl kind, lies, site.planned.address_bounds state stateAddress, ?_⟩
    rw [reach, ← cleared]
  | const _ addr | op _ _ addr | virtual _ _ addr | pack _ _ addr | unpack _ _ _ addr
  | call _ _ _ addr | switch _ _ _ _ _ _ _ _ addr => exact ⟨addr, fun _ _ eq => by cases eq⟩

/-- Whatever stands in the code of a scope changes addresses of the extent of that scope only. -/
lemma CodeOf.outlasts {code : List Instruction} {frame : Frame} {changed : Set Nat}
    (planned : Planned g root plan loops)
    (coded : CodeOf g plan.addresses plan.order Named scope [] done code)
    (split : plan.order = done ++ later) (inside : plan.placement.tree.reach scope ⊆ changed) :
    Outlasts (AgreesOutside frame changed) code := by
  intro instr occurs
  have sound := planned.placed.sound
  obtain ⟨before, visit, after, own, split, placed, around, emitted⟩ :=
    emittedIn_of_occurs sound coded split occurs
  have site : Site g root plan loops before visit own := ⟨planned, ⟨after, split⟩, placed⟩
  obtain ⟨addr, rounds⟩ := emitted.writes site
  have within := planned.laid.own_subset_reach sound.tree site.inside around
  refine ⟨fun frame v agrees => agrees.set (inside (within (planned.address_bounds placed addr))) v,
    ?_⟩
  rintro addrs body rfl frame v agrees
  obtain ⟨inner, -, lies, state, cleared⟩ := rounds addrs body rfl
  have around' := around.trans (.of_liesIn lies)
  refine (agrees.clear ?_).set
    (inside (planned.laid.own_subset_reach sound.tree lies.lt_size around' state)) v
  exact cleared ▸ (planned.laid.reach_subset_reach sound.tree lies.lt_size around').trans inside

/-- The instruction of a node changes the address of the node and the extents of the scopes that the
node opens. -/
lemma Emitted.outlasts (site : Site g root plan loops before visit scope) (frame : Frame)
    (emitted : Emitted g plan.addresses plan.order Named before visit instr) :
    Outlasts (AgreesOutside frame (insert instr.output (Inner plan visit.node scope))) [instr] := by
  have sound := site.planned.placed.sound
  obtain ⟨later, split⟩ := site.split
  have opened : ∀ {inner}, OpenedBy plan.placement.tree visit.node inner →
      plan.placement.tree.LiesIn inner scope →
      plan.placement.tree.reach inner ⊆ insert instr.output (Inner plan visit.node scope) :=
    fun opens lies addr reached => .inr ⟨_, opens, lies, reached⟩
  obtain ⟨-, rounds⟩ := emitted.writes site
  intro other occurs
  cases occurs with
  | here mem =>
    cases mem_singleton.mp mem
    refine ⟨fun frame v agrees => agrees.set (.inl rfl) v, ?_⟩
    rintro addrs body rfl frame v agrees
    obtain ⟨inner, opens, lies, state, cleared⟩ := rounds addrs body rfl
    have own := site.planned.laid.own_subset_reach sound.tree lies.lt_size (.refl _ inner) state
    exact (agrees.clear (cleared ▸ opened opens lies)).set (opened opens lies own) v
  | body mem inside =>
    cases mem_singleton.mp mem
    cases emitted with
    | loop _ _ _ _ _ isBody _ _ _ _ _ _ coded =>
      obtain ⟨_, placed, lies, kind⟩ := sound.loop isBody
      cases site.placed.symm.trans placed
      exact coded.outlasts site.planned split (opened (.inl kind) lies) other inside
  | branch mem among inside =>
    cases mem_singleton.mp mem
    cases emitted with
    | @switch _ _ _ _ scopes _ _ _ _ _ isOpened _ coded empty =>
      obtain ⟨i, at'⟩ := getElem?_of_mem among
      cases opens : scopes[i]? with
      | some inner =>
        obtain ⟨isOpen, _, placed, lies⟩ := sound.opened_branch (isOpened ▸ opens)
        cases site.placed.symm.trans placed
        exact (coded at' opens).outlasts site.planned split
          (opened (.inr ⟨i, isOpen⟩) lies) other inside
      | none =>
        rw [empty at' opens] at inside
        exact (not_occurs_nil inside).elim

/-- The instruction was emitted for a node that is placed in a scope. -/
def EmittedFor (g : Graph) (plan : Plan) (id : Handle) (scope : Nat) (instr : Instruction) : Prop :=
  ∃ before visit after, plan.order = before ++ visit :: after ∧ visit.node = id ∧
    plan.placement.scopes.lookup id = some scope ∧
    Emitted g plan.addresses plan.order (fun _ _ => True) before visit instr

variable {g' : Graph} {slots slots' : Slots} {prog : Program}

/-- Every instruction of a compiled program was emitted for a node, or packs the outputs at the end.
Whatever frame the instruction of a node runs on, and whether it succeeds or not, it changes at most
its output and addresses in the extents of the loop and branch scopes that its node opens. So
besides its output it changes no parameter, and nothing that is owned by the scope of its node or by
a scope around it. -/
theorem instructions_change_only_their_own
    (compiled : compile g root slots = (.ok prog, g', slots')) :
    ∃ plan, Compile.plan g root = .ok plan ∧ prog.frameSize = plan.frameSize ∧
      (∀ instr, Occurs instr prog.code → (∃ id scope, EmittedFor g plan id scope instr) ∨
        plan.packed = some prog.ret ∧ ∃ ins, instr = .pack ins prog.ret) ∧
      ∀ instr id scope, EmittedFor g plan id scope instr → plan.addresses.find? id =
        some instr.output ∧
        ∀ fuel m addr, addr ≠ instr.output → (addr ∉ Inner plan id scope ∨ addr < prog.params ∨
            ∃ outer, plan.placement.tree.Encloses outer scope ∧
            addr ∈ plan.placement.tree.own outer) →
          (runWithin fuel [instr] m).2.frame.get? addr = m.frame.get? addr := by
  obtain ⟨plan, loops, src, -⟩ := compile_compiledFrom compiled
  replace src : CompiledFrom g root (fun _ _ => True) prog plan loops :=
    src.rename fun _ _ _ _ _ => trivial
  have planned := src.compiled.planned
  refine ⟨plan, src.isPlan, src.frameSize, fun instr occurs => ?_, ?_⟩
  · refine (src.emitted occurs).imp ?_ (.imp_right (.imp fun _ => And.left))
    rintro ⟨before, visit, after, own, split, placed, -, emitted⟩
    exact ⟨visit.node, own, before, visit, after, split, rfl, placed, emitted⟩
  · rintro instr id scope ⟨before, visit, after, split, rfl, placed, emitted⟩
    have site : Site g root plan loops before visit scope := ⟨planned, ⟨after, split⟩, placed⟩
    refine ⟨(emitted.writes site).1, fun fuel m addr other spared => ?_⟩
    have kept := ((running_outlasts fuel).1 [instr] (emitted.outlasts site m.frame)).after (s :=
      m) fun _ _ => rfl
    refine kept addr fun changed => ?_
    obtain ⟨inner, opened, lies, reached⟩ := changed.resolve_left other
    have wf := planned.placed.sound.tree
    rcases spared with outside | isParam | ⟨outer, around, owned⟩
    · exact outside ⟨inner, opened, lies, reached⟩
    · have above := Nat.le_trans (planned.laid.reserved_le_base wf lies.lt_size) reached.1
      rw [src.params] at isParam
      omega
    · have deeper := Nat.lt_of_le_of_lt (around.le wf) (wf.liesIn lies).1
      exact Set.disjoint_left.mp
        (planned.laid.disjoint_reach (around.trans (.of_liesIn lies)) (Nat.ne_of_lt deeper))
        owned reached

def isLoop : Instruction → Bool
  | .loop .. => true
  | _ => false

theorem packingLoop_changes_only_its_own : ∃ prog g slots plan,
    compile packingLoop (rootOf [3]) {} = (.ok prog, g, slots) ∧
    Compile.plan packingLoop (rootOf [3]) = .ok plan ∧
      ∃ addresses body, Instruction.loop addresses body ∈ prog.code ∧
        ∃ id scope, EmittedFor packingLoop plan id scope (.loop addresses body) ∧
          ∀ fuel m addr, addr ≠ addresses.out → addr ∉ Inner plan id scope →
            (runWithin fuel [.loop addresses body] m).2.frame.get? addr = m.frame.get? addr := by
  have looping : (compile packingLoop (rootOf [3]) {}).1.toOption.any (·.code.any isLoop) =
      true := by decide +kernel
  rcases compiled : compile packingLoop (rootOf [3]) {} with ⟨d | prog, g, slots⟩ <;>
      rw [compiled] at looping
  · cases looping
  obtain ⟨plan, isPlan, -, all, effects⟩ := instructions_change_only_their_own compiled
  obtain ⟨instr, member, looping⟩ := any_eq_true.mp looping
  cases instr with
  | loop addresses body =>
    refine ⟨prog, g, slots, plan, rfl, isPlan, addresses, body, member, ?_⟩
    rcases all _ (.here member) with ⟨id, scope, emitted⟩ | ⟨-, ins, isPack⟩
    · exact ⟨id, scope, emitted, fun fuel m addr other outside =>
        (effects _ id scope emitted).2 fuel m addr other
        (.inl outside)⟩
    · cases isPack
  | _ => cases looping

end Blockflow.Compile
