import Blockflow.Proofs.Machine.Runs

/-!
# The addresses of code

The addresses that code names, wherever in the tree of instructions. A run changes its frame only
where an instruction writes its output, and where a loop writes its state and empties its addresses.
So code that names only addresses of its frame never makes the frame grow.
-/

namespace Blockflow

open Instruction

def Instruction.addresses : Instruction → List Nat
  | .loadConst _ out => [out]
  | .call _ ins out | .virtualCall _ ins out | .pack ins out | .functionCall _ _ ins out =>
    out :: ins
  | .unpack _ input out => [input, out]
  | .loop rounds _ => [rounds.init, rounds.state, rounds.next, rounds.cond, rounds.out]
  | .switch sel branches out => sel :: out :: branches.filterMap Branch.result

/-- Code names only addresses below `size`, and loops empty no others. -/
def Confined (size : Nat) (code : List Instruction) : Prop :=
  ∀ instr, Occurs instr code → (∀ addr ∈ instr.addresses, addr < size) ∧
    ∀ addrs body, instr = .loop addrs body → addrs.clearTo ≤ size

/-- A property of frames outlasts everything that code does to its own frame. -/
def Outlasts (F : Frame → Prop) (code : List Instruction) : Prop :=
  ∀ instr, Occurs instr code → (∀ frame v, F frame → F (frame.set instr.output v)) ∧
    ∀ addrs body, instr = .loop addrs body → ∀ frame v, F frame →
      F ((frame.clear addrs.clearFrom addrs.clearTo).set addrs.state v)

lemma Confined.outlasts (confined : Confined size code) : Outlasts (·.size = size) code := by
  have sets : ∀ {addr : Nat} {frame : Frame} (v : Value), addr < size → frame.size = size →
      (frame.set addr v).size = size := fun v inside sized =>
    (Frame.size_set (sized ▸ inside) v).trans sized
  intro instr occurs
  have inside := (confined instr occurs).1
  refine ⟨fun frame v sized => sets v (inside _ ?_) sized, ?_⟩
  · cases instr <;> simp [addresses, output]
  · rintro loop body rfl frame v sized
    exact sets v (inside _ (by simp [addresses])) ((Frame.size_clear ..).trans sized)

namespace Machine

variable {α : Type} {F : Frame → Prop}

/-- A computation that leaves the frame alone. -/
def Quiet (exec : Exec α) : Prop := ∀ frame, exec.Keeps fun m => m.frame = frame

lemma Quiet.keeps (quiet : Quiet exec) : exec.Keeps fun m => F m.frame := fun m holds =>
  (quiet m.frame m rfl).imp (fun _ _ eq => (congrArg F eq).mpr holds) fun _ _ eq =>
    (congrArg F eq).mpr holds

lemma Quiet.of_state {exec : Exec α} (same : ∀ m, (exec.run m).2.frame = m.frame) : Quiet exec :=
  fun _ m holds =>
    .intro (fun _ _ ran => (congrArg (·.2.frame) ran).symm.trans ((same m).trans holds))
    fun _ _ ran => (congrArg (·.2.frame) ran).symm.trans ((same m).trans holds)

lemma read_quiet (addr : Nat) : Quiet (read addr) := .of_state fun _ => rfl

lemma gather_quiet (addrs : List Nat) : Quiet (gather addrs) := .of_state fun _ => rfl

lemma methods_quiet : Quiet methods := .of_state fun _ => rfl

lemma onStore_quiet (action : Action α) : Quiet (onStore action) := .of_state fun _ => rfl

lemma program_quiet (c : String) (slot : Nat) : Quiet (program c slot) :=
  .of_state fun _ => rfl

lemma step_quiet : Quiet step := fun _ _ holds => step_ends holds holds

lemma select_quiet (addr : Nat) : Quiet (select addr) := by
  refine fun frame => .bind (read_quiet addr frame) fun v =>
    .bind (methods_quiet frame) fun known => ?_
  split
  · exact .bind (onStore_quiet _ frame) fun made => .ofExcept _
  · exact .ofExcept _

lemma invokeWith_quiet (run : List Instruction → Exec Unit) (prog : Program)
    (args : List Value) : Quiet (invokeWith run prog args) := fun _ m holds =>
  (invokeWith_frame run prog args m).imp (fun _ _ eq => eq.trans holds) fun _ _ eq => eq.trans holds

lemma branchResult_quiet (branch : Branch) (sel : Selector) : Quiet (branchResult branch sel) := by
  intro frame
  rw [branchResult]
  split
  · exact read_quiet _ frame
  · exact .pure _

lemma execute_outlasts
    (runs : ∀ code, Outlasts F code → (running fuel code).Keeps fun m => F m.frame)
    (iterates : ∀ loop body state, Outlasts F [.loop loop body] →
      (iterating fuel loop body state).Keeps fun m => F m.frame)
    (lasts : Outlasts F [instr]) :
    (execute (running fuel) (iterating fuel) instr).Keeps fun m => F m.frame := by
  have writes : ∀ v, (write instr.output v).Keeps fun m => F m.frame := fun v _ holds =>
    (lasts instr (.here List.mem_cons_self)).1 _ v holds
  cases instr with
  | loadConst v out => exact writes v
  | call native ins out =>
    exact .bind (gather_quiet _).keeps fun args => .bind (onStore_quiet _).keeps fun v => writes v
  | virtualCall names ins out =>
    exact .bind (gather_quiet _).keeps fun args => .bind methods_quiet.keeps fun known =>
      .bind (onStore_quiet _).keeps fun v => writes v
  | pack ins out =>
    exact .bind (gather_quiet _).keeps fun vs => .bind (onStore_quiet _).keeps fun v => writes v
  | unpack i input out =>
    exact .bind (read_quiet _).keeps fun v => .bind (.ofExcept _) fun element => writes element
  | functionCall c slot ins out =>
    exact .bind (program_quiet _ _).keeps fun prog => .bind (gather_quiet _).keeps fun args =>
      .bind (.mapFailure (invokeWith_quiet _ _ _).keeps) fun v => writes v
  | loop addrs body => exact .bind (read_quiet _).keeps fun state => iterates addrs body state lasts
  | switch sel branches out =>
    refine .bind (select_quiet _).keeps fun picked m holds =>
      .bind (.ofExcept (fun branch found => ?_) fun d _ => holds)
    have kept := Effect.Keeps.bind (runs branch.code fun other occurs =>
        lasts other (.branch List.mem_cons_self (mem_of_branch found) occurs)) fun _ =>
      (branchResult_quiet branch picked).keeps.bind fun v => writes v
    exact kept m holds

lemma running_outlasts (fuel : Nat) :
    (∀ code, Outlasts F code → (running fuel code).Keeps fun m => F m.frame) ∧
      ∀ loop body state, Outlasts F [.loop loop body] → (iterating fuel loop body state).Keeps
      fun m => F m.frame := by
  induction fuel with
  | zero =>
    refine ⟨fun code _ m holds => ?_, fun loop body state _ m holds => iterating_zero holds⟩
    cases code with
    | nil => exact running_nil.mpr holds
    | cons instr rest => exact running_zero.mpr holds
  | succ fuel ih =>
    obtain ⟨runs, iterates⟩ := ih
    refine ⟨fun code lasts m holds => ?_, fun loop body state lasts m holds => iterating_succ ?_⟩
    · cases code with
      | nil => exact running_nil.mpr holds
      | cons instr rest =>
        have first : Outlasts F [instr] := fun other occurs =>
          lasts other (occurs.mono (List.cons_subset_cons _ (List.nil_subset _)))
        refine running_cons.mpr
          (((step_quiet.keeps.bind fun _ => execute_outlasts runs iterates first) m holds).imp ?_
          fun _ _ kept => kept)
        exact fun _ after kept =>
          runs rest (fun other occurs => lasts other (occurs.mono (List.subset_cons_self _ _)))
          after kept
    · obtain ⟨writes, enters⟩ := lasts _ (.here List.mem_cons_self)
      have entered : (enterRound loop state).Keeps fun m => F m.frame :=
        .bind step_quiet.keeps fun _ _ holds => enters loop body rfl _ state holds
      have next : (nextState? loop).Keeps fun m => F m.frame := by
        refine .bind (read_quiet _).keeps fun v => .bind (.ofExcept _) fun sel => ?_
        split
        · exact .pure _
        · exact .bind (read_quiet _).keeps fun following => .pure _
      have inside : Outlasts F body :=
        fun other occurs => lasts other (.body List.mem_cons_self occurs)
      refine ((entered.bind fun _ => (runs body inside).bind fun _ => next) m holds).post ?_
      intro following after kept
      cases following with
      | none => exact writes _ state kept
      | some state => exact iterates loop body state lasts after kept

end Machine

end Blockflow
