import Blockflow.Program.Printer
import Blockflow.Proofs.Program.Forgetting
import Blockflow.Proofs.Session.Ownership

/-!
# Callees of known programs

The program of a known circuit calls other circuits by the slots that they have now, and by no
other. So a circuit has one program for all its callers until it is forgotten, and afterwards
nothing that is compiled leads to the slot that it had. Programs may outlive definitions, though:
forgetting a circuit only reaches programs by the slot of the circuit.
-/

namespace Blockflow

open Compile List Session Slots

/-! ## Slots of their own -/

namespace Slots

section

variable {slots slots' : Slots} {name c : String} {slot : Nat}

/-- A slot that no other circuit has or gets. -/
def Reserved (slots : Slots) (name : String) (slot : Nat) : Prop :=
  slot < slots.programs.size ∧ ∀ other, slots.names.lookup other = some slot → other = name

def Separate (slots : Slots) : Prop :=
  ∀ name slot, slots.names.lookup name = some slot → slots.Reserved name slot

lemma Reserved.slotOf (reserved : slots.Reserved c slot) (name : String) :
    (slots.slotOf name).2.Reserved c slot := by
  rw [Slots.slotOf]
  split
  · exact reserved
  · refine ⟨by simpa using Nat.lt_succ_of_lt reserved.1, fun other found => ?_⟩
    rcases lookup_snoc_cases found with known | ⟨-, -, rfl⟩
    · exact reserved.2 other known
    · -- the new slot lies behind all others
      exact absurd reserved.1 (Nat.lt_irrefl _)

lemma Separate.slotOf (separate : slots.Separate) (name : String) :
    (slots.slotOf name).2.Separate := by
  have kept c slot (before : slots.names.lookup c = some slot) :=
    (separate c slot before).slotOf name
  rw [Slots.slotOf] at kept ⊢
  split
  · exact separate
  next unknown =>
    simp only [unknown] at kept
    intro c slot found
    rcases lookup_snoc_cases found with known | ⟨-, eq, rfl⟩
    · exact kept c slot known
    · refine ⟨by simp, fun other found => ?_⟩
      rcases lookup_snoc_cases found with known | ⟨-, eq', -⟩
      · exact absurd (separate other _ known).1 (Nat.lt_irrefl _)
      · exact eq'.trans eq.symm

lemma asked_new (asked : SlotsAsked slots slots') : slots.programs.size ≤ slots'.programs.size ∧
    ∀ {name slot}, slots.names.lookup name = none → slots'.names.lookup name = some slot →
      slots.programs.size ≤ slot := by
  induction asked with
  | refl => exact ⟨Nat.le_refl _, fun unknown found => by cases unknown.symm.trans found⟩
  | tail _ step ih =>
    obtain ⟨asked, rfl⟩ := step
    obtain ⟨more, new⟩ := ih
    rw [slotOf]
    split
    · exact ⟨more, new⟩
    · refine ⟨by simpa using Nat.le_succ_of_le more, fun {name slot} unknown found => ?_⟩
      rcases lookup_snoc_cases found with earlier | ⟨-, -, rfl⟩
      · exact new unknown earlier
      · exact more

lemma Separate.asked (separate : slots.Separate) (asked : SlotsAsked slots slots') :
    slots'.Separate := by
  induction asked with
  | refl => exact separate
  | tail _ step ih =>
    obtain ⟨name, rfl⟩ := step
    exact ih.slotOf name

lemma Reserved.fill (reserved : slots.Reserved c slot) (other : Nat) (prog : Program) :
    (slots.fill other prog).Reserved c slot :=
  ⟨by simpa [Slots.fill] using reserved.1, reserved.2⟩

lemma Reserved.left (reserved : slots.Reserved c slot) (left : Left slots slots') :
    slots'.Reserved c slot :=
  ⟨left.programs ▸ reserved.1, fun other found => reserved.2 other (left.names found)⟩

lemma Separate.left (separate : slots.Separate) (left : Left slots slots') : slots'.Separate :=
  fun name slot found => (separate name slot (left.names found)).left left

lemma invalidateAll_left (slots : Slots) : Left slots slots.invalidateAll where
  programs := rfl
  names found := by cases found
  kept _ known := by
    obtain ⟨_, found⟩ := known
    cases found

end

/-! ## Slots that are asked for and filled -/

variable {a b c slots : Slots} {name : String} {slot : Nat} {prog : Program}

/-- The slots afterwards, if no circuit is forgotten: names and programs stay, new names have new
slots, and what was empty has the program of the circuit that has the slot. -/
structure Grown (a b : Slots) : Prop where
  size : a.programs.size ≤ b.programs.size
  names : ∀ {name slot}, a.names.lookup name = some slot → b.names.lookup name = some slot
  new : ∀ {name slot}, a.names.lookup name = none → b.names.lookup name = some slot →
    a.programs.size ≤ slot
  programs : ∀ {slot prog}, a.program? slot = some prog → b.program? slot = some prog
  filled : ∀ {slot prog}, a.program? slot = none → b.program? slot = some prog →
    b.names.lookup prog.name = some slot

namespace Grown

lemma refl (slots : Slots) : Grown slots slots where
  size := Nat.le_refl _
  names found := found
  new unknown found := by cases unknown.symm.trans found
  programs found := found
  filled empty found := by cases empty.symm.trans found

lemma trans (first : Grown a b) (second : Grown b c) : Grown a c where
  size := Nat.le_trans first.size second.size
  names found := second.names (first.names found)
  new {name slot} unknown found := by
    cases between : b.names.lookup name with
    | some slot' =>
      cases (second.names between).symm.trans found
      exact first.new unknown between
    | none => exact Nat.le_trans first.size (second.new between found)
  programs found := second.programs (first.programs found)
  filled {slot prog} empty found := by
    cases between : b.program? slot with
    | some prog' =>
      cases (second.programs between).symm.trans found
      exact second.names (first.filled empty between)
    | none => exact second.filled between found

lemma of_asked (asked : SlotsAsked a b) : Grown a b where
  size := (asked_new asked).1
  names found := asked.lookup found
  new unknown found := (asked_new asked).2 unknown found
  programs found := (asked.program? _).trans found
  filled empty found := by cases ((asked.program? _).trans empty).symm.trans found

lemma fill (own : slots.names.lookup prog.name = some slot) (empty : slots.program? slot = none) :
    Grown slots (slots.fill slot prog) where
  size := Nat.le_of_eq Array.size_setIfInBounds.symm
  names found := found
  new unknown found := by cases unknown.symm.trans found
  programs {other found} holds := by
    rw [program?_fill, if_neg, holds]
    rintro ⟨rfl, -⟩
    cases empty.symm.trans holds
  filled {other found} vacant holds := by
    rw [program?_fill] at holds
    split at holds
    next same =>
      cases holds
      exact same.1 ▸ own
    next => cases vacant.symm.trans holds

end Grown

/-- Known circuits have slots of their own, and the program of one calls others by the slots that
these have; the called ones are listed. -/
structure Linked (slots : Slots) : Prop where
  separate : slots.Separate
  calls : ∀ {name slot prog}, slots.names.lookup name = some slot →
    slots.program? slot = some prog →
    CallsAmong (fun circuit called => slots.names.lookup circuit = some called ∧
      circuit ∈ prog.callees)
      prog.code

namespace Linked

lemma empty : Linked {} where
  separate _ _ found := nomatch found
  calls found := nomatch found

lemma asked (linked : a.Linked) (asked : SlotsAsked a b) : b.Linked where
  separate := linked.separate.asked asked
  calls {name slot prog} found holds := by
    have held := (asked.program? slot).symm.trans holds
    cases before : a.names.lookup name with
    | some slot' =>
      cases (asked.lookup before).symm.trans found
      exact (linked.calls before held).imp fun _ _ called => ⟨asked.lookup called.1, called.2⟩
    | none =>
      -- a circuit that was not known has a new slot, which is empty
      have new := (asked_new asked).2 before found
      rw [program?, Array.getElem?_eq_none new] at held
      cases held

lemma fill (linked : slots.Linked)
    (calls : CallsAmong (fun circuit called => slots.names.lookup circuit = some called ∧
      circuit ∈ prog.callees) prog.code) : (slots.fill slot prog).Linked where
  separate circuit other found := (linked.separate circuit other found).fill slot prog
  calls {circuit other found} known holds := by
    rw [program?_fill] at holds
    split at holds
    · cases holds
      exact calls
    · exact linked.calls known holds

lemma left (linked : a.Linked) (left : Left a b)
    (closed : ∀ {reader circuit}, b.BuiltFrom reader circuit → a.Known circuit → b.Known circuit) :
    b.Linked where
  separate := linked.separate.left left
  calls {name slot prog} found holds := by
    have held : a.program? slot = some prog := by rw [← holds, program?, program?, left.programs]
    intro circuit called ins out occurs
    obtain ⟨known, mem⟩ := linked.calls (left.names found) held circuit called ins out occurs
    have built : b.BuiltFrom name circuit :=
      ⟨slot, found, dependsOn_iff.mpr ⟨prog, holds, .inl mem⟩⟩
    exact ⟨left.kept known (closed built ⟨called, known⟩), mem⟩

end Linked

end Slots

/-! ## What operations do to slots -/

lemma Expand.instantiate_name (ran : (Expand.instantiate lib name args).run w = (.ok root, w')) :
    root.name = name := by
  rw [Expand.instantiate] at ran
  split at ran
  · cases ran
  next circuit found =>
    obtain ⟨e, _, -, ran⟩ := Effect.run_bind_eq_ok.mp ran
    obtain ⟨id, _, -, ran⟩ := Effect.run_bind_eq_ok.mp ran
    obtain ⟨params, _, -, ran⟩ := Effect.run_bind_eq_ok.mp ran
    obtain ⟨outs, _, -, ran⟩ := Effect.run_bind_eq_ok.mp ran
    cases ran
    simpa using List.find?_some found

lemma Compile.compile_name {slots slots' : Slots} {prog : Program}
    (compiled : compile g root slots = (.ok prog, g', slots')) : prog.name = root.name := by
  rw [compile] at compiled
  split at compiled
  · cases compiled
  · split at compiled
    · cases compiled
    · cases compiled
      rfl

namespace Session

variable {s after : Session} {name : String} {slot : Nat} {prog : Program}

lemma compileFresh_calls (compiled : s.compileFresh name = (.ok prog, after)) :
    SlotsAsked s.slots after.slots ∧ prog.name = name ∧
      CallsAmong (fun circuit called => after.slots.names.lookup circuit = some called ∧
        circuit ∈ prog.callees) prog.code := by
  obtain ⟨store, g, root, g', slots, settled, made, rfl⟩ := compileFresh_ok compiled
  obtain ⟨plan, loops, src, -⟩ := compile_compiledFrom made
  obtain ⟨_, instantiated, -⟩ := settled.reached
  have asked := (compile_asks g root s.slots).1
  rw [made] at asked
  exact ⟨asked, (compile_name made).trans (Expand.instantiate_name instantiated), src.calls⟩

lemma compileSlot_grows (linked : s.slots.Linked) (own : s.slots.names.lookup name = some slot) :
    (s.compileSlot slot name).2.slots.Linked ∧ s.slots.Grown (s.compileSlot slot name).2.slots ∧
      ∀ prog, (s.compileSlot slot name).1 = .ok prog →
      (s.compileSlot slot name).2.slots.program? slot = some prog := by
  rcases outcome : s.compileSlot slot name with ⟨failure | prog, after⟩
  · obtain ⟨store, slots, asked, eq⟩ := compileFresh_session s name
    rw [compileSlot_error outcome] at eq
    rw [show after = _ from eq]
    exact ⟨linked.asked asked, .of_asked asked, fun _ isOk => nomatch isOk⟩
  · cases holds : s.slots.program? slot with
    | some held =>
      rw [compileSlot, holds] at outcome
      cases outcome
      exact ⟨linked, .refl _, fun _ isOk => by cases isOk; exact holds⟩
    | none =>
      rcases compileSlot_ok outcome with ⟨held, -⟩ | ⟨made, fresh, rfl⟩
      · cases holds.symm.trans held
      · obtain ⟨asked, isName, calls⟩ := compileFresh_calls fresh
        have mine := asked.lookup own
        have empty : made.slots.program? slot = none := (asked.program? slot).trans holds
        refine ⟨(linked.asked asked).fill calls,
          (Grown.of_asked asked).trans (.fill (isName ▸ mine) empty),
          fun _ isOk => ?_⟩
        cases isOk
        rw [program?_fill, if_pos ⟨rfl, ((linked.asked asked).separate name slot mine).1⟩]

lemma slotOf_grows (linked : s.slots.Linked) (name : String) :
    (s.slotOf name).2.slots.Linked ∧ s.slots.Grown (s.slotOf name).2.slots :=
  have asked : SlotsAsked s.slots (s.slots.slotOf name).2 := .single ⟨name, rfl⟩
  ⟨linked.asked asked, .of_asked asked⟩

lemma compile_grows (linked : s.slots.Linked) (name : String) :
    (s.compile name).2.slots.Linked ∧ s.slots.Grown (s.compile name).2.slots ∧
      ∀ prog, (s.compile name).1 = .ok prog →
      ∃ slot, (s.compile name).2.slots.names.lookup name = some slot ∧
          (s.compile name).2.slots.program? slot = some prog := by
  obtain ⟨known, asked⟩ := slotOf_grows linked name
  have own := slotOf_lookup s.slots name
  obtain ⟨kept, grown, made⟩ := compileSlot_grows known own
  exact ⟨kept, asked.trans grown, fun prog isOk => ⟨_, grown.names own, made prog isOk⟩⟩

lemma grown_lasting (before : Slots) :
    Machine.Lasting (fun s => s.slots.Linked ∧ before.Grown s.slots)
    (fun s circuit slot => s.slots.names.lookup circuit = some slot) fun _ => True where
  native _ holds _ := ⟨holds, fun _ _ found => found⟩
  dispatch _ _ holds := ⟨holds, fun _ _ found => found⟩
  method _ holds _ := ⟨holds, fun _ _ found => found⟩
  pack _ holds := ⟨holds, fun _ _ found => found⟩
  compile {s slot name} holds own := by
    obtain ⟨linked, grown, made⟩ := compileSlot_grows holds.1 own
    refine ⟨⟨⟨linked, holds.2.trans grown⟩, fun _ _ found => grown.names found⟩,
      fun prog isOk => ?_⟩
    have calls := linked.calls (grown.names own) (made prog isOk)
    exact ⟨calls.imp fun _ _ called => called.1, fun _ _ _ _ => trivial⟩

lemma run_grows (linked : s.slots.Linked) (name : String) (args : List Value) :
    ((run name args).run s).2.slots.Linked ∧ s.slots.Grown ((run name args).run s).2.slots := by
  obtain ⟨kept, grown, made⟩ := compile_grows linked name
  rcases outcome : s.compile name with ⟨failure | prog, compiled⟩ <;>
      rw [outcome] at kept grown made
  · simp only [run, outcome]
    exact ⟨kept, grown⟩
  · obtain ⟨slot, own, holds⟩ := made prog rfl
    have within : Within (fun circuit slot => compiled.slots.names.lookup circuit = some slot)
        (fun _ => True)
        prog.code := ⟨(kept.calls own holds).imp fun _ _ called => called.1, fun _ _ _ _ => trivial⟩
    have ends := (Machine.invoke_stays (grown_lasting s.slots) within args).after
      (s := Machine.start compiled) ⟨⟨kept, grown⟩, fun _ _ found => found⟩
    simp only [run, outcome]
    exact ends.1

/-- What a host does with a session that it asks for programs by name. The library and everything
else that programs are compiled against may change at any time. -/
inductive Operates : Session → Session → Prop where
  | compile (s : Session) (name : String) : Operates s (s.compile name).2
  | run (s : Session) (name : String) (args : List Value) :
      Operates s ((run name args).run s).2
  | slot (s : Session) (name : String) : Operates s (s.slotOf name).2
  | invalidate (s : Session) (name : String) : Operates s (s.invalidate name)
  | invalidateAll (s : Session) : Operates s s.invalidateAll
  | reset (s : Session) : Operates s s.reset
  | change {s s' : Session} (eq : s'.slots = s.slots) : Operates s s'

/-- Every operation only asks for slots and fills them, or only forgets circuits. -/
lemma Operates.cases (operates : Operates s after) (linked : s.slots.Linked) :
    after.slots.Linked ∧ (s.slots.Grown after.slots ∨ s.slots.Left after.slots) := by
  have forgotten : s.slots.invalidateAll.Linked :=
    linked.left (invalidateAll_left _) fun built => nomatch built.known.choose_spec
  cases operates with
  | compile name =>
    obtain ⟨kept, grown, -⟩ := compile_grows linked name
    exact ⟨kept, .inl grown⟩
  | run name args => exact (run_grows linked name args).imp_right .inl
  | slot name => exact (slotOf_grows linked name).imp_right .inl
  | invalidate name =>
    have left := invalidate_left s.slots name
    exact ⟨linked.left left fun built was => built.known_of_invalidate was, .inr left⟩
  | invalidateAll => exact ⟨forgotten, .inr (invalidateAll_left _)⟩
  | reset => exact ⟨forgotten, .inr (invalidateAll_left _)⟩
  | change eq =>
    rw [eq]
    exact ⟨linked, .inl (.refl _)⟩

end Session

/-! ## After many operations -/

open Session (Operates)
open Relation (ReflTransGen)

lemma Slots.Linked.reached (linked : start.slots.Linked) (reached : ReflTransGen Operates start s) :
    s.slots.Linked := by
  induction reached with
  | refl => exact linked
  | tail _ operates ih => exact (operates.cases ih).1

namespace Slots

/-- While a circuit is not forgotten it keeps its slot, all programs stay, and a new program of the
circuit can only be in its slot. -/
structure Retains (circuit : String) (a b : Slots) : Prop where
  slot : ∀ {slot}, a.names.lookup circuit = some slot → b.names.lookup circuit = some slot
  programs : ∀ {slot prog}, a.program? slot = some prog → b.program? slot = some prog
  filled : ∀ {slot prog}, a.program? slot = none → b.program? slot = some prog →
    prog.name = circuit →
    b.names.lookup circuit = some slot

namespace Retains

variable {circuit : String} {a b c : Slots}

lemma refl (slots : Slots) : Retains circuit slots slots where
  slot found := found
  programs found := found
  filled empty found := by cases empty.symm.trans found

lemma trans (first : Retains circuit a b) (second : Retains circuit b c) : Retains circuit a c where
  slot found := second.slot (first.slot found)
  programs found := second.programs (first.programs found)
  filled {slot prog} empty found isName := by
    cases between : b.program? slot with
    | some prog' =>
      cases (second.programs between).symm.trans found
      exact second.slot (first.filled empty between isName)
    | none => exact second.filled between found isName

lemma of_grown (grown : Grown a b) : Retains circuit a b where
  slot := grown.names
  programs := grown.programs
  filled empty found isName := isName ▸ grown.filled empty found

lemma of_left (left : Left a b) (keeps : a.Known circuit → b.Known circuit) :
    Retains circuit a b where
  slot found := left.kept found (keeps ⟨_, found⟩)
  programs found := by rw [← found, program?, program?, left.programs]
  filled empty found := by
    rw [program?, left.programs] at found
    cases empty.symm.trans found

end Retains

/-- The slots that circuits have, and all that there are not yet. -/
def Usable (slots : Slots) (slot : Nat) : Prop :=
  (∃ circuit, slots.names.lookup circuit = some slot) ∨ slots.programs.size ≤ slot

/-- Circuits have the slots that they had or new ones, and the programs in usable slots call by
usable slots. -/
structure Renews (a b : Slots) : Prop where
  size : a.programs.size ≤ b.programs.size
  names : ∀ {circuit slot}, b.names.lookup circuit = some slot → a.Usable slot
  calls : ∀ {slot prog}, a.Usable slot → b.program? slot = some prog →
    CallsAmong (fun _ called => a.Usable called) prog.code

namespace Renews

variable {a b c : Slots}

lemma refl (linked : a.Linked) : Renews a a where
  size := Nat.le_refl _
  names found := .inl ⟨_, found⟩
  calls {slot prog} usable holds := by
    rcases usable with ⟨circuit, found⟩ | beyond
    · exact (linked.calls found holds).imp fun _ _ called => .inl ⟨_, called.1⟩
    · rw [program?, Array.getElem?_eq_none beyond] at holds
      cases holds

lemma grown (renews : Renews a b) (linked : c.Linked) (grown : Grown b c) : Renews a c := by
  have names : ∀ {circuit slot}, c.names.lookup circuit = some slot → a.Usable slot := by
    intro circuit slot found
    cases before : b.names.lookup circuit with
    | some slot' =>
      cases (grown.names before).symm.trans found
      exact renews.names before
    | none => exact .inr (Nat.le_trans renews.size (grown.new before found))
  refine ⟨Nat.le_trans renews.size grown.size, names, fun {slot prog} usable holds => ?_⟩
  cases before : b.program? slot with
  | some prog' =>
    cases (grown.programs before).symm.trans holds
    exact renews.calls usable before
  | none =>
    have own := grown.filled before holds
    exact (linked.calls own holds).imp fun _ _ called => names called.1

lemma left (renews : Renews a b) (left : Left b c) : Renews a c where
  size := left.programs ▸ renews.size
  names found := renews.names (left.names found)
  calls usable holds := renews.calls usable (by rw [← holds, program?, program?, left.programs])

end Renews

/-- A program calls the program in a slot, itself or through others. -/
inductive Calls (slots : Slots) (prog : Program) : Nat → Prop where
  | itself {circuit : String} {slot : Nat} {ins : List Nat} {out : Nat}
      (call : Occurs (.functionCall circuit slot ins out) prog.code) : Calls slots prog slot
  | through {circuit : String} {slot called : Nat} {ins : List Nat} {out : Nat} {between : Program}
      (calls : Calls slots prog slot) (holds : slots.program? slot = some between)
      (call : Occurs (.functionCall circuit called ins out) between.code) : Calls slots prog called

lemma Renews.of_calls (renews : Renews a b)
    (usable : CallsAmong (fun _ called => a.Usable called) prog.code)
    (calls : b.Calls prog slot) : a.Usable slot := by
  induction calls with
  | itself call => exact usable _ _ _ _ call
  | through _ holds call ih => exact renews.calls ih holds _ _ _ _ call

lemma Linked.not_usable_of_invalidate {slots : Slots} (linked : slots.Linked) {slot : Nat}
    (found : slots.names.lookup circuit = some slot) : ¬(slots.invalidate circuit).Usable slot := by
  have left := invalidate_left slots circuit
  obtain ⟨inside, own⟩ := linked.separate circuit slot found
  rintro (⟨other, known⟩ | beyond)
  · cases own other (left.names known)
    exact invalidate_forgets slots circuit ⟨slot, known⟩
  · rw [left.programs] at beyond
    exact Nat.lt_irrefl _ (Nat.lt_of_lt_of_le inside beyond)

end Slots

variable {s later : Session}

lemma Slots.Retains.reached (linked : s.slots.Linked)
    (steps : ReflTransGen (fun a b : Session => Operates a b ∧
      (a.slots.Known circuit → b.slots.Known circuit))
      s later) : s.slots.Retains circuit later.slots ∧ later.slots.Linked := by
  induction steps with
  | refl => exact ⟨.refl _, linked⟩
  | tail _ step ih =>
    obtain ⟨operates, keeps⟩ := step
    obtain ⟨retains, linked⟩ := ih
    obtain ⟨kept, grown | left⟩ := operates.cases linked
    · exact ⟨retains.trans (.of_grown grown), kept⟩
    · exact ⟨retains.trans (.of_left left keeps), kept⟩

lemma Slots.Renews.reached {a : Slots} (renews : a.Renews s.slots) (linked : s.slots.Linked)
    (steps : ReflTransGen Operates s later) : a.Renews later.slots ∧ later.slots.Linked := by
  induction steps with
  | refl => exact ⟨renews, linked⟩
  | tail _ operates ih =>
    obtain ⟨renews, linked⟩ := ih
    obtain ⟨kept, grown | left⟩ := operates.cases linked
    · exact ⟨renews.grown kept grown, kept⟩
    · exact ⟨renews.left left, kept⟩

lemma Session.compile_known (found : s.slots.names.lookup name = some slot) :
    s.compile name = s.compileSlot slot name := by
  rw [Session.compile, Session.slotOf, Slots.slotOf, found]

/-- A circuit that calls another one. -/
def callingSession : Session := .make (Library.builtin.insertAll
  [{ name := "caller", outputs := ["y"], blocks :=
    [{ blockType := "call", outputs := ["y"], arguments := ["callee"] }] },
    { name := "callee", outputs := ["x"], blocks :=
      [{ blockType := "int", outputs := ["x"], arguments := ["1"] }] }])

/-- Define a circuit, and forget what was built from an earlier definition. -/
def Session.define (s : Session) (c : Circuit) : Session :=
  ({ s with library := s.library.insert c } : Session).invalidate c.name

/-- A constant as a circuit. -/
def answer (v : String) : Circuit where
  name := "answer"
  outputs := ["out"]
  blocks := [{ blockType := "int", outputs := ["out"], arguments := [v] }]

/-- Hands on what the answer is. -/
def asking : Circuit where
  name := "asking"
  outputs := ["out"]
  blocks := [{ blockType := "answer", outputs := ["out"] }]

def answerSession : Session := .make (Library.builtin.insertAll [answer "1", asking])

/-- Only the first output of `pair` is used, and the second one calls `f`. -/
def pairing : Circuit where
  name := "pairing"
  outputs := ["out"]
  blocks := [{ blockType := "pair", outputs := ["out", "rest"] }]

def pair : Circuit where
  name := "pair"
  outputs := ["y", "z"]
  blocks := [{ blockType := "int", outputs := ["y"], arguments := ["1"] },
    { blockType := "call", inputs := ["y"], outputs := ["z"], arguments := ["f"] }]

def forwardingFirst (inputs : List String) : Circuit where
  name := "f"
  inputs
  outputs := ["b"]
  blocks := [{ blockType := "neg", inputs := ["a"], outputs := ["b"] }]

def pairingSession :
    Session := .make (Library.builtin.insertAll [pair, forwardingFirst ["a"], pairing])

/-- A program stays, although a new one would be different, if a circuit that was expanded in it has
no slot: its own program was never asked for. It also stays if a circuit changes that it was not
made from, although the block that names the circuit no longer fits. -/
theorem expanded_program_survives :
    (let session := (answerSession.compile "asking").2.define (answer "2")
    ∃ old new, (session.compile "asking").1 = .ok old ∧
    (session.compileFresh "asking").1 = .ok new ∧
      old.listing ≠ new.listing) ∧
    let session :=
      ((pairingSession.compile "f").2.compile "pairing").2.define (forwardingFirst ["a", "c"])
    (session.compile "pairing").1.isOk = true ∧
      (session.compileFresh "pairing").1.isOk = false := by
  refine ⟨?_, by decide +kernel⟩
  intro session
  have differ : ((session.compile "asking").1.toOption.bind fun old =>
      (session.compileFresh "asking").1.toOption.map fun new => old.listing != new.listing) =
        some true := by
    decide +kernel
  generalize (session.compile "asking").1 = one at differ ⊢
  generalize (session.compileFresh "asking").1 = two at differ ⊢
  rcases one with _ | old
  · cases differ
  · rcases two with _ | new
    · cases differ
    · exact ⟨old, new, rfl, rfl, by simpa using Option.some.inj differ⟩

end Blockflow
