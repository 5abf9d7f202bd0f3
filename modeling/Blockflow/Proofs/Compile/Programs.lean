import Blockflow.Proofs.Compile.Simulation
import Blockflow.Proofs.Machine.Addresses

/-!
# Compiled programs

What compilation makes of the root of a graph, and what running it does: with the arguments in place
and nothing else, the code of the root scope runs, and then the result is read. All addresses of the
code lie in its frame.
-/

namespace Blockflow.Compile

open List Machine Option ScopeTree

variable {g g' : Graph} {root : Root} {slots slots' : Slots} {prog : Program}

/-- A program that was compiled from a root; `Named` holds of the circuits that it calls and their
slots. -/
structure CompiledFrom (g : Graph) (root : Root) (Named : String → Nat → Prop) (prog : Program)
    (plan : Plan) (loops : List (Handle × Handle)) : Prop where
  compiled : Compiled g root plan loops Named prog.code prog.ret
  params : prog.params = root.params.length
  frameSize : prog.frameSize = plan.frameSize
  resolves : Forall₂ (fun output target => resolve g output = .ok (some target)) root.outputs
    plan.outputs
  isPlan : Compile.plan g root = .ok plan

/-- The called circuits have slots. -/
lemma compile_compiledFrom (compiled : compile g root slots = (.ok prog, g', slots')) :
    ∃ plan loops, CompiledFrom g root
        (fun name slot => slots'.names.lookup name = some slot ∧
          name ∈ prog.callees) prog plan loops ∧
      ∀ name ∈ prog.callees, ∃ slot, slots'.names.lookup name = some slot := by
  rw [compile] at compiled
  split at compiled
  next => cases compiled
  next plan isPlan =>
    split at compiled
    next => cases compiled
    next code ret e ran =>
      cases compiled
      obtain ⟨loops, planned, resolves⟩ := plan_planned isPlan
      obtain ⟨coded, known⟩ := code_compiled planned rfl (fun _ _ => And.intro) ran
      exact ⟨plan, loops, ⟨coded, rfl, rfl, resolves, isPlan⟩, fun name mem =>
        (known name mem).resolve_left not_mem_nil⟩

lemma isParamOf_iff {id : Handle} : isParamOf root id ↔ id ∈ root.params := by
  rw [isParamOf, ← Bool.not_eq_false, isSome_eq_false_iff, isNone_iff_eq_none, lookup_eq_none_iff]
  simp only [paramPlaces, mem_reverse, not_forall, mem_zipIdx_iff_getElem?]
  constructor
  · rintro ⟨entry, mem, same⟩
    have equal : id = entry.1 := by simpa using same
    exact equal ▸ mem_of_getElem? mem
  · intro mem
    obtain ⟨i, found⟩ := getElem?_of_mem mem
    exact ⟨(id, i), found, by simp⟩

/-- Every parameter node of a graph is one of the root. -/
def ParamsListed (g : Graph) (root : Root) : Prop :=
  ∀ id i, behaviorOf g id = some (.param i) → id ∈ root.params

/-- The outputs of a root that are the state of a loop. -/
def HandsOutState (g : Graph) (root : Root) : Prop :=
  ∃ output ∈ root.outputs, ∃ first, StandsFor g output (some first) ∧ kindOf g first = .loopBegin

section

variable {g : Graph} {root : Root} {Named : String → Nat → Prop} {prog : Program} {plan : Plan}
  {loops : List (Handle × Handle)} {visit : Visit} {a : Addresses}
  {order done todo : List Visit} {scope : Nat}
  {code : List Instruction} {instr : Instruction} {ins : List Nat}

section

variable (src : CompiledFrom g root Named prog plan loops)
include src

lemma CompiledFrom.visited_computes
    (mem : visit ∈ plan.order) : ∃ n, g.node? visit.node = some n ∧ n.isPass = false := by
  obtain ⟨output, isOutput, needs⟩ := src.compiled.planned.ordered.reached visit mem
  rcases Relation.ReflTransGen.cases_tail needs with eq | ⟨reader, -, -, sources, found, occurs⟩
  · obtain ⟨i, at'⟩ := getElem?_of_mem isOutput
    obtain ⟨_, -, resolved⟩ := forall₂_getElem? src.resolves at'
    exact eq ▸ (resolve_standsFor resolved).computes
  · exact source_computes found occurs

lemma CompiledFrom.computing (listed : ParamsListed g root) : Computing g plan := by
  intro visit mem b found silent
  obtain ⟨n, live, computes⟩ := src.visited_computes mem
  rw [behaviorOf, live, map_some, some.injEq] at found
  have isPass : n.isPass = (b.kind == .pass) := found ▸ rfl
  cases b with
  | param i =>
    have isParam :=
      isParamOf_iff.mpr (listed visit.node i (by rw [behaviorOf, live, map_some, found]))
    rw [src.compiled.planned.ordered.computed visit mem] at isParam
    cases isParam
  | loopBegin => rfl
  | pass | nested => cases computes.symm.trans isPass
  | _ => cases silent

/-- An output that is no begin is computed in the root scope, or it is a parameter. -/
lemma CompiledFrom.output_provided
    (stateless : ¬HandsOutState g root) {output : Handle} (isOutput : output ∈ plan.outputs) :
    Provided root plan plan.order output rootId := by
  have planned := src.compiled.planned
  refine (planned.ordered.covers output isOutput).imp_right fun visited => ⟨visited, ?_⟩
  obtain ⟨own, placed⟩ := (planned.placed.covers output).mp visited
  have notBegin : kindOf g output ≠ .loopBegin := by
    intro isBegin
    obtain ⟨i, at'⟩ := getElem?_of_mem isOutput
    obtain ⟨_, from', resolved⟩ := forall₂_getElem? src.resolves at'
    exact stateless ⟨_, mem_of_getElem? from', output, resolve_standsFor resolved, isBegin⟩
  refine ⟨own, placed, ?_⟩
  rw [(planned.placed.hoisted placed notBegin).output isOutput]
  exact .refl _ _

end

/-! ## The addresses of a program -/

/-- The instruction was emitted for a visit that is placed in a scope or inside it. -/
def EmittedIn (g : Graph) (a : Addresses) (order : List Visit)
    (Named : String → Nat → Prop) (scope : Nat)
    (instr : Instruction) : Prop :=
  ∃ before visit after own, order = before ++ visit :: after ∧
    a.placement.scopes.lookup visit.node = some own ∧
    a.placement.tree.Encloses scope own ∧ Emitted g a order Named before visit instr

lemma emittedIn_of_mem {later : List Visit} (coded : CodeOf g a order Named scope done todo code)
    (split : order = done ++ todo ++ later) (mem : instr ∈ code) :
    ∃ before visit after, order = before ++ visit :: after ∧
    a.placement.scopes.lookup visit.node = some scope ∧
      Emitted g a order Named before visit instr := by
  induction todo generalizing done code with
  | nil =>
    cases coded
    cases mem
  | cons visit todo ih =>
    have split' : order = done ++ [visit] ++ todo ++ later := by simp [split]
    cases coded with
    | skip _ rest => exact ih rest split' mem
    | emit placed emitted rest =>
      rcases mem_cons.mp mem with rfl | mem
      · exact ⟨done, visit, todo ++ later, by simp [split], placed, emitted⟩
      · exact ih rest split' mem

lemma EmittedIn.outward {inner : Nat} (lies : a.placement.tree.LiesIn inner scope) :
    EmittedIn g a order Named inner instr → EmittedIn g a order Named scope instr
  | ⟨before, visit, after, own, split, placed, around, emitted⟩ =>
    ⟨before, visit, after, own, split, placed, (Encloses.of_liesIn lies).trans around, emitted⟩

/-- What an instruction encloses was emitted in a scope that its node opens, right inside the scope
of the node. -/
lemma emittedIn_of_occurs {later : List Visit} (sound : a.placement.Sound order)
    (coded : CodeOf g a order Named scope done todo code) (split : order = done ++ todo ++ later)
    (occurs : Occurs instr code) : EmittedIn g a order Named scope instr := by
  induction occurs generalizing scope done todo later with
  | here mem =>
    obtain ⟨before, visit, after, split, placed, emitted⟩ := emittedIn_of_mem coded split mem
    exact ⟨before, visit, after, scope, split, placed, .refl _ _, emitted⟩
  | body mem inside ih =>
    obtain ⟨before, visit, after, split, placed, emitted⟩ := emittedIn_of_mem coded split mem
    cases emitted with
    | loop _ _ _ _ _ isBody _ _ _ _ _ _ coded' =>
      obtain ⟨_, placed', lies, -⟩ := sound.loop isBody
      cases placed.symm.trans placed'
      exact (ih coded' split).outward lies
  | branch mem among inside ih =>
    obtain ⟨before, visit, after, split, placed, emitted⟩ := emittedIn_of_mem coded split mem
    cases emitted with
    | @switch _ _ _ _ scopes _ _ _ _ _ opened _ coded' empty =>
      obtain ⟨i, at'⟩ := getElem?_of_mem among
      cases opens : scopes[i]? with
      | some inner =>
        obtain ⟨-, _, placed', lies⟩ := sound.opened_branch (opened ▸ opens)
        cases placed.symm.trans placed'
        exact (ih (coded' at' opens) split).outward lies
      | none =>
        rw [empty at' opens] at inside
        exact (not_occurs_nil inside).elim

lemma occurs_packed {body : List Instruction} {ret : Nat}
    (occurs : Occurs instr (body ++ [.pack ins ret])) :
    Occurs instr body ∨ instr = .pack ins ret := by
  cases occurs with
  | here mem => exact (mem_append.mp mem).imp .here mem_singleton.mp
  | body mem inside =>
    rcases mem_append.mp mem with mem | mem
    · exact .inl (.body mem inside)
    · cases mem_singleton.mp mem
  | branch mem among inside =>
    rcases mem_append.mp mem with mem | mem
    · exact .inl (.branch mem among inside)
    · cases mem_singleton.mp mem

lemma Inputs.lt_frame (planned : Planned g root plan loops)
    (inputs : Inputs plan.addresses visit ins)
    {addr : Nat} (mem : addr ∈ ins) : addr < plan.frameSize := by
  obtain ⟨pin, at'⟩ := getElem?_of_mem mem
  obtain ⟨id, -, found⟩ := inputs.source at'
  exact planned.address_lt_frame found

lemma emitted_confined (planned : Planned g root plan loops) {before : List Visit}
    (emitted : Emitted g plan.addresses plan.order Named before visit instr) :
    (∀ addr ∈ instr.addresses, addr < plan.frameSize) ∧
      ∀ addrs body, instr = .loop addrs body → addrs.clearTo ≤ plan.frameSize := by
  have below : ∀ {id addr}, plan.addresses.find? id = some addr → addr < plan.frameSize :=
    planned.address_lt_frame
  cases emitted with
  | const _ addr =>
    exact ⟨by simpa [Instruction.addresses] using below addr, fun _ _ eq => by cases eq⟩
  | op _ inputs addr | virtual _ inputs addr | pack _ inputs addr | call _ _ inputs addr =>
    refine ⟨fun other mem => ?_, fun _ _ eq => by cases eq⟩
    rcases mem_cons.mp mem with rfl | mem
    · exact below addr
    · exact inputs.lt_frame planned mem
  | unpack _ inputs first addr =>
    refine ⟨fun other mem => ?_, fun _ _ eq => by cases eq⟩
    rcases mem_cons.mp mem with rfl | mem
    · exact inputs.lt_frame planned (mem_of_getElem? first)
    · rw [mem_singleton.mp mem]
      exact below addr
  | loop _ inputs _ _ _ isBody initAddress stateAddress nextAddress condAddress
      outAddress cleared =>
    refine ⟨?_, ?_⟩
    · simp only [Instruction.addresses, forall_mem_cons]
      exact ⟨below initAddress, below stateAddress,
        inputs.lt_frame planned (mem_of_getElem? nextAddress),
        inputs.lt_frame planned (mem_of_getElem? condAddress), below outAddress, by simp⟩
    · rintro _ _ eq
      cases eq
      obtain ⟨around, -, lies, -⟩ := planned.placed.sound.loop isBody
      exact Nat.le_trans (Nat.le_of_eq (congrArg Prod.snd cleared))
        (planned.laid.extent_le lies.lt_size)
  | switch _ _ selectorAddress _ length _ _ results addr =>
    refine ⟨?_, fun _ _ eq => by cases eq⟩
    simp only [Instruction.addresses, forall_mem_cons]
    refine ⟨below selectorAddress, below addr, fun other mem => ?_⟩
    obtain ⟨branch, among, isResult⟩ := mem_filterMap.mp mem
    obtain ⟨i, at'⟩ := getElem?_of_mem among
    have bound : i + 1 < visit.sources.length := by
      have inside := lt_of_getElem? at'
      omega
    have result := results at' (getElem?_eq_getElem bound)
    cases src : visit.sources[i + 1] with
    | none =>
      rw [src, isResult] at result
      cases result
    | some id =>
      rw [src] at result
      obtain ⟨place, isPlace, found⟩ := result
      cases isResult.symm.trans isPlace
      exact below found

section

variable (src : CompiledFrom g root Named prog plan loops)
include src

/-- An instruction of a program was emitted for a visit, or it packs the outputs. -/
lemma CompiledFrom.emitted (occurs : Occurs instr prog.code) :
    EmittedIn g plan.addresses plan.order Named rootId instr ∨
      plan.packed = some prog.ret ∧ ∃ ins, instr = .pack ins prog.ret ∧
        Forall₂ (fun output addr => plan.addresses.find? output = some addr) plan.outputs ins := by
  obtain ⟨body, coded, ends⟩ := src.compiled.code
  have inner : ∀ {instr}, Occurs instr body →
      EmittedIn g plan.addresses plan.order Named rootId instr :=
    emittedIn_of_occurs src.compiled.planned.placed.sound coded (append_nil _).symm
  rcases ends with ⟨_, _, _, eq⟩ | ⟨isRet, packed, found, eq⟩ <;> rw [eq] at occurs
  · exact .inl (inner occurs)
  · exact (occurs_packed occurs).imp inner fun isPack => ⟨isRet, _, isPack, found⟩

/-- Everything that a compiled program names lies in its frame. -/
lemma CompiledFrom.confined : Confined prog.frameSize prog.code ∧ prog.ret < prog.frameSize := by
  have planned := src.compiled.planned
  rw [src.frameSize]
  have retBelow : prog.ret < plan.frameSize := by
    obtain ⟨_, _, ⟨output, -, found, -⟩ | ⟨isRet, -⟩⟩ := src.compiled.code
    · exact planned.address_lt_frame found
    · have top : plan.placement.tree.limit rootId ≤ plan.frameSize :=
        planned.laid.bound _ planned.placed.sound.tree.nonempty
      rcases planned.packed with ⟨none, -⟩ | ⟨-, addr, isPacked, -, below⟩
      · cases isRet.symm.trans none
      · cases isRet.symm.trans isPacked
        omega
  refine ⟨fun instr occurs => ?_, retBelow⟩
  rcases src.emitted occurs with ⟨_, _, _, _, -, -, -, emitted⟩ | ⟨-, ins, rfl, found⟩
  · exact emitted_confined planned emitted
  · refine ⟨fun addr mem => ?_, fun _ _ eq => by cases eq⟩
    rcases mem_cons.mp mem with rfl | mem
    · exact retBelow
    · obtain ⟨i, at'⟩ := getElem?_of_mem mem
      obtain ⟨output, -, found⟩ := forall₂_getElem? found at'
      exact planned.address_lt_frame found

/-! ## The calls of a program -/

lemma CompiledFrom.calls : CallsAmong Named prog.code := by
  intro c slot ins out occurs
  rcases src.emitted occurs with ⟨_, visit, _, _, -, -, -, emitted⟩ | ⟨_, _, isPack, -⟩
  · cases emitted with
    | call _ named => exact named
  · cases isPack

end

variable {Named' : String → Nat → Prop}

mutual

lemma codeOf_rename {a : Addresses} {order done todo : List Visit} {scope : Nat}
    {code : List Instruction} : CodeOf g a order Named scope done todo code →
    CallsAmong Named' code → CodeOf g a order Named' scope done todo code
  | .nil, _ => .nil
  | .skip silent rest, calls => .skip silent (codeOf_rename rest calls)
  | .emit placed emitted rest, calls =>
    .emit placed (emitted_rename emitted fun c slot ins out occurs => calls c slot ins out
        (occurs.mono (cons_subset_cons _ (nil_subset _))))
      (codeOf_rename rest fun c slot ins out occurs =>
        calls c slot ins out (occurs.mono (subset_cons_self _ _)))

lemma emitted_rename {a : Addresses} {order done : List Visit} {visit : Visit}
    {instr : Instruction} : Emitted g a order Named done visit instr →
    CallsAmong Named' [instr] → Emitted g a order Named' done visit instr
  | .const behavior addr, _ => .const behavior addr
  | .op behavior inputs addr, _ => .op behavior inputs addr
  | .virtual behavior inputs addr, _ => .virtual behavior inputs addr
  | .pack behavior inputs addr, _ => .pack behavior inputs addr
  | .unpack behavior inputs first addr, _ => .unpack behavior inputs first addr
  | .call behavior _ inputs addr, calls =>
    .call behavior (calls _ _ _ _ (.here mem_cons_self)) inputs addr
  | .loop behavior inputs mem closes starts isBody initAddress stateAddress nextAddress condAddress
      outAddress cleared code, calls =>
    .loop behavior inputs mem closes starts isBody initAddress stateAddress nextAddress condAddress
      outAddress cleared (codeOf_rename code fun c slot ins out occurs =>
        calls c slot ins out (.body mem_cons_self occurs))
  | .switch behavior first selectorAddress opened length code empty results addr, calls =>
    .switch behavior first selectorAddress opened length
      (fun at' isScope => codeOf_rename (code at' isScope) fun c slot ins out occurs =>
        calls c slot ins out (.branch mem_cons_self (mem_of_getElem? at') occurs))
      empty results addr

end

lemma CompiledFrom.rename (src : CompiledFrom g root Named prog plan loops)
    (calls : CallsAmong Named' prog.code) : CompiledFrom g root Named' prog plan loops := by
  obtain ⟨body, coded, ends⟩ := src.compiled.code
  refine ⟨⟨src.compiled.planned, body, codeOf_rename coded ?_, ends⟩, src.params, src.frameSize,
    src.resolves, src.isPlan⟩
  intro c slot ins out occurs
  refine calls c slot ins out ?_
  rcases ends with ⟨_, _, _, eq⟩ | ⟨_, packed, _, eq⟩ <;> rw [eq]
  · exact occurs
  · exact occurs.mono (subset_append_left _ _)

end

/-! ## Runs of a program -/

section

variable {g : Graph} {root : Root} {args : List Value} {Named : String → Nat → Prop} {bound : Nat}
  {prog : Program} {plan : Plan} {loops : List (Handle × Handle)}
  {acc : Account g root args Named bound}

/-- The result of a call, as the account sees it: the value of the only output, or all outputs
packed. -/
def Account.Results (acc : Account g root args Named bound) (plan : Plan) (s : Session)
    (v : Value) : Prop :=
  (∃ output, plan.outputs = [output] ∧ acc.Gives s (fun _ => none) output v) ∨
    plan.outputs.length ≠ 1 ∧ ∃ vs,
      Forall₂ (acc.Gives s fun _ => none) plan.outputs vs ∧
      acc.Packs s vs v

/-- A frame with the arguments in it is all that the root scope needs. -/
lemma available_start {m : Machine} (planned : Planned g root plan loops)
    (valid : acc.Valid m.session) (fits : args.length = root.params.length)
    (frame : m.frame = Frame.withArguments plan.frameSize args) :
    Available acc plan m rootId plan.order [] fun _ => none where
  valid := valid
  params := by
    intro id i place
    have inside : i < args.length := fits ▸ paramPlaces_lt place
    refine ⟨args[i], getElem?_eq_getElem inside, ?_⟩
    rw [frame, Frame.get?_withArguments inside, getElem?_eq_getElem inside]
  nodes := by
    intro id own mem placed around reached
    obtain rfl := around.eq_root planned.placed.sound.tree
    rcases reached rfl with absent | isBegin
    · simp at absent
    · obtain ⟨loopEnd, -, isBody⟩ := planned.placed.begins placed isBegin
      obtain ⟨-, -, -, kind⟩ := planned.placed.sound.loop isBody
      cases planned.placed.sound.tree.root_kind.symm.trans kind
  running := by
    intro id state found
    cases found

variable {m : Machine}

/-- The values of the outputs, once the code of the root scope has run. -/
lemma gather_outputs (src : CompiledFrom g root Named prog plan loops)
    (available : Available acc plan m rootId plan.order plan.order fun _ => none)
    {outs : List Handle} (among : outs ⊆ plan.outputs) {ins : List Nat}
    (found : Forall₂ (fun output addr => plan.addresses.find? output = some addr) outs ins) :
    (gather ins).Ends m (fun vs after => after = m ∧ (¬HandsOutState g root →
        Forall₂ (acc.Gives m.session fun _ => none) outs vs))
      fun _ after => after = m ∧ HandsOutState g root := by
  by_cases stateful : HandsOutState g root
  · exact (gather_same ins m).imp (fun _ _ eq => ⟨eq, fun stateless => absurd stateful stateless⟩)
      fun _ _ eq => ⟨eq, stateful⟩
  · obtain ⟨vs, held, gives⟩ : ∃ vs, Forall₂ (fun addr v => m.frame.get? addr = some v) ins vs ∧
        Forall₂ (acc.Gives m.session fun _ => none) outs vs := by
      induction found with
      | nil => exact ⟨[], .nil, .nil⟩
      | cons addr _ ih =>
        obtain ⟨first, others⟩ := cons_subset.mp among
        obtain ⟨addr', v, found, held, gives⟩ := available.read src.compiled.planned
          (Subset.refl _) (src.output_provided stateful first)
        cases addr.symm.trans found
        obtain ⟨vs, pointwise, rest⟩ := ih others
        exact ⟨v :: vs, .cons held pointwise, .cons gives rest⟩
    exact gather_ends held ⟨rfl, fun _ => gives⟩

/-- Running a compiled program on its arguments gives a result that the account knows, unless it
hands out the state of a loop. -/
lemma CompiledFrom.runs (src : CompiledFrom g root Named prog plan loops)
    (listed : ParamsListed g root) {fuel : Nat} (enough : fuel ≤ bound)
    (valid : acc.Valid m.session)
    (fits : args.length = root.params.length)
    (frame : m.frame = Frame.withArguments plan.frameSize args) :
    (running fuel prog.code >>= fun _ => read prog.ret).Ends m
      (fun v after => acc.Valid after.session ∧ acc.Later m.session after.session ∧
        (¬HandsOutState g root → acc.Results plan after.session v))
      fun d after => acc.Valid after.session ∧ acc.Later m.session after.session ∧
        (¬HandsOutState g root → ¬OwnRead d) := by
  have planned := src.compiled.planned
  obtain ⟨body, coded, ends⟩ := src.compiled.code
  have start := available_start planned valid fits frame
  have simulates : RunsCode acc plan fuel :=
    (code_simulates planned (src.computing listed) enough).1
  have ran := simulates coded (show plan.order = [] ++ plan.order ++ [] by simp)
    planned.placed.sound.tree.nonempty start
  rcases ends with ⟨output, single, found, eq⟩ | ⟨isRet, ins, found, eq⟩
  · rw [eq]
    refine .bind (ran.imp ?_ fun _ _ failed => ⟨failed.2.1, failed.2.2, fun _ => failed.1⟩)
    rintro _ after ⟨finished, later, -⟩
    by_cases stateful : HandsOutState g root
    · refine (read_same prog.ret after).imp ?_ ?_ <;> rintro _ _ rfl <;>
        exact ⟨finished.valid, later, fun stateless => absurd stateful stateless⟩
    · have isOutput : output ∈ plan.outputs := by simp [single]
      obtain ⟨addr, v, found', held, gives⟩ := finished.read planned (Subset.refl _)
        (src.output_provided stateful isOutput)
      cases found.symm.trans found'
      exact read_ends held ⟨finished.valid, later, fun _ => .inl ⟨output, single, gives⟩⟩
  · have several : plan.outputs.length ≠ 1 := by
      rcases planned.packed with ⟨none, -⟩ | ⟨several, -⟩
      · cases isRet.symm.trans none
      · exact several
    rw [eq]
    refine .bind
      (running_append (ran.imp ?_ fun _ _ failed => ⟨failed.2.1, failed.2.2, fun _ => failed.1⟩))
    rintro _ after ⟨finished, later, -⟩ less -
    have exhausted : ∀ {d : Diagnostic}, d.problem = .stepBudgetExhausted after.budget →
        acc.Valid after.session ∧ acc.Later m.session after.session ∧
          (¬HandsOutState g root → ¬OwnRead d) := fun problem =>
      ⟨finished.valid, later, fun _ => not_ownRead_of_problem (by simp [problem])⟩
    cases less with
    | zero => exact running_zero.mpr (exhausted rfl)
    | succ less =>
      refine running_cons.mpr (.bind (step_ends (.bind ?_) (exhausted rfl)))
      have stepped : Available acc plan { after with steps := after.steps + 1 } rootId
          plan.order plan.order fun _ => none :=
        finished.move planned planned.placed.sound.tree.nonempty finished.valid (acc.refl _)
          fun _ _ => rfl
      refine (gather_outputs src stepped (Subset.refl _) found).imp ?_ ?_
      · rintro vs _ ⟨rfl, gives⟩
        refine .bind (onStore_ends (.intro (fun v s ran => ?_) fun d s ran => by cases ran))
        obtain ⟨valid', later', packs⟩ := (acc.packs vs finished.valid).of_ok ran
        refine write_ends (running_nil.mpr (read_ends ((Frame.get?_set ..).trans (if_pos rfl)) ?_))
        refine ⟨valid', acc.trans later later', fun stateless => .inr ⟨several, vs, ?_, packs⟩⟩
        exact (gives stateless).imp fun _ _ => acc.gives_later later'
      · rintro d _ ⟨rfl, stateful⟩
        exact ⟨finished.valid, later, fun stateless => absurd stateful stateless⟩

variable (acc) in
/-- A call of a compiled program. -/
lemma CompiledFrom.invokes (src : CompiledFrom g root Named prog plan loops)
    (listed : ParamsListed g root) {fuel : Nat} (enough : fuel ≤ bound)
    (valid : acc.Valid m.session) : (invokeWith (running fuel) prog args).Ends m
      (fun v after => acc.Valid after.session ∧ acc.Later m.session after.session ∧
        (¬HandsOutState g root → acc.Results plan after.session v))
      fun d after => acc.Valid after.session ∧ acc.Later m.session after.session ∧
        (¬HandsOutState g root → ¬OwnRead d) := by
  refine invokeWith_ends (fun d refused => ?_) fun fits => ?_
  · refine ⟨valid, acc.refl _, fun _ => ?_⟩
    rw [mayCall] at refused
    split at refused
    · cases refused
      exact not_ownRead_of_problem (by simp [Diagnostic.inCircuit])
    · split at refused
      · cases refused
        exact not_ownRead_of_problem (by simp [Diagnostic.inCircuit])
      · cases refused
  · exact src.runs (m := { m with
      depth := m.depth + 1
      frame := Frame.withArguments prog.frameSize args }) listed enough valid
        (fits.trans src.params) (by rw [src.frameSize])

end

end Blockflow.Compile
