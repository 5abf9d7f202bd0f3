import Blockflow.Proofs.Compile.Plan
import Blockflow.Proofs.Graph.Nodes

/-!
# The code of a scope

`CodeOf` says what the code of a scope looks like: it goes through the visits of an order and has
one instruction for each visit placed in the scope, except the begins of loops. The body of a loop
and the branches of a switch are the codes of their own scopes, for the visits before the end or the
switch. Emission produces such code: the code of a scope is complete when the node that opens it
takes it.
-/

namespace Blockflow.Compile

open List Option Effect ScopeTree Emission

/-- Nodes that need no instruction. -/
def IsSilent : Behavior → Prop
  | .param _ | .loopBegin | .pass | .nested .. => True
  | _ => False

def Inputs (a : Addresses) (visit : Visit) (ins : List Nat) : Prop :=
  Forall₂ (fun src addr => ∃ id, src = some id ∧ a.find? id = some addr)
    visit.sources ins

/-- Where the result of a branch lies: nowhere if the branch reads nothing. -/
def BranchResult (a : Addresses) (src : Option Handle) (result : Option Nat) : Prop :=
  match src with
  | none => result = none
  | some id => ∃ addr, result = some addr ∧ a.find? id = some addr

mutual

/-- The code of a scope for the visits `todo`, after those in `done`. `Named` holds of the circuits
and slots of calls. -/
inductive CodeOf (g : Graph) (a : Addresses) (order : List Visit) (Named : String → Nat → Prop) :
    Nat → List Visit → List Visit → List Instruction → Prop where
  | nil {scope : Nat} {done : List Visit} : CodeOf g a order Named scope done [] []
  | skip {scope : Nat} {done todo : List Visit} {visit : Visit} {code : List Instruction}
      (silent : a.placement.scopes.lookup visit.node = some scope →
        ∃ behavior, behaviorOf g visit.node = some behavior ∧ IsSilent behavior)
      (rest : CodeOf g a order Named scope (done ++ [visit]) todo code) :
      CodeOf g a order Named scope done (visit :: todo) code
  | emit {scope : Nat} {done todo : List Visit} {visit : Visit} {instr : Instruction}
      {code : List Instruction} (placed : a.placement.scopes.lookup visit.node = some scope)
      (emitted : Emitted g a order Named done visit instr)
      (rest : CodeOf g a order Named scope (done ++ [visit]) todo code) :
      CodeOf g a order Named scope done (visit :: todo) (instr :: code)

/-- The instruction of a visit, after those in `done`. -/
inductive Emitted (g : Graph) (a : Addresses) (order : List Visit) (Named : String → Nat → Prop) :
    List Visit → Visit → Instruction → Prop where
  | const {done : List Visit} {visit : Visit} {v : Value} {out : Nat}
      (behavior : behaviorOf g visit.node = some (.const v))
      (addr : a.find? visit.node = some out) :
      Emitted g a order Named done visit (.loadConst v out)
  | op {done : List Visit} {visit : Visit} {native : Native} {ins : List Nat} {out : Nat}
      (behavior : behaviorOf g visit.node = some (.op native)) (inputs : Inputs a visit ins)
      (addr : a.find? visit.node = some out) :
      Emitted g a order Named done visit (.call native ins out)
  | virtual {done : List Visit} {visit : Visit} {names : List String} {ins : List Nat} {out : Nat}
      (behavior : behaviorOf g visit.node = some (.virtual names)) (inputs : Inputs a visit ins)
      (addr : a.find? visit.node = some out) :
      Emitted g a order Named done visit (.virtualCall names ins out)
  | pack {done : List Visit} {visit : Visit} {ins : List Nat} {out : Nat}
      (behavior : behaviorOf g visit.node = some .pack) (inputs : Inputs a visit ins)
      (addr : a.find? visit.node = some out) :
      Emitted g a order Named done visit (.pack ins out)
  | unpack {done : List Visit} {visit : Visit} {i input : Nat} {ins : List Nat} {out : Nat}
      (behavior : behaviorOf g visit.node = some (.unpack i)) (inputs : Inputs a visit ins)
      (first : ins[0]? = some input) (addr : a.find? visit.node = some out) :
      Emitted g a order Named done visit (.unpack i input out)
  | call {done : List Visit} {visit : Visit} {c : String} {slot : Nat} {ins : List Nat} {out : Nat}
      (behavior : behaviorOf g visit.node = some (.call c)) (named : Named c slot)
      (inputs : Inputs a visit ins) (addr : a.find? visit.node = some out) :
      Emitted g a order Named done visit (.functionCall c slot ins out)
  | loop {done : List Visit} {visit begin' : Visit} {init : Handle} {ins : List Nat} {scope : Nat}
      {addrs : Loop} {body : List Instruction}
      (behavior : behaviorOf g visit.node = some .loopEnd) (inputs : Inputs a visit ins)
      (mem : begin' ∈ order) (closes : visit.sources[0]? = some (some begin'.node))
      (starts : begin'.sources[0]? = some (some init))
      (isBody : a.placement.loops.lookup visit.node = some scope)
      (initAddress : a.find? init = some addrs.init)
      (stateAddress : a.find? begin'.node = some addrs.state)
      (nextAddress : ins[1]? = some addrs.next) (condAddress : ins[2]? = some addrs.cond)
      (outAddress : a.find? visit.node = some addrs.out)
      (cleared : (addrs.clearFrom, addrs.clearTo) = a.placement.tree.extent scope)
      (code : CodeOf g a order Named scope [] done body) :
      Emitted g a order Named done visit (.loop addrs body)
  | switch {done : List Visit} {visit : Visit} {sel : Handle} {input : Nat} {scopes : List Nat}
      {branches : List Branch} {out : Nat}
      (behavior : behaviorOf g visit.node = some .switch)
      (first : visit.sources[0]? = some (some sel)) (selectorAddress : a.find? sel = some input)
      (opened : scopes = (a.placement.branches.lookup visit.node).getD [])
      (length : branches.length = visit.sources.length - 1)
      (code : ∀ {i scope : Nat} {branch : Branch}, branches[i]? = some branch →
        scopes[i]? = some scope → CodeOf g a order Named scope [] done branch.code)
      (empty : ∀ {i : Nat} {branch : Branch}, branches[i]? = some branch →
        scopes[i]? = none → branch.code = [])
      (results : ∀ {i : Nat} {branch : Branch} {src : Option Handle},
        branches[i]? = some branch → visit.sources[i + 1]? = some src →
        BranchResult a src branch.result)
      (addr : a.find? visit.node = some out) :
      Emitted g a order Named done visit (.switch input branches out)

end

variable {g : Graph} {a : Addresses} {order : List Visit} {Named : String → Nat → Prop}

namespace CodeOf

variable {scope : Nat} {done todo : List Visit} {code : List Instruction}

lemma append {tail : List Instruction} (codes : CodeOf g a order Named scope done todo code)
    (rest : CodeOf g a order Named scope (done ++ todo) more tail) :
    CodeOf g a order Named scope done (todo ++ more) (code ++ tail) := by
  induction todo generalizing done code with
  | nil =>
    cases codes
    rwa [append_nil] at rest
  | cons next todo ih =>
    rw [append_cons] at rest
    cases codes with
    | skip silent first => exact .skip silent (ih first rest)
    | emit placed emitted first => exact .emit placed emitted (ih first rest)

end CodeOf

/-! ## Emission states -/

namespace Emission

/-- The code of a scope so far, first instruction first. -/
def codeAt (e : Emission) (scope : Nat) :
    List Instruction := ((e.code.lookup scope).getD []).reverse

lemma codeAt_push (e : Emission) (scope other : Nat) (instr : Instruction) :
    codeAt ((push scope instr).run e).2 other =
      if other = scope then e.codeAt scope ++ [instr] else e.codeAt other := by
  have run : ((push scope instr).run e).2 =
      { e with code :=
        (scope, instr :: (e.code.lookup scope).getD []) :: e.code.filter (·.1 != scope) } := rfl
  rw [run, codeAt, lookup_cons, lookup_filter_ne]
  by_cases eq : other = scope
  · simp [eq, codeAt]
  · simp [eq, codeAt]

lemma codeAt_take (e : Emission) (scope other : Nat) :
    codeAt ((take scope).run e).2 other = if other = scope then [] else e.codeAt other := by
  have run : ((take scope).run e).2 = { e with code := e.code.filter (·.1 != scope) } := rfl
  rw [run, codeAt, lookup_filter_ne]
  by_cases eq : other = scope
  · simp [eq]
  · simp [eq, codeAt]

end Emission

variable {addr out : Nat} {ins : List Nat} {instr : Instruction} {e e' : Emission}
  {result : Option Instruction} {rest done : List Visit}

/-- Slots after some circuits were asked for. -/
def SlotsAsked : Slots → Slots → Prop :=
  Relation.ReflTransGen fun slots slots' => ∃ name, slots' = (slots.slotOf name).2

lemma slotOf_lookup (slots : Slots) (name : String) :
    (slots.slotOf name).2.names.lookup name = some (slots.slotOf name).1 := by
  rw [Slots.slotOf]
  cases found : slots.names.lookup name with
  | some slot => exact found
  | none => simp [lookup_append, found]

lemma SlotsAsked.lookup {slots slots' : Slots} (asked : SlotsAsked slots slots')
    {slot : Nat} (found : slots.names.lookup name = some slot) :
    slots'.names.lookup name = some slot := by
  induction asked with
  | refl => exact found
  | tail _ step ih =>
    obtain ⟨other, rfl⟩ := step
    rw [Slots.slotOf]
    split
    · exact ih
    · simp [lookup_append, ih]

lemma SlotsAsked.program? {slots slots' : Slots} (asked : SlotsAsked slots slots') (slot : Nat) :
    slots'.program? slot = slots.program? slot := by
  induction asked with
  | refl => rfl
  | tail _ step ih =>
    obtain ⟨name, rfl⟩ := step
    rw [← ih, Slots.slotOf]
    split
    · rfl
    · rw [Slots.program?, Slots.program?, Array.getElem?_push]
      split
      next last => simp [last]
      next => rfl

lemma Emission.callees_callee (e : Emission) (name : String) :
    let after := ((callee name).run e).2
    e.callees ⊆ after.callees ∧ name ∈ after.callees ∧
      ∀ other ∈ after.callees, other ∈ e.callees ∨ ∃ slot, after.slots.names.lookup other =
        some slot := by
  show e.callees ⊆ (if name ∈ e.callees then e.callees else e.callees ++ [name]) ∧
    name ∈ (if name ∈ e.callees then e.callees else e.callees ++ [name]) ∧
    ∀ other ∈ (if name ∈ e.callees then e.callees else e.callees ++ [name]),
      other ∈ e.callees ∨ ∃ slot, (e.slots.slotOf name).2.names.lookup other = some slot
  split
  next listed => exact ⟨Subset.refl _, listed, fun _ => .inl⟩
  next =>
    refine ⟨subset_append_left _ _, by simp, fun other mem => ?_⟩
    rcases mem_append.mp mem with mem | mem
    · exact .inl mem
    · rw [mem_singleton.mp mem]
      exact .inr ⟨_, slotOf_lookup e.slots name⟩

/-! ## Instructions -/

lemma head_join {sources : List (Option Handle)} :
    sources.head?.join = some src ↔ sources[0]? = some (some src) := by
  cases sources <;> simp

lemma get_eq_ok {id : Handle} : a.get id = .ok addr ↔ a.find? id = some addr := by
  rw [Addresses.get]
  cases a.find? id <;> simp

lemma insOf_inputs (found : insOf a visit = .ok ins) : Inputs a visit ins := by
  have pointwise := mapM_eq_ok.mp found
  rw [Inputs]
  rw [forall₂_iff_get] at pointwise ⊢
  obtain ⟨length, each⟩ := pointwise
  rw [length_zipIdx] at length
  refine ⟨length, fun i bound bound' => ?_⟩
  have at' := each i (by simpa using bound) bound'
  simp only [get_eq_getElem, getElem_zipIdx, sourceAddress] at at' ⊢
  cases src : visit.sources[i] with
  | none => simp [src] at at'
  | some id =>
    rw [src] at at'
    exact ⟨id, rfl, get_eq_ok.mp at'⟩

lemma pinOf_eq_ok : pinOf ins pin = .ok addr ↔ ins[pin]? = some addr := by
  rw [pinOf]
  cases ins[pin]? <;> simp

/-- What a step of the emission leaves alone, and which slots it asks for. -/
structure Untouched (tree : ScopeTree) (visit : Visit) (e e' : Emission) : Prop where
  asked : SlotsAsked e.slots e'.slots
  called : e.callees ⊆ e'.callees
  known : ∀ name ∈ e'.callees, name ∈ e.callees ∨ ∃ slot, e'.slots.names.lookup name = some slot
  code : ∀ scope, ¬OpenedBy tree visit.node scope → e'.codeAt scope = e.codeAt scope

lemma Untouched.refl (tree : ScopeTree) (visit : Visit) (e : Emission) : Untouched tree visit e e :=
  ⟨.refl, Subset.refl _, fun _ => .inl, fun _ _ => rfl⟩

/-- The scopes that a visit opens have their code for the visits before it. -/
def Complete (g : Graph) (a : Addresses) (order : List Visit) (Named : String → Nat → Prop)
    (done : List Visit) (visit : Visit) (e : Emission) : Prop :=
  ∀ scope, OpenedBy a.placement.tree visit.node scope →
    CodeOf g a order Named scope [] done (e.codeAt scope)

lemma loopInstruction_emitted (sound : a.placement.Sound order)
    (behavior : behaviorOf g visit.node = some .loopEnd) (addr : a.find? visit.node = some out)
    (made : (loopInstruction a order visit out).run e = (.ok instr, e')) :
    Untouched a.placement.tree visit e e' ∧ ∀ {Named : String → Nat → Prop} {done : List Visit},
      Complete g a order Named done visit e → Emitted g a order Named done visit instr := by
  rw [loopInstruction] at made
  cases head : visit.sources.head?.join with
  | none => simp [head] at made
  | some first =>
    simp only [head] at made
    cases found : order.find? (·.node = first) with
    | none => simp [found] at made
    | some begin' =>
      cases start : begin'.sources.head?.join with
      | none => simp [found, start] at made
      | some init =>
        cases isBody : a.placement.loops.lookup visit.node with
        | none => simp [found, start, isBody] at made
        | some scope =>
          simp only [found, elim_some, start, isBody] at made
          obtain ⟨ins, inputs, made⟩ := run_ofExcept_bind_eq_ok.mp made
          obtain ⟨initAddress, initFound, made⟩ := run_ofExcept_bind_eq_ok.mp made
          obtain ⟨state, stateFound, made⟩ := run_ofExcept_bind_eq_ok.mp made
          obtain ⟨next, nextFound, made⟩ := run_ofExcept_bind_eq_ok.mp made
          obtain ⟨cond, condFound, made⟩ := run_ofExcept_bind_eq_ok.mp made
          obtain ⟨code, after, taken, made⟩ := run_bind_eq_ok.mp made
          cases taken
          cases made
          have sameNode : begin'.node = first := by simpa using find?_some found
          subst sameNode
          obtain ⟨around, -, -, kind⟩ := sound.loop isBody
          have opened : OpenedBy a.placement.tree visit.node scope := .inl kind
          refine ⟨⟨.refl, Subset.refl _, fun _ => .inl, fun other closed => ?_⟩, fun complete => ?_⟩
          · refine (codeAt_take e scope other).trans (if_neg ?_)
            rintro rfl
            exact closed opened
          · exact .loop behavior (insOf_inputs inputs) (mem_of_find?_eq_some found)
              (head_join.mp head) (head_join.mp start) isBody (get_eq_ok.mp initFound)
              (get_eq_ok.mp stateFound) (pinOf_eq_ok.mp nextFound) (pinOf_eq_ok.mp condFound) addr
              rfl (complete scope opened)

/-- The branches of a switch take the codes of their scopes, each its own. -/
lemma branchesOf_facts {scopes : List Nat} (distinct : scopes.Nodup)
    (each : (items.map Prod.snd).Nodup) {branches : List Branch}
    (made : (branchesOf a scopes items).run e = (.ok branches, e'))
    {original : Nat → List Instruction}
    (same : ∀ item ∈ items, ∀ scope, scopes[item.2]? = some scope →
      e.codeAt scope = original scope) :
    (e'.slots = e.slots ∧ e'.callees = e.callees) ∧
    (∀ other, other ∉ scopes → e'.codeAt other = e.codeAt other) ∧
      Forall₂ (fun item branch => branch.code = (scopes[item.2]?).elim [] original ∧
        BranchResult a item.1 branch.result) items branches := by
  induction items generalizing e branches with
  | nil =>
    cases made
    exact ⟨⟨rfl, rfl⟩, fun _ _ => rfl, .nil⟩
  | cons item items ih =>
    obtain ⟨src, i⟩ := item
    rw [map_cons, nodup_cons] at each
    obtain ⟨first, others⟩ := forall_mem_cons.mp same
    rw [branchesOf] at made
    obtain ⟨code, after, ⟨slots, callees⟩, isOriginal, kept, sameLater, made⟩ : ∃ code after,
        (after.slots = e.slots ∧ after.callees = e.callees) ∧ code = (scopes[i]?).elim [] original ∧
        (∀ other, other ∉ scopes → after.codeAt other = e.codeAt other) ∧
        (∀ item ∈ items, ∀ scope, scopes[item.2]? = some scope →
          after.codeAt scope = original scope) ∧
        (src.mapM (fun src => ofExcept (a.get src)) >>= fun result =>
          branchesOf a scopes items >>= fun rest => pure (.mk code result :: rest)).run after =
            (.ok branches, e') := by
      cases opened : scopes[i]? with
      | none =>
        simp only [opened] at made
        exact ⟨[], e, ⟨rfl, rfl⟩, rfl, fun _ _ => rfl, others, made⟩
      | some scope =>
        simp only [opened] at made
        refine ⟨e.codeAt scope, ((Emission.take scope).run e).2, ⟨rfl, rfl⟩, first scope opened,
          fun other outside => ?_, fun item mem other opened' => ?_, made⟩
        · rw [codeAt_take, if_neg]
          rintro rfl
          exact outside (mem_of_getElem? opened)
        · rw [codeAt_take, if_neg, others item mem other opened']
          rintro rfl
          have sameIndex :=
            (List.getElem?_inj (lt_of_getElem? opened) distinct).mp (opened.trans opened'.symm)
          have inside := mem_map_of_mem (f := Prod.snd) mem
          rw [← sameIndex] at inside
          exact each.1 inside
    obtain ⟨result, found, made⟩ : ∃ result, BranchResult a src result ∧
        (branchesOf a scopes items >>= fun rest => pure (.mk code result :: rest)).run after =
          (.ok branches, e') := by
      cases src with
      | none => exact ⟨none, rfl, made⟩
      | some id =>
        obtain ⟨result, _, found, made⟩ := run_bind_eq_ok.mp made
        obtain ⟨addr, got, found⟩ := run_ofExcept_bind_eq_ok.mp found
        cases found
        exact ⟨some addr, ⟨addr, rfl, get_eq_ok.mp got⟩, made⟩
    obtain ⟨rest, _, restMade, made⟩ := run_bind_eq_ok.mp made
    cases made
    obtain ⟨⟨slots', callees'⟩, kept', pointwise⟩ := ih each.2 restMade sameLater
    exact ⟨⟨slots'.trans slots, callees'.trans callees⟩, fun other outside =>
      (kept' other outside).trans (kept other outside),
      .cons ⟨isOriginal, found⟩ pointwise⟩

lemma branchScopes_nodup {id : Handle} (sound : a.placement.Sound order) :
    ((a.placement.branches.lookup id).getD []).Nodup := by
  cases found : a.placement.branches.lookup id with
  | none => simp
  | some scopes =>
    obtain ⟨_, _, _, bodies⟩ := sound.branch found
    rw [nodup_iff_getElem?_ne_getElem?]
    intro i j before bound eq
    have first := (bodies (getElem?_eq_getElem (Nat.lt_trans before bound))).2
    have second := (bodies (eq.symm.trans (getElem?_eq_getElem (Nat.lt_trans before bound)))).2
    cases first.symm.trans second
    exact Nat.lt_irrefl _ before

lemma switchInstruction_emitted (sound : a.placement.Sound order)
    (behavior : behaviorOf g visit.node = some .switch) (addr : a.find? visit.node = some out)
    (made : (switchInstruction a visit out).run e = (.ok instr, e')) :
    Untouched a.placement.tree visit e e' ∧ ∀ {Named : String → Nat → Prop} {done : List Visit},
      Complete g a order Named done visit e → Emitted g a order Named done visit instr := by
  obtain ⟨branches, after, branchesMade, made⟩ := run_bind_eq_ok.mp made
  cases head : visit.sources.head?.join with
  | none => simp [head] at made
  | some sel =>
    simp only [head] at made
    obtain ⟨input, selectorFound, made⟩ := run_ofExcept_bind_eq_ok.mp made
    cases made
    obtain ⟨⟨slots, callees⟩, kept, pointwise⟩ := branchesOf_facts (branchScopes_nodup sound)
      (by simpa using nodup_range') branchesMade (fun _ _ _ _ => rfl)
    have length : branches.length = visit.sources.length - 1 := by
      simpa using pointwise.length_eq.symm
    have each : ∀ {i : Nat} {branch : Branch}, branches[i]? = some branch →
        ∃ src, visit.sources[i + 1]? = some src ∧
          branch.code = (((a.placement.branches.lookup visit.node).getD [])[i]?).elim [] e.codeAt ∧
          BranchResult a src branch.result := by
      intro i branch at'
      obtain ⟨bound, rfl⟩ := List.getElem?_eq_some_iff.mp at'
      have holds := Forall₂.get pointwise (by simpa [length] using bound) bound
      simp only [get_eq_getElem, getElem_zipIdx, getElem_drop, Nat.zero_add] at holds
      refine ⟨_, getElem?_eq_getElem (by omega), holds.1, ?_⟩
      rw [show visit.sources[i + 1] = visit.sources[1 + i] by simp [Nat.add_comm]]
      exact holds.2
    refine ⟨⟨?_, callees ▸ Subset.refl _, fun name mem => .inl (callees ▸ mem),
      fun scope closed => kept scope fun mem => ?_⟩, fun complete => ?_⟩
    · rw [slots]
      exact .refl
    · obtain ⟨i, at'⟩ := getElem?_of_mem mem
      exact closed (.inr ⟨i, (sound.opened_branch at').1⟩)
    · refine .switch behavior (head_join.mp head)
        (get_eq_ok.mp selectorFound) rfl length ?_ ?_ ?_ addr
      · intro i scope branch at' scopeAt
        obtain ⟨-, -, isCode, -⟩ := each at'
        rw [scopeAt] at isCode
        exact isCode ▸ complete scope (.inr ⟨i, (sound.opened_branch scopeAt).1⟩)
      · intro i branch at' missing
        obtain ⟨-, -, isCode, -⟩ := each at'
        rw [missing] at isCode
        exact isCode
      · intro i branch src at' sourceAt
        obtain ⟨src', sourceAt', -, result⟩ := each at'
        cases sourceAt.symm.trans sourceAt'
        exact result

lemma instructionOf_emitted (sound : a.placement.Sound order)
    (made : (instructionOf g a order visit).run e = (.ok result, e')) :
    Untouched a.placement.tree visit e e' ∧ ∃ behavior, behaviorOf g visit.node = some behavior ∧
      (result = none ∧ IsSilent behavior ∨ ∃ instr, result = some instr ∧
        ∀ {Named : String → Nat → Prop} {done : List Visit},
          (∀ name slot, e'.slots.names.lookup name = some slot → name ∈ e'.callees →
            Named name slot) →
          Complete g a order Named done visit e → Emitted g a order Named done visit instr) := by
  obtain ⟨out, found, made⟩ := run_ofExcept_bind_eq_ok.mp made
  have addr := get_eq_ok.mp found
  have behaves : behaviorOf g visit.node = (g.node? visit.node).map Node.behavior := rfl
  rw [← behaves] at made
  cases behavior : behaviorOf g visit.node with
  | none => simp [behavior] at made
  | some known =>
    cases known <;> simp only [behavior] at made
    case const v =>
      cases made
      exact ⟨.refl .., _, rfl, .inr ⟨_, rfl, fun _ _ => .const behavior addr⟩⟩
    case op native =>
      obtain ⟨ins, inputs, made⟩ := run_ofExcept_bind_eq_ok.mp made
      obtain ⟨instr, bound, made⟩ := run_ofExcept_bind_eq_ok.mp made
      have isCall : instr = .call native ins out := by
        rw [Native.bind] at bound
        split at bound
        · cases bound
          rfl
        · cases bound
      cases made
      exact ⟨.refl .., _, rfl, .inr ⟨_, rfl, fun _ _ =>
        isCall ▸ .op behavior (insOf_inputs inputs) addr⟩⟩
    case virtual names =>
      obtain ⟨ins, inputs, made⟩ := run_ofExcept_bind_eq_ok.mp made
      cases made
      exact ⟨.refl .., _, rfl, .inr ⟨_, rfl, fun _ _ =>
        .virtual behavior (insOf_inputs inputs) addr⟩⟩
    case pack =>
      obtain ⟨ins, inputs, made⟩ := run_ofExcept_bind_eq_ok.mp made
      cases made
      exact ⟨.refl .., _, rfl, .inr ⟨_, rfl, fun _ _ => .pack behavior (insOf_inputs inputs) addr⟩⟩
    case unpack i =>
      obtain ⟨ins, inputs, made⟩ := run_ofExcept_bind_eq_ok.mp made
      obtain ⟨input, first, made⟩ := run_ofExcept_bind_eq_ok.mp made
      cases made
      exact ⟨.refl .., _, rfl, .inr ⟨_, rfl, fun _ _ =>
        .unpack behavior (insOf_inputs inputs) (pinOf_eq_ok.mp first) addr⟩⟩
    case call c =>
      obtain ⟨slot, after, asked, made⟩ := run_bind_eq_ok.mp made
      obtain ⟨ins, inputs, made⟩ := run_ofExcept_bind_eq_ok.mp made
      cases asked
      cases made
      obtain ⟨more, mem, known⟩ := callees_callee e c
      exact ⟨⟨.single ⟨c, rfl⟩, more, known, fun _ _ => rfl⟩, _, rfl, .inr ⟨_, rfl, fun named _ =>
        .call behavior (named _ _ (slotOf_lookup e.slots c) mem) (insOf_inputs inputs) addr⟩⟩
    case loopEnd =>
      obtain ⟨instr, after, loopMade, made⟩ := run_bind_eq_ok.mp made
      cases made
      obtain ⟨untouched, emitted⟩ := loopInstruction_emitted sound behavior addr loopMade
      exact ⟨untouched, _, rfl, .inr ⟨_, rfl, fun _ complete => emitted complete⟩⟩
    case switch =>
      obtain ⟨instr, after, switchMade, made⟩ := run_bind_eq_ok.mp made
      cases made
      obtain ⟨untouched, emitted⟩ := switchInstruction_emitted sound behavior addr switchMade
      exact ⟨untouched, _, rfl, .inr ⟨_, rfl, fun _ complete => emitted complete⟩⟩
    all_goals
      cases made
      exact ⟨.refl .., _, rfl, .inl ⟨rfl, trivial⟩⟩

/-! ## Runs of the emission -/

lemma emit_cons (ran : (emit g a order (visit :: rest)).run e = (.ok (), e')) :
    ∃ result after, (instructionOf g a order visit).run e = (.ok result, after) ∧
      (emit g a order rest).run (result.elim after fun instr =>
        ((push ((a.placement.scopes.lookup visit.node).getD rootId) instr).run after).2) =
      (.ok (), e') := by
  obtain ⟨result, after, made, ran⟩ := run_bind_eq_ok.mp ran
  refine ⟨result, after, made, ?_⟩
  cases result with
  | none => exact ran
  | some instr => exact ran

lemma emit_asked (sound : a.placement.Sound order)
    (ran : (emit g a order rest).run e = (.ok (), e')) :
    SlotsAsked e.slots e'.slots ∧ e.callees ⊆ e'.callees ∧
      ∀ name ∈ e'.callees, name ∈ e.callees ∨ ∃ slot, e'.slots.names.lookup name = some slot := by
  induction rest generalizing e with
  | nil =>
    cases ran
    exact ⟨.refl, Subset.refl _, fun _ => .inl⟩
  | cons visit rest ih =>
    obtain ⟨result, after, made, ran⟩ := emit_cons ran
    obtain ⟨untouched, -⟩ := instructionOf_emitted sound made
    obtain ⟨later, more, known⟩ := ih ran
    have same : ∀ collected, collected = (result.elim after fun instr =>
        ((push ((a.placement.scopes.lookup visit.node).getD rootId)
          instr).run after).2) → collected.slots = after.slots ∧
          collected.callees = after.callees := by
      rintro collected rfl
      cases result <;> exact ⟨rfl, rfl⟩
    obtain ⟨slots, callees⟩ := same _ rfl
    rw [slots] at later
    rw [callees] at more known
    refine ⟨untouched.asked.trans later, Subset.trans untouched.called more, fun name mem => ?_⟩
    rcases known name mem with before | found
    · exact (untouched.known name before).imp_right fun ⟨slot, found⟩ => ⟨slot, later.lookup found⟩
    · exact .inr found

/-- Scopes whose openers are still to come have their code so far. -/
def Collected (g : Graph) (a : Addresses) (order : List Visit)
    (Named : String → Nat → Prop) (done : List Visit) (e : Emission) : Prop :=
  ∀ scope, (∀ visit ∈ done, ¬OpenedBy a.placement.tree visit.node scope) →
    CodeOf g a order Named scope [] done (e.codeAt scope)

lemma opener_unique {scope : Nat} (first : OpenedBy tree n scope)
    (second : OpenedBy tree other scope) : n = other := by
  rcases first with kind | ⟨i, kind⟩ <;> rcases second with kind' | ⟨i', kind'⟩ <;>
    cases kind.symm.trans kind' <;> rfl

lemma Collected.visit {visit : Visit} {after : Emission} (sound : a.placement.Sound order)
    (collected : Collected g a order Named done e)
    (placed : ∃ scope, a.placement.scopes.lookup visit.node = some scope)
    (fresh : ∀ other ∈ done, other.node ≠ visit.node)
    (named : ∀ name slot, after.slots.names.lookup name = some slot → name ∈ after.callees →
      Named name slot)
    (made : (instructionOf g a order visit).run e = (.ok result, after)) :
    Collected g a order Named (done ++ [visit]) (result.elim after fun instr =>
      ((push ((a.placement.scopes.lookup visit.node).getD rootId) instr).run after).2) := by
  obtain ⟨own, placed⟩ := placed
  obtain ⟨untouched, b, behaves, outcome⟩ := instructionOf_emitted sound made
  have complete : Complete g a order Named done visit e := fun scope opened =>
    collected scope fun other mem opened' => fresh other mem (opener_unique opened' opened)
  intro scope closed
  have closedBefore : CodeOf g a order Named scope [] done (after.codeAt scope) := by
    rw [untouched.code scope (closed visit (by simp))]
    exact collected scope fun other mem => closed other (by simp [mem])
  rcases outcome with ⟨rfl, silent⟩ | ⟨instr, rfl, emitted⟩
  · simpa using closedBefore.append (.skip (fun _ => ⟨b, behaves, silent⟩) .nil)
  · rw [elim_some, codeAt_push, placed, getD_some]
    by_cases eq : scope = own
    · rw [if_pos eq, ← eq]
      exact closedBefore.append (.emit (eq ▸ placed) (emitted named complete) .nil)
    · rw [if_neg eq]
      simpa using closedBefore.append
        (.skip (fun found => absurd (some.inj (found.symm.trans placed)) eq) .nil)

lemma emit_collected (sound : a.placement.Sound order) (nodup : (order.map Visit.node).Nodup)
    (placed : ∀ visit ∈ order, ∃ scope, a.placement.scopes.lookup visit.node = some scope)
    (split : order = done ++ rest) (collected : Collected g a order Named done e)
    (named : ∀ name slot, e'.slots.names.lookup name = some slot → name ∈ e'.callees →
      Named name slot)
    (ran : (emit g a order rest).run e = (.ok (), e')) : Collected g a order Named order e' := by
  induction rest generalizing done e with
  | nil =>
    cases ran
    rw [append_nil] at split
    subst split
    exact collected
  | cons visit rest ih =>
    obtain ⟨result, after, made, ran⟩ := emit_cons ran
    refine ih (by simp [split])
      (collected.visit sound (placed visit (by simp [split])) ?_ ?_ made) ran
    · intro other mem eq
      rw [split, map_append, nodup_append] at nodup
      exact nodup.2.2 _ (mem_map_of_mem mem) _ (by simp) eq
    · intro name slot found mem
      obtain ⟨asked, more, -⟩ := emit_asked sound ran
      refine named name slot (asked.lookup ?_) (more ?_)
      · cases result <;> exact found
      · cases result <;> exact mem

/-- What the compiled code of a plan looks like: the code of the root scope, and an instruction that
packs the outputs unless there is exactly one. -/
structure Compiled (g : Graph) (root : Root) (plan : Plan) (loops : List (Handle × Handle))
    (Named : String → Nat → Prop) (code : List Instruction) (ret : Nat) : Prop where
  planned : Planned g root plan loops
  code : ∃ body, CodeOf g plan.addresses plan.order Named rootId [] plan.order body ∧
    ((∃ output, plan.outputs = [output] ∧ plan.addresses.find? output = some ret ∧ code = body) ∨
      plan.packed = some ret ∧ ∃ ins,
        Forall₂ (fun output addr => plan.addresses.find? output = some addr) plan.outputs ins ∧
        code = body ++ [.pack ins ret])

lemma code_compiled {plan : Plan} {loops : List (Handle × Handle)} {result : List Instruction}
    {ret : Nat} (planned : Planned g root plan loops) (empty : e.code = [])
    (named : ∀ name slot, e'.slots.names.lookup name = some slot → name ∈ e'.callees →
      Named name slot)
    (ran : (code g plan).run e = (.ok (result, ret), e')) :
    Compiled g root plan loops Named result ret ∧
      ∀ name ∈ e'.callees, name ∈ e.callees ∨ ∃ slot, e'.slots.names.lookup name = some slot := by
  obtain ⟨_, after, emitted, ran⟩ := run_bind_eq_ok.mp ran
  obtain ⟨body, taken, took, ran⟩ := run_bind_eq_ok.mp ran
  cases took
  have sound := planned.placed.sound
  have closed : ∀ visit ∈ plan.order, ¬OpenedBy plan.placement.tree visit.node rootId := by
    rintro visit - (kind | ⟨i, kind⟩) <;> cases sound.tree.root_kind.symm.trans kind
  obtain ⟨slots, callees, ends⟩ : e'.slots = after.slots ∧ e'.callees = after.callees ∧
      ((∃ output, plan.outputs = [output] ∧ plan.addresses.find? output = some ret ∧
        result = after.codeAt rootId) ∨
        plan.packed = some ret ∧
        ∃ ins, Forall₂ (fun output addr => plan.addresses.find? output = some addr)
            plan.outputs ins ∧ result = after.codeAt rootId ++ [.pack ins ret]) := by
    rcases planned.packed with ⟨single, length⟩ | ⟨-, addr, several, -⟩
    · obtain ⟨output, outputs⟩ := length_eq_one_iff.mp length
      simp only [single, outputs, head?_cons] at ran
      obtain ⟨addr, found, ran⟩ := run_ofExcept_bind_eq_ok.mp ran
      cases ran
      exact ⟨rfl, rfl, .inl ⟨output, outputs, get_eq_ok.mp found, rfl⟩⟩
    · simp only [several] at ran
      obtain ⟨ins, _, found, ran⟩ := run_bind_eq_ok.mp ran
      cases ran
      obtain ⟨rfl, pointwise⟩ := run_mapM_ofExcept_eq_ok found
      exact ⟨rfl, rfl, .inr ⟨several, ins, pointwise.imp fun _ _ => get_eq_ok.mp, rfl⟩⟩
  have collected : Collected g plan.addresses plan.order Named plan.order after := by
    refine emit_collected sound planned.ordered.nodup (fun visit mem => ?_)
      (show plan.order = [] ++ plan.order from rfl) ?_ (callees ▸ slots ▸ named) emitted
    · exact (planned.placed.covers _).mp (mem_map_of_mem mem)
    · intro scope _
      rw [codeAt, empty]
      exact .nil
  refine ⟨⟨planned, _, collected _ closed, ends⟩, ?_⟩
  rw [slots, callees]
  exact (emit_asked sound emitted).2.2

end Blockflow.Compile
