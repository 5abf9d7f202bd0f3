import Blockflow.Proofs.Compile.Order
import Mathlib.Data.List.Chain

/-!
# Cycles that a walk finds

A walk that ends has an order of all that the outputs need, sources first. If nothing else is wrong
with the nodes that are needed, it fails exactly if they have a cycle: every entry of the stack
reads the one above it, so a source that is still open closes a cycle, and in an order with the
sources first there is none.
-/

namespace Blockflow.Compile

open List Relation

/-- The outputs need the node. -/
def Needed (g : Graph) (isParam : Handle → Bool) (outputs : List Handle) (id : Handle) : Prop :=
  ∃ output ∈ outputs, ReflTransGen (Reads g isParam) output id

/-- The node ends the loop that begins with `first`, which it names with its first pin. -/
def EndsLoop (g : Graph) (id first : Handle) : Prop :=
  ∃ n input, g.node? id = some n ∧ n.kind = .loopEnd ∧ n.inputs.head? = some input ∧
    PinReads g input (some first) ∧ kindOf g first = .loopBegin

/-- The node is there and waits for no link. Its pins lead to nodes, but for the branches of a
switch, which may lead nowhere; no pin leads into a cycle of pass-through nodes or to one that
waits. If it ends a loop, the loop has a begin. -/
structure Intact (g : Graph) (id : Handle) (n : Node) : Prop where
  live : g.node? id = some n
  waits : n.pending = []
  pins : ∀ pin input, n.inputs[pin]? = some input →
    ∃ src, input.elim (.ok none) (resolve g) = .ok src ∧ (src = none → MayBeOpen n.kind pin)
  ends : n.kind = .loopEnd → ∃ first, EndsLoop g id first

/-- Nothing is wrong with what the outputs need, unless there are cycles: the outputs and all nodes
are intact, and no begin is closed by two ends. -/
structure FreeOfDefects (g : Graph) (isParam : Handle → Bool) (outs : List (Handle × String))
    (outputs : List Handle) : Prop where
  resolved : Forall₂ (fun out output => resolve g out.1 = .ok (some output)) outs outputs
  intact : ∀ {id}, Needed g isParam outputs id → isParam id = false → ∃ n, Intact g id n
  closedOnce : ∀ {id other first}, Needed g isParam outputs id → isParam id = false →
    Needed g isParam outputs other → isParam other = false → EndsLoop g id first →
    EndsLoop g other first → id = other

/-- The failure says that a node is on a cycle, and it is. -/
def NamesCycle (g : Graph) (isParam : Handle → Bool) (outputs : List Handle) (d : Diagnostic) :
    Prop :=
  ∃ id, d = problemAt id .dependencyCycle ∧ Needed g isParam outputs id ∧
    TransGen (Reads g isParam) id id

variable {g : Graph} {isParam : Handle → Bool} {outs : List (Handle × String)}
  {outputs : List Handle}
  {id first : Handle} {sources : List (Option Handle)}

lemma resolvePins_ok (pins : ∀ i input, inputs[i]? = some input → ∃ src,
      input.elim (.ok none) (resolve g) = .ok src ∧ (src = none → MayBeOpen kind (pin + i))) :
    ∃ sources, resolvePins g id kind pin inputs = .ok sources := by
  induction inputs generalizing pin with
  | nil => exact ⟨[], rfl⟩
  | cons input inputs ih =>
    obtain ⟨src, found, allowed⟩ := pins 0 input rfl
    obtain ⟨sources, rest⟩ : ∃ sources, resolvePins g id kind (pin + 1) inputs = .ok sources := by
      refine ih fun i input inside => ?_
      rw [Nat.add_assoc, Nat.add_comm 1 i]
      exact pins (i + 1) input inside
    have fine : (src.isNone && !(kind == .switch && 0 < pin)) = false := by
      cases src with
      | some _ => rfl
      | none =>
        obtain ⟨isSwitch, positive⟩ := allowed rfl
        simp [isSwitch, show 0 < pin from positive]
    refine ⟨src :: sources, ?_⟩
    cases input with
    | none =>
      cases found
      simp only [resolvePins, fine, rest, bind, Except.bind, pure, Except.pure,
        Bool.false_eq_true, if_false]
    | some input =>
      have resolves : resolve g input = .ok src := found
      simp only [resolvePins, resolves, fine, rest, bind, Except.bind, pure, Except.pure,
        Bool.false_eq_true, if_false]

lemma Intact.sourcesOf (intact : Intact g id n) : ∃ sources, sourcesOf g id = .ok sources := by
  rw [Compile.sourcesOf, intact.live]
  simp only [intact.waits]
  exact resolvePins_ok fun i input inside => by
    rw [Nat.zero_add]
    exact intact.pins i input inside

/-- An end names the begin of its loop with its first source. -/
lemma endsLoop_iff (found : sourcesOf g id = .ok sources) : EndsLoop g id first ↔
    kindOf g id = .loopEnd ∧ sources.head?.join = some first ∧ kindOf g first = .loopBegin := by
  obtain ⟨n, live, pins⟩ := sourcesOf_reads found
  rw [kindOf_eq live]
  generalize inputs : n.inputs = list at pins
  constructor
  · rintro ⟨n', input, live', isEnd, head, reads, begins⟩
    cases live.symm.trans live'
    refine ⟨isEnd, ?_, begins⟩
    rw [inputs] at head
    cases pins with
    | nil => cases head
    | @cons _ src _ _ reads' _ =>
      cases head
      cases input with
      | none => cases reads
      | some input => exact StandsFor.unique reads' reads
  · rintro ⟨isEnd, head, begins⟩
    cases pins with
    | nil => cases head
    | @cons input src _ _ reads _ =>
      obtain rfl : src = some first := head
      exact ⟨n, input, live, isEnd, inputs ▸ rfl, reads, begins⟩

namespace Walk

variable {walk walk' : Walk} {d : Diagnostic}

/-- Every entry of a stack reads the entry above it. -/
def Chained (g : Graph) (isParam : Handle → Bool) (stack : List (Visit × List (Option Handle))) :
    Prop :=
  stack.IsChain fun above below => Reads g isParam below.1.node above.1.node

lemma Chained.needs {stack : List (Visit × List (Option Handle))}
    (chained : Chained g isParam (top :: stack)) :
    ∀ entry ∈ top :: stack, ReflTransGen (Reads g isParam) entry.1.node top.1.node := by
  induction stack generalizing top with
  | nil =>
    intro entry mem
    cases mem_singleton.mp mem
    exact .refl
  | cons below stack ih =>
    obtain ⟨reads, rest⟩ := isChain_cons_cons.mp chained
    intro entry mem
    rcases mem_cons.mp mem with rfl | mem
    · exact .refl
    · exact (ih rest entry mem).tail reads

section

variable (free : FreeOfDefects g isParam outs outputs)
include free

/-- A node that is needed can be entered: no end visited before has its begin. -/
lemma enter_ok (sound : Sound g isParam (· ∈ outputs) above walk)
    (needed : Needed g isParam outputs id) (computed : isParam id = false) :
    ∃ walk', walk.enter g id = .ok walk' := by
  obtain ⟨n, intact⟩ := free.intact needed computed
  obtain ⟨sources, found⟩ := intact.sourcesOf
  rw [enter, found]
  by_cases isEnd : kindOf g id = .loopEnd
  · obtain ⟨first, ends⟩ := intact.ends (kindOf_eq intact.live ▸ isEnd)
    obtain ⟨-, head, begins⟩ := (endsLoop_iff found).mp ends
    have closes : ∃ loops, closeLoop g walk.loops id sources = .ok loops := by
      simp only [closeLoop, head, begins, bne_self_eq_false, Bool.false_eq_true, if_false]
      cases owner : walk.loops.lookup first with
      | none => exact ⟨_, rfl⟩
      | some last =>
        obtain ⟨before, after, split, -⟩ := lookup_eq_some_iff.mp owner
        obtain ⟨-, isEnd', visit, mem, rfl, head'⟩ := sound.closes (first, last) (by simp [split])
        have other := (endsLoop_iff (sound.sources visit mem)).mpr ⟨isEnd', head', begins⟩
        exact ⟨_, if_pos
          (free.closedOnce (sound.reached visit mem) (sound.computed visit mem) needed computed
          other ends)⟩
    obtain ⟨loops, closed⟩ := closes
    simp [isEnd, closed, bind, Except.bind, pure, Except.pure]
  · simp [isEnd, bind, Except.bind, pure, Except.pure]

/-- The source that stops a walk is on the stack, and what is on the stack needs the reader of the
source. -/
lemma run_error (sound : Sound g isParam (· ∈ outputs) none walk)
    (chained : Chained g isParam walk.stack) (failed : run g isParam steps walk = .error d) :
    NamesCycle g isParam outputs d := by
  induction steps generalizing walk with
  | zero => cases failed
  | succ steps ih =>
    rw [run] at failed
    split at failed
    next => cases failed
    next visit stack top =>
      rw [top] at chained
      exact ih (sound.finish top) chained.tail failed
    next visit src rest stack top =>
      have looked := sound.look top
      have chained' : Chained g isParam ((visit, rest) :: stack) := by
        rw [top] at chained
        obtain ⟨reads, below⟩ := isChain_cons.mp chained
        exact below.cons reads
      cases src with
      | none => exact ih looked chained' failed
      | some id =>
        obtain ⟨reads, needed⟩ := sound.reads top
        simp only at failed
        split at failed
        next covered => exact ih (looked.skip (by simpa using covered)) chained' failed
        next uncovered =>
          simp only [Bool.or_eq_true, not_or, Bool.not_eq_true] at uncovered
          split at failed
          next isOpen =>
            cases failed
            -- the source is under way already, and the stack leads from it back to its reader
            obtain ⟨entry, mem, eq⟩ := any_eq_true.mp isOpen
            have back := chained'.needs entry mem
            rw [of_decide_eq_true eq] at back
            exact ⟨id, rfl, needed, .tail' back reads⟩
          next notOpen =>
            have fresh := fresh_of_not_done notOpen uncovered.2
            obtain ⟨walk', entered⟩ := enter_ok free looked needed uncovered.1
            obtain ⟨sources, -, stack', -, -⟩ := enter_stack entered
            rw [entered] at failed
            refine ih (looked.enter uncovered.1 fresh needed entered) ?_ failed
            rw [stack']
            exact isChain_cons_cons.mpr ⟨reads, chained'⟩

lemma visit_error (sound : Sound g isParam (· ∈ outputs) none walk) (empty : walk.stack = [])
    (isOutput : id ∈ outputs) (failed : walk.visit g isParam id = .error d) :
    NamesCycle g isParam outputs d := by
  rw [visit] at failed
  split at failed
  next => cases failed
  next uncovered =>
    simp only [Bool.or_eq_true, not_or, Bool.not_eq_true] at uncovered
    have needed : Needed g isParam outputs id := ⟨id, isOutput, .refl⟩
    have fresh : id ∉ walk.nodes := fresh_of_not_done (by simp [isOpen, empty]) uncovered.2
    obtain ⟨walk', entered⟩ := enter_ok free sound needed uncovered.1
    obtain ⟨sources, -, stack, -, -⟩ := enter_stack entered
    rw [entered] at failed
    refine run_error free ((sound.begin empty).enter uncovered.1 fresh needed entered) ?_ failed
    rw [stack, empty]
    exact .singleton _

end

lemma walkOutputs_error {all : List (Handle × String)} (free : FreeOfDefects g isParam all outputs)
    (resolved : Forall₂ (fun out output => resolve g out.1 = .ok (some output)) outs ends)
    (among : ∀ output ∈ ends, output ∈ outputs) (sound : Sound g isParam (· ∈ outputs) none walk)
    (empty : walk.stack = []) (failed : walkOutputs g isParam outs walk = .error d) :
    NamesCycle g isParam outputs d := by
  induction resolved generalizing walk with
  | nil => cases failed
  | @cons out output outs rest found _ ih =>
    obtain ⟨isOutput, among⟩ := forall_mem_cons.mp among
    obtain ⟨name, text⟩ := out
    rw [walkOutputs, show resolve g name = _ from found] at failed
    change (walk.visit g isParam output >>= _) = _ at failed
    rcases bind_eq_error.mp failed with visited | ⟨next, visited, failed⟩
    · exact visit_error free sound empty isOutput visited
    · obtain ⟨sound', empty', -⟩ := visit_sound sound empty isOutput visited
      rcases bind_eq_error.mp failed with others | ⟨answer, -, done⟩
      · exact ih among sound' empty' others
      · cases done

end Walk

lemma Ordered.not_cyclic (ordered : Ordered g isParam outputs order loops)
    (needed : Needed g isParam outputs id) :
    ¬TransGen (Reads g isParam) id id := by
  intro cycle
  obtain ⟨src, reads, back⟩ := TransGen.head'_iff.mp cycle
  obtain ⟨output, isOutput, path⟩ := needed
  have visited : ∀ {other}, ReflTransGen (Reads g isParam) id other → isParam other = false →
      ∃ visit ∈ order, visit.node = other :=
    fun more computed => mem_map.mp (ordered.visited_of_needed isOutput (path.trans more) computed)
  have computed : isParam src = false := by
    rcases ReflTransGen.cases_head back with rfl | ⟨_, reads', -⟩
    · exact reads.1
    · exact reads'.1
  obtain ⟨reader, inside, rfl⟩ := visited .refl reads.1
  obtain ⟨visit, mem, rfl⟩ := visited (.single reads) computed
  obtain ⟨-, sources, found, reads⟩ := reads
  cases (ordered.sources reader inside).symm.trans found
  exact ordered.acyclic mem inside reads back

/-- A constant that is packed, and a pack that reads itself. -/
def packs : Graph :=
  let nodes := [(Behavior.const default, 0), (.pack, 1), (.pack, 1)].foldl
    (fun g (b, inputs) => (g.addNode b inputs none).2) ({} : Graph)
  (nodes.connect ⟨1, 0⟩ 0 (some ⟨0, 0⟩)).connect ⟨2, 0⟩ 0 (some ⟨2, 0⟩)

end Blockflow.Compile
