import Blockflow.Proofs.Arena
import Blockflow.Proofs.Compile.Sources
import Mathlib.Algebra.Ring.Nat
import Mathlib.Data.List.Nodup

/-!
# The order of a walk

A walk visits what the outputs need, every node once and after its sources. The stack holds a chain
of readers: what an entry has already looked at is a parameter, done, or the entry above. Unvisited
nodes and the sources still to be looked at pay for the steps, so a walk ends with an empty stack.
-/

namespace Blockflow.Compile

open List Visit Relation Walk

/-- In a list of visits, latest first, the sources of a visit are parameters or come later in the
list. -/
def SourcesFirst (isParam : Handle → Bool) : List Visit → Prop
  | [] => True
  | visit :: older =>
    (∀ src, some src ∈ visit.sources →
      isParam src ∨ src ∈ older.map node) ∧ SourcesFirst isParam older

/-- What an entry of the stack has looked at is a parameter, done, or the entry above it. -/
def Stacked (isParam : Handle → Bool) (done : List Visit) :
    Option Handle → List (Visit × List (Option Handle)) → Prop
  | _, [] => True
  | above, (visit, rest) :: stack =>
    (∃ seen, visit.sources = seen ++ rest ∧ ∀ src, some src ∈ seen →
      isParam src ∨ src ∈ done.map node ∨ above = some src) ∧
    Stacked isParam done (some visit.node) stack

namespace Stacked

variable {isParam : Handle → Bool} {done done' : List Visit}
  {stack : List (Visit × List (Option Handle))}

/-- More nodes are done, and what stood above is covered or still there. -/
lemma mono (more : ∀ id ∈ done.map node, id ∈ done'.map node)
    (top : ∀ id, above = some id → isParam id ∨ id ∈ done'.map node ∨ above' = some id)
    (stacked : Stacked isParam done above stack) : Stacked isParam done' above' stack := by
  induction stack generalizing above above' with
  | nil => trivial
  | cons entry stack ih =>
    obtain ⟨⟨seen, split, looked⟩, below⟩ := stacked
    refine ⟨⟨seen, split, fun src mem => ?_⟩, ih (fun _ eq => .inr (.inr eq)) below⟩
    rcases looked src mem with param | finished | isAbove
    · exact .inl param
    · exact .inr (.inl (more src finished))
    · exact top src isAbove

end Stacked

namespace Walk

def visits (walk : Walk) : List Visit := walk.stack.map Prod.fst ++ walk.done

def nodes (walk : Walk) : List Handle := walk.visits.map node

/-- A loop of the walk: its end was visited and closes its begin. -/
def Closes (g : Graph) (visits : List Visit) (loopBegin loopEnd : Handle) : Prop :=
  kindOf g loopBegin = .loopBegin ∧ kindOf g loopEnd = .loopEnd ∧
    ∃ visit ∈ visits, visit.node = loopEnd ∧ visit.sources.head?.join = some loopBegin

/-- What holds of a walk at every step. `Start` holds of the nodes that the walk was started with;
the node `above` is about to be entered. -/
structure Sound (g : Graph) (isParam : Handle → Bool) (Start : Handle → Prop)
    (above : Option Handle) (walk : Walk) : Prop where
  sources : ∀ visit ∈ walk.visits, sourcesOf g visit.node = .ok visit.sources
  computed : ∀ visit ∈ walk.visits, isParam visit.node = false
  nodup : walk.nodes.Nodup
  done : SourcesFirst isParam walk.done
  stack : Stacked isParam walk.done above walk.stack
  reached : ∀ visit ∈ walk.visits, ∃ start, Start start ∧
    ReflTransGen (Reads g isParam) start visit.node
  closes : ∀ loop ∈ walk.loops, Closes g walk.visits loop.1 loop.2
  closed : ∀ visit ∈ walk.visits, kindOf g visit.node = .loopEnd →
    ∃ first, visit.sources.head?.join = some first ∧ (first, visit.node) ∈ walk.loops
  loops : (walk.loops.map Prod.fst).Nodup

variable {g : Graph} {isParam : Handle → Bool} {Start : Handle → Prop}
  {walk walk' : Walk} {id : Handle}
  {visit : Visit} {stack : List (Visit × List (Option Handle))} {wanted wanted' : Handle → Bool}

lemma sound_empty : Sound g isParam Start none {} where
  sources := by simp [visits]
  computed := by simp [visits]
  nodup := by simp [nodes, visits]
  done := trivial
  stack := trivial
  reached := by simp [visits]
  closes := by simp
  closed := by simp [visits]
  loops := by simp

lemma isDone_iff : walk.isDone id ↔ id ∈ walk.done.map node := by
  simp [isDone]

lemma mem_nodes : id ∈ walk.nodes ↔ walk.isOpen id ∨ walk.isDone id := by
  simp [isDone, isOpen, nodes, visits]

/-- A walk with the same visits, up to their order, and the same loops. -/
lemma Sound.of_visits (sound : Sound g isParam Start above walk)
    (same : walk'.visits.Perm walk.visits) (loops : walk'.loops = walk.loops)
    (done : SourcesFirst isParam walk'.done)
    (stack : Stacked isParam walk'.done above' walk'.stack) :
    Sound g isParam Start above' walk' where
  sources visit mem := sound.sources visit (same.mem_iff.mp mem)
  computed visit mem := sound.computed visit (same.mem_iff.mp mem)
  nodup := (same.map node).nodup_iff.mpr sound.nodup
  done := done
  stack := stack
  reached visit mem := sound.reached visit (same.mem_iff.mp mem)
  closes loop mem := by
    obtain ⟨first, last, visit, found, facts⟩ := sound.closes loop (loops ▸ mem)
    exact ⟨first, last, visit, same.mem_iff.mpr found, facts⟩
  closed visit mem isEnd := by
    rw [loops]
    exact sound.closed visit (same.mem_iff.mp mem) isEnd
  loops := by rw [loops]; exact sound.loops

/-! ## One lemma per move -/

lemma Sound.finish (sound : Sound g isParam Start none walk)
    (top : walk.stack = (visit, []) :: stack) :
    Sound g isParam Start none { walk with stack, done := visit :: walk.done } := by
  obtain ⟨⟨seen, split, looked⟩, below⟩ := top ▸ sound.stack
  rw [append_nil] at split
  refine sound.of_visits ?_ rfl ⟨fun src mem => ?_, sound.done⟩ ?_
  · simp only [visits, top, map_cons]
    exact perm_middle
  · rcases looked src (split ▸ mem) with param | finished | above
    · exact .inl param
    · exact .inr finished
    · cases above
  · refine below.mono (fun _ mem => mem_cons_of_mem _ mem) ?_
    rintro _ ⟨⟩
    exact .inr (.inl mem_cons_self)

lemma Sound.look (sound : Sound g isParam Start none walk)
    (top : walk.stack = (visit, src :: rest) :: stack) :
    Sound g isParam Start src { walk with stack := (visit, rest) :: stack } := by
  obtain ⟨⟨seen, split, looked⟩, below⟩ := top ▸ sound.stack
  refine sound.of_visits ?_ rfl sound.done ⟨⟨seen ++ [src], by simp [split], ?_⟩, below⟩
  · simp [visits, top]
  · intro other mem
    rcases mem_append.mp mem with earlier | last
    · rcases looked other earlier with param | finished | above
      · exact .inl param
      · exact .inr (.inl finished)
      · cases above
    · exact .inr (.inr (mem_singleton.mp last).symm)

lemma Sound.skip (sound : Sound g isParam Start (some id) walk)
    (covered : isParam id ∨ walk.isDone id) : Sound g isParam Start none walk := by
  refine sound.of_visits (.refl _) rfl sound.done (sound.stack.mono (fun _ mem => mem) ?_)
  rintro _ ⟨⟩
  exact covered.imp_right fun done => .inl (isDone_iff.mp done)

lemma Sound.reads (sound : Sound g isParam Start none walk)
    (top : walk.stack = (visit, some id :: rest) :: stack) : Reads g isParam visit.node id ∧
      ∃ start, Start start ∧ ReflTransGen (Reads g isParam) start id := by
  have reader : visit ∈ walk.visits := by simp [visits, top]
  obtain ⟨start, isStart, path⟩ := sound.reached visit reader
  obtain ⟨⟨seen, split, -⟩, -⟩ := top ▸ sound.stack
  have reads : Reads g isParam visit.node id :=
    ⟨sound.computed visit reader, visit.sources, sound.sources visit reader, by simp [split]⟩
  exact ⟨reads, start, isStart, path.tail reads⟩

/-- A walk with nothing under way can begin with any node. -/
lemma Sound.begin (sound : Sound g isParam Start none walk) (empty : walk.stack = []) :
    Sound g isParam Start (some id) walk :=
  sound.of_visits (.refl _) rfl sound.done (by rw [empty]; trivial)

lemma fresh_of_not_done (notOpen : ¬walk.isOpen id) (notDone : walk.isDone id = false) :
    id ∉ walk.nodes := by
  rw [mem_nodes]
  simp [notOpen, notDone]

lemma closeLoop_cases {loops loops' : List (Handle × Handle)}
    {sources : List (Option Handle)} (closed : closeLoop g loops id sources = .ok loops') :
    ∃ first, sources.head?.join = some first ∧ kindOf g first = .loopBegin ∧
    (loops' = loops ∧ (first, id) ∈ loops ∨
        loops' = loops ++ [(first, id)] ∧ first ∉ loops.map Prod.fst) := by
  rw [closeLoop] at closed
  cases head : sources.head?.join with
  | none => simp [head] at closed
  | some first =>
    simp only [head] at closed
    split at closed
    next => cases closed
    next begins =>
      refine ⟨first, rfl, by simpa using begins, ?_⟩
      cases owner : loops.lookup first with
      | none =>
        simp only [owner, Except.ok.injEq] at closed
        refine .inr ⟨closed.symm, ?_⟩
        intro mem
        obtain ⟨entry, found, eq⟩ := mem_map.mp mem
        have missing := lookup_eq_none_iff.mp owner entry found
        simp [eq] at missing
      | some last =>
        simp only [owner] at closed
        split at closed
        next eq =>
          subst eq
          cases closed
          obtain ⟨before, after, split, -⟩ := lookup_eq_some_iff.mp owner
          exact .inl ⟨rfl, by simp [split]⟩
        next => cases closed

/-- The walk that enters a node has it on top of its stack, and an end closes a loop. -/
lemma enter_stack (entered : walk.enter g id = .ok walk') :
    ∃ sources, sourcesOf g id = .ok sources ∧
      walk'.stack = (⟨id, sources⟩, sources) :: walk.stack ∧ walk'.done = walk.done ∧
      (walk'.loops = walk.loops ∧ (kindOf g id = .loopEnd →
          ∃ first, sources.head?.join = some first ∧ (first, id) ∈ walk.loops) ∨
        ∃ first, sources.head?.join = some first ∧ kindOf g first = .loopBegin ∧
        kindOf g id = .loopEnd ∧
          walk'.loops = walk.loops ++ [(first, id)] ∧ first ∉ walk.loops.map Prod.fst) := by
  obtain ⟨sources, found, entered⟩ := bind_eq_ok.mp entered
  split at entered
  next isEnd =>
    obtain ⟨loops, closed, eq⟩ := bind_eq_ok.mp entered
    cases eq
    obtain ⟨first, head, begins, ⟨eq, mem⟩ | added⟩ := closeLoop_cases closed
    · exact ⟨sources, found, rfl, rfl, .inl ⟨eq, fun _ => ⟨first, head, mem⟩⟩⟩
    · exact ⟨sources, found, rfl, rfl, .inr ⟨first, head, begins, by simpa using isEnd, added⟩⟩
  next notEnd =>
    cases entered
    exact ⟨sources, found, rfl, rfl, .inl ⟨rfl, fun isEnd => absurd isEnd (by simpa using notEnd)⟩⟩

/-- A new node is entered with its sources still to be looked at. -/
lemma Sound.enter (sound : Sound g isParam Start (some id) walk) (computed : isParam id = false)
    (fresh : id ∉ walk.nodes)
    (reached : ∃ start, Start start ∧ ReflTransGen (Reads g isParam) start id)
    (entered : walk.enter g id = .ok walk') : Sound g isParam Start none walk' := by
  obtain ⟨sources, found, stack, done, loops⟩ := enter_stack entered
  have visits : walk'.visits = ⟨id, sources⟩ :: walk.visits := by
    rw [visits, stack, done]
    rfl
  -- The loops of the new walk are the old ones and perhaps the one that the node closes.
  have kept : ∀ loop ∈ walk.loops, loop ∈ walk'.loops := by
    intro loop mem
    rcases loops with ⟨eq, -⟩ | ⟨first, -, -, -, added, -⟩
    · rwa [eq]
    · rw [added]
      exact mem_append_left _ mem
  constructor
  · simp only [visits, mem_cons, forall_eq_or_imp]
    exact ⟨found, sound.sources⟩
  · simp only [visits, mem_cons, forall_eq_or_imp]
    exact ⟨computed, sound.computed⟩
  · simp only [nodes, visits, map_cons, nodup_cons]
    exact ⟨fresh, sound.nodup⟩
  · rw [done]
    exact sound.done
  · rw [stack, done]
    exact ⟨⟨[], rfl, by simp⟩, sound.stack⟩
  · simp only [visits, mem_cons, forall_eq_or_imp]
    exact ⟨reached, sound.reached⟩
  · intro loop mem
    have old : loop ∈ walk.loops → Closes g walk'.visits loop.1 loop.2 := by
      intro mem
      obtain ⟨first, last, visit, inside, facts⟩ := sound.closes loop mem
      exact ⟨first, last, visit, visits ▸ mem_cons_of_mem _ inside, facts⟩
    rcases loops with ⟨eq, -⟩ | ⟨first, head, begins, isEnd, added, -⟩
    · exact old (eq ▸ mem)
    · rcases mem_append.mp (added ▸ mem) with earlier | new
      · exact old earlier
      · obtain rfl := mem_singleton.mp new
        exact ⟨begins, isEnd, ⟨id, sources⟩, by simp [visits], rfl, head⟩
  · simp only [visits, mem_cons, forall_eq_or_imp]
    refine ⟨fun isEnd => ?_, fun visit mem isEnd => ?_⟩
    · rcases loops with ⟨eq, known⟩ | ⟨first, head, -, -, added, -⟩
      · exact eq ▸ known isEnd
      · exact ⟨first, head, by simp [added]⟩
    · obtain ⟨first, head, inside⟩ := sound.closed visit mem isEnd
      exact ⟨first, head, kept _ inside⟩
  · rcases loops with ⟨eq, -⟩ | ⟨first, -, -, -, added, missing⟩
    · rw [eq]
      exact sound.loops
    · rw [added, map_append, nodup_append]
      refine ⟨sound.loops, by simp, ?_⟩
      intro a inside b last equal
      obtain rfl : b = first := by simpa using last
      exact missing (equal ▸ inside)

/-! ## Whole walks -/

/-- The price of the nodes of a list that satisfy `wanted`. -/
def price (wanted : Handle → Bool) (entries : List (Handle × Node)) : Nat :=
  ((entries.filter fun entry => wanted entry.1).map fun entry => entry.2.inputs.length + 1).sum

/-- What the rest of a walk may cost: every node that was not visited, with its pins, and what the
stack still has to look at. -/
def cost (g : Graph) (walk : Walk) : Nat :=
  (walk.stack.map fun entry => entry.2.length + 1).sum +
    price (fun id => id ∉ walk.nodes) g.nodes.toList

lemma price_cons (wanted : Handle → Bool) (entry : Handle × Node) (entries : List (Handle × Node)) :
    price wanted (entry :: entries) =
      (if wanted entry.1 then entry.2.inputs.length + 1 else 0) + price wanted entries := by
  cases counted : wanted entry.1 <;> simp [price, counted]

lemma price_le (fewer : ∀ id, wanted' id → wanted id)
    (entries : List (Handle × Node)) : price wanted' entries ≤ price wanted entries := by
  induction entries with
  | nil => exact Nat.le_refl _
  | cons entry entries ih =>
    rw [price_cons, price_cons]
    by_cases inner : wanted' entry.1
    · rw [if_pos inner, if_pos (fewer _ inner)]
      omega
    · rw [if_neg inner]
      omega

/-- A node that is no longer wanted pays for its own pins. -/
lemma price_drop (fewer : ∀ other, wanted' other → wanted other) (was : wanted id)
    (dropped : wanted' id = false) (mem : (id, n) ∈ entries) :
    price wanted' entries + (n.inputs.length + 1) ≤ price wanted entries := by
  induction entries with
  | nil => simp at mem
  | cons entry entries ih =>
    rw [price_cons, price_cons]
    rcases mem_cons.mp mem with rfl | mem
    · have rest := price_le fewer entries
      simp only [was, dropped, if_true, Bool.false_eq_true, if_false]
      omega
    · have smaller := ih mem
      by_cases inner : wanted' entry.1
      · rw [if_pos inner, if_pos (fewer _ inner)]
        omega
      · rw [if_neg inner]
        omega

lemma cost_enter (fresh : id ∉ walk.nodes)
    (entered : walk.enter g id = .ok walk') : cost g walk' ≤ cost g walk := by
  obtain ⟨sources, found, stack, done, -⟩ := enter_stack entered
  obtain ⟨n, live, pins⟩ := sourcesOf_reads found
  have nodes : walk'.nodes = id :: walk.nodes := by
    simp [nodes, visits, stack, done]
  have paid : price (fun other => other ∉ walk'.nodes) g.nodes.toList +
      (n.inputs.length + 1) ≤ price (fun other => other ∉ walk.nodes) g.nodes.toList := by
    refine price_drop ?_ ?_ ?_ (Arena.mem_toList.mpr live)
    · intro other
      simp only [nodes, mem_cons, decide_eq_true_eq, not_or]
      exact And.right
    · simpa using fresh
    · simp [nodes]
  have eq := pins.length_eq
  simp only [cost, stack, map_cons, sum_cons]
  omega

lemma cost_lt_walkSteps (empty : walk.stack = []) : cost g walk < walkSteps g := by
  have total : ∀ (entries : List (Handle × Node)) (start : Nat),
      (entries.map fun entry => entry.2.inputs.length + 1).foldl (· + ·) start =
        start + price (fun _ => true) entries := by
    intro entries
    induction entries with
    | nil => simp [price]
    | cons entry entries ih =>
      intro start
      have rest := ih (start + (entry.2.inputs.length + 1))
      simp only [price, filter_true, map_cons, foldl_cons, sum_cons] at rest ⊢
      omega
  have all : price (fun id => id ∉ walk.nodes) g.nodes.toList ≤
      price (fun _ => true) g.nodes.toList := price_le (fun _ _ => rfl) g.nodes.toList
  have steps : walkSteps g = 1 + price (fun _ => true) g.nodes.toList := total _ 1
  rw [cost, empty]
  simp only [map_nil, sum_nil]
  omega

variable (sound : Sound g isParam Start none walk)
include sound

/-- A walk that may take enough steps ends with an empty stack and forgets no visit. -/
lemma run_sound (enough : cost g walk ≤ steps) (ran : run g isParam steps walk = .ok walk') :
    Sound g isParam Start none walk' ∧ walk'.stack = [] ∧ ∀ id ∈ walk.nodes, id ∈ walk'.nodes := by
  induction steps generalizing walk with
  | zero =>
    cases ran
    refine ⟨sound, ?_, fun _ mem => mem⟩
    cases stack : walk'.stack with
    | nil => rfl
    | cons entry stack =>
      simp only [cost, stack, map_cons, sum_cons] at enough
      omega
  | succ steps ih =>
    rw [run] at ran
    split at ran
    next empty =>
      cases ran
      exact ⟨sound, empty, fun _ mem => mem⟩
    next visit stack top =>
      have same : ∀ id, id ∈ walk.nodes ↔ id ∈ nodes { walk with stack, done :=
          visit :: walk.done } := by
        simp only [nodes, visits, top, map_cons, mem_append, map_append, mem_cons]
        tauto
      obtain ⟨sound', empty, grown⟩ := ih (sound.finish top) (by
        simp only [cost, top, map_cons, sum_cons, length_nil, ← same] at enough ⊢
        omega) ran
      exact ⟨sound', empty, fun id mem => grown id ((same id).mp mem)⟩
    next visit src rest stack top =>
      have same : nodes { walk with stack := (visit, rest) :: stack } = walk.nodes := by
        simp [nodes, visits, top]
      have cheaper : cost g { walk with stack := (visit, rest) :: stack } ≤ steps := by
        simp only [cost, top, same, map_cons, sum_cons, length_cons] at enough ⊢
        omega
      have looked := sound.look top
      rw [← same]
      cases src with
      | none => exact ih looked cheaper ran
      | some id =>
        simp only at ran
        split at ran
        next covered =>
          exact ih (looked.skip (by simpa using covered)) cheaper ran
        next uncovered =>
          simp only [Bool.or_eq_true, not_or, Bool.not_eq_true] at uncovered
          split at ran
          next => cases ran
          next notOpen =>
            have fresh := fresh_of_not_done notOpen uncovered.2
            split at ran
            next => cases ran
            next entered grown =>
              obtain ⟨sound', empty, more⟩ :=
                ih (looked.enter uncovered.1 fresh (sound.reads top).2 grown)
                  (Nat.le_trans (cost_enter fresh grown) cheaper) ran
              refine ⟨sound', empty, fun other mem => more other ?_⟩
              obtain ⟨sources, -, stack', done, -⟩ := enter_stack grown
              simp only [nodes, visits, stack', done, map_cons] at mem ⊢
              exact mem_cons_of_mem _ mem

lemma visit_sound (empty : walk.stack = []) (start : Start id)
    (visited : walk.visit g isParam id = .ok walk') :
    Sound g isParam Start none walk' ∧ walk'.stack = [] ∧
      (∀ other ∈ walk.nodes, other ∈ walk'.nodes) ∧ (isParam id ∨ id ∈ walk'.nodes) := by
  rw [visit] at visited
  split at visited
  next covered =>
    cases visited
    rw [Bool.or_eq_true] at covered
    exact ⟨sound, empty, fun _ mem => mem, covered.imp_right fun finished =>
      mem_nodes.mpr (.inr finished)⟩
  next uncovered =>
    simp only [Bool.or_eq_true, not_or, Bool.not_eq_true] at uncovered
    obtain ⟨started, entered, visited⟩ := bind_eq_ok.mp visited
    have fresh : id ∉ walk.nodes := fresh_of_not_done (by simp [isOpen, empty]) uncovered.2
    have begun := (sound.begin empty).enter uncovered.1 fresh ⟨id, start, .refl⟩ entered
    have cheap := Nat.le_trans (cost_enter fresh entered) (Nat.le_of_lt (cost_lt_walkSteps empty))
    obtain ⟨sound', empty', grown⟩ := run_sound begun cheap visited
    obtain ⟨sources, -, stack, done, -⟩ := enter_stack entered
    have nodes : started.nodes = id :: walk.nodes := by
      simp [nodes, visits, stack, done]
    exact ⟨sound', empty', fun other mem => grown other (nodes ▸ mem_cons_of_mem _ mem),
      .inr (grown id (nodes ▸ mem_cons_self))⟩

lemma walkOutputs_sound (empty : walk.stack = []) (starts : ∀ output ∈ outputs, Start output)
    (walked : walkOutputs g isParam outs walk = .ok (outputs, walk')) :
    Sound g isParam Start none walk' ∧ walk'.stack = [] ∧
    (∀ other ∈ walk.nodes, other ∈ walk'.nodes) ∧
      (∀ output ∈ outputs, isParam output ∨ output ∈ walk'.nodes) ∧
      Forall₂ (fun out output => resolve g out.1 = .ok (some output)) outs outputs := by
  induction outs generalizing walk outputs with
  | nil =>
    cases walked
    exact ⟨sound, empty, fun _ mem => mem, by simp, .nil⟩
  | cons out outs ih =>
    obtain ⟨target, resolved, walked⟩ := bind_eq_ok.mp walked
    cases target with
    | none => cases walked
    | some output =>
      obtain ⟨next, visited, walked⟩ := bind_eq_ok.mp walked
      obtain ⟨⟨rest, last⟩, others, eq⟩ := bind_eq_ok.mp walked
      cases eq
      simp only [mem_cons, forall_eq_or_imp] at starts ⊢
      obtain ⟨soundNext, emptyNext, grown, covered⟩ := visit_sound sound empty starts.1 visited
      obtain ⟨soundLast, emptyLast, more, found, resolutions⟩ :=
        ih soundNext emptyNext starts.2 others
      exact ⟨soundLast, emptyLast, fun other mem => more other (grown other mem),
        ⟨covered.imp_right (more output), found⟩, .cons resolved resolutions⟩

end Walk

/-- An order of visits, sources first, of all that the outputs need. -/
structure Ordered (g : Graph) (isParam : Handle → Bool) (outs : List Handle)
    (order : List Visit) (loops : List (Handle × Handle)) : Prop where
  sources : ∀ visit ∈ order, sourcesOf g visit.node = .ok visit.sources
  computed : ∀ visit ∈ order, isParam visit.node = false
  nodup : (order.map node).Nodup
  before : ∀ {earlier later : List Visit} {visit : Visit}, order = earlier ++ visit :: later →
    ∀ src, some src ∈ visit.sources → isParam src ∨ src ∈ earlier.map node
  covers : ∀ output ∈ outs, isParam output ∨ output ∈ order.map node
  reached : ∀ visit ∈ order, ∃ output ∈ outs,
    ReflTransGen (Reads g isParam) output visit.node
  closes : ∀ loop ∈ loops, Closes g order loop.1 loop.2
  closed : ∀ visit ∈ order, kindOf g visit.node = .loopEnd →
    ∃ first, visit.sources.head?.join = some first ∧ (first, visit.node) ∈ loops
  distinct : (loops.map Prod.fst).Nodup

namespace Ordered

variable {g : Graph} {isParam : Handle → Bool} {outs : List Handle} {order : List Visit}
  {loops : List (Handle × Handle)} {earlier later : List Visit} {visit reader : Visit}
  {src target loopBegin loopEnd : Handle}

variable (ordered : Ordered g isParam outs order loops)
include ordered

lemma eq_of_node (memberA : a ∈ order) (memberB : b ∈ order) (eq : a.node = b.node) : a = b :=
  inj_on_of_nodup_map ordered.nodup memberA memberB eq

/-- Whatever reads a visited node comes after it. -/
lemma reader_later (split : order = earlier ++ visit :: later)
    (mem : reader ∈ order) (reads : some visit.node ∈ reader.sources) : reader ∈ later := by
  have computed : isParam visit.node = false := ordered.computed visit (by simp [split])
  have nodup := ordered.nodup
  have absent : ∀ {front back : List Visit}, order = front ++ reader :: back →
      visit.node ∈ front.map node := by
    intro front back split'
    rcases ordered.before split' visit.node reads with param | found
    · rw [computed] at param
      cases param
    · exact found
  rw [split] at mem
  rcases mem_append.mp mem with front | back
  · obtain ⟨first, second, rfl⟩ := append_of_mem front
    have twice :=
      absent (show order = first ++ reader :: (second ++ visit :: later) by simp [split])
    rw [split] at nodup
    simp only [map_append, map_cons, append_assoc, cons_append] at nodup
    exact absurd rfl ((nodup_append.mp nodup).2.2 _ twice visit.node (by simp))
  · rcases mem_cons.mp back with rfl | later'
    · have twice := absent split
      rw [split, map_append] at nodup
      exact absurd rfl ((nodup_append.mp nodup).2.2 _ twice reader.node (by simp))
    · exact later'

/-- What a visited node reads was visited before it, or is a parameter. -/
lemma reads_before (split : order = earlier ++ visit :: later)
    (reads : Reads g isParam visit.node src) : isParam src ∨ src ∈ earlier.map node := by
  obtain ⟨-, sources, found, mem⟩ := reads
  have eq := (ordered.sources visit (by simp [split])).symm.trans found
  cases eq
  exact ordered.before split src mem

/-- What a visited node needs was visited before it, or is a parameter. -/
lemma needs_before (split : order = earlier ++ visit :: later)
    (needs : ReflTransGen (Reads g isParam) visit.node target) :
    target = visit.node ∨ isParam target ∨ target ∈ earlier.map node := by
  induction needs with
  | refl => exact .inl rfl
  | tail _ reads ih =>
    rcases ih with rfl | param | before
    · exact .inr (ordered.reads_before split reads)
    · rw [reads.1] at param
      cases param
    · obtain ⟨middle, mem, rfl⟩ := mem_map.mp before
      obtain ⟨first, second, rfl⟩ := append_of_mem mem
      have split' : order = first ++ middle :: (second ++ visit :: later) := by simp [split]
      refine .inr ((ordered.reads_before split' reads).imp_right fun found => ?_)
      rw [map_append]
      exact mem_append_left _ found

lemma covered {id : Handle} (mem : id ∈ order.map node) (reads : Reads g isParam id src) :
    isParam src ∨ src ∈ order.map node := by
  obtain ⟨visit, inside, rfl⟩ := mem_map.mp mem
  obtain ⟨earlier, later, split⟩ := append_of_mem inside
  refine (ordered.reads_before split reads).imp_right fun found => ?_
  rw [split, map_append]
  exact mem_append_left _ found

lemma needs_covered (isOutput : output ∈ outs)
    (needs : ReflTransGen (Reads g isParam) output target) :
    isParam target ∨ target ∈ order.map node := by
  induction needs with
  | refl => exact ordered.covers output isOutput
  | tail _ reads ih =>
    rcases ih with param | visited
    · rw [reads.1] at param
      cases param
    · exact ordered.covered visited reads

lemma visited_of_needed (isOutput : output ∈ outs)
    (needs : ReflTransGen (Reads g isParam) output target) (computed : isParam target = false) :
    target ∈ order.map node :=
  (ordered.needs_covered isOutput needs).resolve_left (Bool.eq_false_iff.mp computed)

lemma exists_reader (mem : visit ∈ order)
    (notOutput : visit.node ∉ outs) :
    ∃ reader ∈ order.map node, Reads g isParam reader visit.node := by
  obtain ⟨output, isOutput, needs⟩ := ordered.reached visit mem
  rcases ReflTransGen.cases_tail needs with eq | ⟨reader, front, reads⟩
  · exact absurd (eq ▸ isOutput) notOutput
  · exact ⟨reader, ordered.visited_of_needed isOutput front reads.1, reads⟩

lemma acyclic (mem : visit ∈ order) (inside : reader ∈ order)
    (reads : some visit.node ∈ reader.sources) :
    ¬ReflTransGen (Reads g isParam) visit.node reader.node := by
  intro needs
  obtain ⟨earlier, later, split⟩ := append_of_mem mem
  have after : reader.node ∈ (visit :: later).map node :=
    mem_map_of_mem (mem_cons_of_mem _ (ordered.reader_later split inside reads))
  have nodup := ordered.nodup
  rw [split, map_append] at nodup
  obtain ⟨-, back, apart⟩ := nodup_append.mp nodup
  rcases ordered.needs_before split needs with eq | param | before
  · have twice := mem_map_of_mem (f := node) (ordered.reader_later split inside reads)
    rw [map_cons, nodup_cons, ← eq] at back
    exact back.1 twice
  · rw [ordered.computed reader inside] at param
    cases param
  · exact apart _ before _ after rfl

lemma eq_of_loops (first : (loopBegin, loopEnd) ∈ loops) (second : (other, loopEnd) ∈ loops) :
    loopBegin = other := by
  obtain ⟨-, -, visit, mem, eq, head⟩ := ordered.closes _ first
  obtain ⟨-, -, visit', mem', eq', head'⟩ := ordered.closes _ second
  obtain rfl := ordered.eq_of_node mem mem' (eq.trans eq'.symm)
  exact Option.some.inj (head.symm.trans head')

lemma end_reads (closes : (loopBegin, loopEnd) ∈ loops) :
    ∃ visit ∈ order, visit.node = loopEnd ∧ some loopBegin ∈ visit.sources := by
  obtain ⟨-, -, visit, mem, eq, head⟩ := ordered.closes _ closes
  refine ⟨visit, mem, eq, ?_⟩
  cases sources : visit.sources with
  | nil => simp [sources] at head
  | cons first rest =>
    simp only [sources, head?_cons, Option.join_some] at head
    simp [head]

/-- The first source of an end is the begin of its loop. -/
lemma loop_head (mem : visit ∈ order)
    (isEnd : kindOf g visit.node = .loopEnd) (first : visit.sources[0]? = some (some src)) :
    kindOf g src = .loopBegin ∧ (src, visit.node) ∈ loops := by
  obtain ⟨begin', head, closes⟩ := ordered.closed visit mem isEnd
  rw [head?_eq_getElem?, first] at head
  cases head
  exact ⟨(ordered.closes _ closes).1, closes⟩

end Ordered

lemma SourcesFirst.before {done : List Visit} (first : SourcesFirst isParam done)
    {visit : Visit} (split : done = later ++ visit :: earlier) (src : Handle)
    (mem : some src ∈ visit.sources) : isParam src ∨ src ∈ earlier.map node := by
  induction later generalizing done with
  | nil =>
    subst split
    exact first.1 src mem
  | cons next later ih =>
    subst split
    exact ih first.2 rfl

lemma walkOutputs_ordered (walked : walkOutputs g isParam outs {} = .ok (outputs, walk)) :
    Ordered g isParam outputs walk.done.reverse walk.loops ∧
      Forall₂ (fun out output => resolve g out.1 = .ok (some output)) outs outputs := by
  obtain ⟨sound, empty, -, found, resolutions⟩ :=
    walkOutputs_sound (show Sound g isParam (· ∈ outputs) none {} from sound_empty) rfl
      (fun _ mem => mem) walked
  have visits : walk.visits = walk.done := by simp [visits, empty]
  have inside : ∀ visit, visit ∈ walk.done.reverse → visit ∈ walk.visits := by
    intro visit mem
    rwa [visits, ← mem_reverse]
  refine ⟨{
    sources := fun visit mem => sound.sources visit (inside visit mem)
    computed := fun visit mem => sound.computed visit (inside visit mem)
    nodup := ?_
    before := ?_
    covers := fun output mem => (found output mem).imp_right fun visited => ?_
    reached := fun visit mem => sound.reached visit (inside visit mem)
    closes := fun loop mem => ?_
    closed := fun visit mem => sound.closed visit (inside visit mem)
    distinct := sound.loops }, resolutions⟩
  · have eq := (reverse_perm walk.done).map node
    rw [eq.nodup_iff, ← visits]
    exact sound.nodup
  · intro earlier later visit split src mem
    have turned : walk.done = later.reverse ++ visit :: earlier.reverse := by
      rw [← reverse_reverse walk.done, split]
      simp
    simpa using sound.done.before turned src mem
  · rw [nodes, visits] at visited
    rwa [map_reverse, mem_reverse]
  · obtain ⟨first, last, visit, mem, facts⟩ := sound.closes loop mem
    exact ⟨first, last, visit, by rwa [mem_reverse, ← visits], facts⟩

end Blockflow.Compile
