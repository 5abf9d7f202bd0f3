import Blockflow.Proofs.Compile.Failures

/-!
# Values that escape their loop

The compiler looks only at the direct uses of the begin of a loop. That is enough to find every
output that sees the state of a loop, except one that is itself the begin of a loop: placement
carries a use outside of a loop back along the sources, so an output that reaches a begin without
passing the end places a direct reader of the begin outside. An output is no use, and no check is
made of it.
-/

namespace Blockflow.Compile

open List Visit Relation

/-- A path along sources that never meets `avoided`. -/
def PathAvoiding (g : Graph) (isParam : Handle → Bool) (avoided start target : Handle) : Prop :=
  start ≠ avoided ∧
    ReflTransGen (fun reader src => Reads g isParam reader src ∧ src ≠ avoided)
      start target

/-- An output that is no begin sees the state of a loop: it reaches the begin without passing the
end. -/
def Observes (g : Graph) (isParam : Handle → Bool) (loopBegin loopEnd output : Handle) : Prop :=
  kindOf g output ≠ .loopBegin ∧ PathAvoiding g isParam loopEnd output loopBegin

variable {g : Graph} {isParam : Handle → Bool} {order : List Visit}
  {loops : List (Handle × Handle)} {outs : List Handle} {p : Placement}

lemma PathAvoiding.tail (path : PathAvoiding g isParam avoided start reader)
    (reads : Reads g isParam reader src)
    (other : src ≠ avoided) : PathAvoiding g isParam avoided start src :=
  ⟨path.1, path.2.tail ⟨reads, other⟩⟩

lemma readsIn_end (isEnd : kindOf g loopEnd = .loopEnd)
    (isBody : p.loops.lookup loopEnd = some body)
    (eq : use.reader.node = loopEnd) (reads : ReadsIn g p use (some target)) : target = body := by
  subst eq
  generalize goal : some target = answer at reads
  cases reads with
  | loopName => cases goal
  | round _ _ found =>
    rw [isBody] at found
    cases found
    exact Option.some.inj goal
  | branch isSwitch =>
    rw [isEnd] at isSwitch
    cases isSwitch
  | init isBegin =>
    rw [isEnd] at isBegin
    cases isBegin
  | plain notEnd => exact absurd isEnd notEnd

section

variable (ordered : Ordered g isParam outs order loops)
  (placed : Placed g order loops outs (order.map node) p)
include ordered placed

variable {id loopEnd loopBegin : Handle} {use : Use} {own body scope : Nat}

/-- What encloses the scope in which a reader reads encloses the reader, unless the reader opened
it. -/
lemma encloses_reader (computed : p.scopes.lookup id = some own)
    (notBegin : kindOf g id ≠ .loopBegin)
    (mem : use ∈ usesOf order id) (kind : (p.tree.scope body).kind = .loop loopEnd)
    (other : use.reader.node ≠ loopEnd) (reader : p.scopes.lookup use.reader.node = some scope)
    (around : p.tree.Encloses body own) : p.tree.Encloses body scope := by
  obtain ⟨target, scope', reads, found, target'⟩ :=
    placed.use_target ordered computed notBegin mem
  obtain rfl := Option.some.inj (found.symm.trans reader)
  have inner := around.trans ((placed.hoisted computed notBegin).all use mem target reads)
  rcases target' with rfl | ⟨lies, opened⟩ | ⟨-, lies⟩
  · exact inner
  · refine inner.of_ne ?_ lies
    rintro rfl
    rcases opened with isLoop | ⟨i, isBranch⟩
    · rw [kind] at isLoop
      exact other (ScopeKind.loop.inj isLoop).symm
    · rw [kind] at isBranch
      cases isBranch
  · exact inner.trans (.of_liesIn lies)

/-- If all loops pass their checks, then no output that is no begin sees the state of a loop:
whatever such an output reaches without passing the end lies outside the loop. -/
lemma not_observes_of_checked (checked : ∀ loop ∈ loops, checkLoop order p loop = .ok ())
    (closes : (loopBegin, loopEnd) ∈ loops) (isOutput : output ∈ outs) :
    ¬Observes g isParam loopBegin loopEnd output := by
  rintro ⟨notBegin, notEnd, path⟩
  obtain ⟨body, isBody, inside⟩ := (checkLoop_eq_ok placed.sound).mp (checked _ closes)
  obtain ⟨around, -, lies, kind⟩ := placed.sound.loop isBody
  suffices outside : ∀ id, ReflTransGen (fun reader src => Reads g isParam reader src ∧
      src ≠ loopEnd) output id →
      id ≠ loopBegin ∧ id ≠ loopEnd ∧ (isParam id ∨ id ∈ order.map node) ∧
        ∀ scope, p.scopes.lookup id = some scope → ¬p.tree.Encloses body scope from
    (outside loopBegin path).1 rfl
  intro id path
  induction path with
  | refl =>
    refine ⟨?_, notEnd, ordered.covers output isOutput, fun scope found inner => ?_⟩
    · rintro rfl
      exact notBegin (ordered.closes _ closes).1
    · rw [(placed.hoisted found notBegin).output isOutput] at inner
      have top := inner.eq_root placed.sound.tree
      rw [top, ScopeTree.LiesIn, placed.sound.tree.root_parent] at lies
      cases lies
  | @tail reader src _ edge ih =>
    obtain ⟨reads, notEnd'⟩ := edge
    obtain ⟨-, otherEnd, covered, outside⟩ := ih
    have visited : reader ∈ order.map node := by
      rcases covered with param | visited
      · rw [reads.1] at param
        cases param
      · exact visited
    obtain ⟨use, mem, rfl⟩ := ordered.exists_use visited reads
    obtain ⟨scope, found⟩ := (placed.covers _).mp visited
    have notBegin' : src ≠ loopBegin := by
      rintro rfl
      rcases inside use mem with eq | ⟨scope', found', inner⟩
      · exact otherEnd eq
      · exact outside scope' found' inner
    refine ⟨notBegin', notEnd', ordered.covered visited reads, fun own computed inner => ?_⟩
    by_cases isBegin : kindOf g src = .loopBegin
    · -- The begin of another loop lies in that loop, and so does the reader unless it is the end.
      obtain ⟨otherEnd', closes', body'⟩ := placed.begins computed isBegin
      have closes' := lookup_mem closes'
      obtain ⟨body'', isBody', inside'⟩ := (checkLoop_eq_ok placed.sound).mp (checked _ closes')
      obtain rfl := Option.some.inj (isBody'.symm.trans body')
      obtain ⟨around', found', lies', kind'⟩ := placed.sound.loop body'
      rcases inside' use mem with eq | ⟨scope', foundReader, within⟩
      · refine outside around' (eq ▸ found') (inner.of_ne ?_ lies')
        rintro rfl
        rw [kind] at kind'
        cases kind'
        exact notBegin' (ordered.eq_of_loops closes' closes)
      · exact outside scope' foundReader (inner.trans within)
    · exact outside scope found
        (encloses_reader ordered placed computed isBegin mem kind otherEnd found inner)

/-- A scope around the reader is around what the reader reads, unless it is a loop that the reader
begins. -/
lemma encloses_target (computed : p.scopes.lookup id = some own)
    (notBegin : kindOf g id ≠ .loopBegin) (mem : use ∈ usesOf order id)
    (reads : ReadsIn g p use (some target))
    (around : ∀ scope, p.scopes.lookup use.reader.node = some scope → p.tree.Encloses body scope)
    (other : kindOf g use.reader.node = .loopBegin → p.scopes.lookup use.reader.node ≠ some body) :
    p.tree.Encloses body target := by
  obtain ⟨target', scope, reads', found, cases'⟩ :=
    placed.use_target ordered computed notBegin mem
  obtain rfl := Option.some.inj (reads'.unique reads)
  rcases cases' with rfl | ⟨lies, -⟩ | ⟨isBegin, lies⟩
  · exact around _ found
  · exact (around scope found).trans (.of_liesIn lies)
  · refine (around scope found).of_ne ?_ lies
    rintro rfl
    exact other isBegin found

/-- What needs the begin of a loop, and is not reached by an output without passing the end, lies
inside the loop. -/
lemma inside_of_hidden (closes : (loopBegin, loopEnd) ∈ loops)
    (isBody : p.loops.lookup loopEnd = some body)
    (split : order = earlier ++ visit :: later)
    (other : visit.node ≠ loopEnd) (needs : ReflTransGen (Reads g isParam) visit.node loopBegin)
    (hidden : ∀ output ∈ outs, kindOf g output ≠ .loopBegin →
      ¬PathAvoiding g isParam loopEnd output visit.node)
    (found : p.scopes.lookup visit.node = some scope) :
    p.tree.Encloses body scope := by
  -- The induction goes from readers to sources: the readers of a visit come after it.
  generalize size : later.length = count
  induction count using Nat.strongRecOn generalizing earlier later visit scope with
  | ind count ih =>
  subst size
  have mem : visit ∈ order := by simp [split]
  have readers : ∀ reader ∈ order, some visit.node ∈ reader.sources → reader.node ≠ loopEnd →
      ∀ scope', p.scopes.lookup reader.node = some scope' → p.tree.Encloses body scope' := by
    intro reader inside reads notEnd scope' found'
    have edge : Reads g isParam reader.node visit.node :=
      ⟨ordered.computed reader inside, reader.sources, ordered.sources reader inside, reads⟩
    obtain ⟨first, second, eq⟩ :=
      append_of_mem (ordered.reader_later split inside reads)
    refine ih second.length (by simp [eq]; omega)
      (show order = (earlier ++ visit :: first) ++ reader :: second by
        simp [split, eq]) notEnd (.head edge needs) ?_ found' rfl
    intro output isOutput notBegin path
    exact hidden output isOutput notBegin (path.tail edge other)
  by_cases isBegin : kindOf g visit.node = .loopBegin
  · -- The begin of this loop lies in it, that of another one where its end lies, or further in.
    obtain ⟨otherEnd, closes', body'⟩ := placed.begins found isBegin
    by_cases sameLoop : otherEnd = loopEnd
    · rw [sameLoop, isBody] at body'
      cases body'
      exact .refl p.tree body
    · obtain ⟨reader, inside, rfl, reads⟩ := ordered.end_reads (lookup_mem closes')
      obtain ⟨around, found', lies, -⟩ := placed.sound.loop body'
      exact (readers reader inside reads sameLoop around found').trans (.of_liesIn lies)
  · have notOutput : visit.node ∉ outs := fun isOutput =>
      hidden visit.node isOutput isBegin ⟨other, .refl⟩
    obtain ⟨reader, visited, reads⟩ := ordered.exists_reader mem notOutput
    obtain ⟨use, uses, -⟩ := ordered.exists_use visited reads
    obtain ⟨target, -, reads', -⟩ := placed.use_target ordered found isBegin uses
    refine (placed.hoisted found isBegin).greatest notOutput body ⟨use, uses, target, reads'⟩ ?_
    intro use uses target reads
    obtain ⟨inside, pin⟩ := mem_usesOf.mp uses
    have edge := mem_of_getElem? pin
    by_cases sameEnd : use.reader.node = loopEnd
    · rw [readsIn_end (ordered.closes _ closes).2.1 isBody sameEnd reads]
      exact .refl p.tree body
    · refine encloses_target ordered placed found isBegin uses reads
        (readers use.reader inside edge sameEnd) fun isBegin' found' => ?_
      -- The reader would be the begin of the loop, which the node needs.
      obtain ⟨loopEnd', closes', body'⟩ := placed.begins found' isBegin'
      obtain ⟨-, -, -, kind⟩ := placed.sound.loop isBody
      obtain ⟨-, -, -, kind'⟩ := placed.sound.loop body'
      rw [kind] at kind'
      cases kind'
      have eq := ordered.eq_of_loops (lookup_mem closes') closes
      exact ordered.acyclic mem inside edge (eq ▸ needs)

/-- A use of a begin outside of its loop is due to an output that sees the state of the loop. -/
lemma observes_of_escape (closes : (loopBegin, loopEnd) ∈ loops)
    (isBody : p.loops.lookup loopEnd = some body)
    (uses : use ∈ usesOf order loopBegin) (other : use.reader.node ≠ loopEnd)
    (outside : ∀ scope, p.scopes.lookup use.reader.node = some scope →
      ¬p.tree.Encloses body scope) :
    ∃ output ∈ outs, Observes g isParam loopBegin loopEnd output := by
  by_contra unseen
  obtain ⟨inside, pin⟩ := mem_usesOf.mp uses
  have edge : Reads g isParam use.reader.node loopBegin :=
    ⟨ordered.computed _ inside, _, ordered.sources _ inside, mem_of_getElem? pin⟩
  have different : loopBegin ≠ loopEnd := by
    rintro rfl
    have isBegin := (ordered.closes _ closes).1
    rw [(ordered.closes _ closes).2.1] at isBegin
    cases isBegin
  obtain ⟨earlier, later, split⟩ := append_of_mem inside
  obtain ⟨scope, found⟩ := (placed.covers _).mp (mem_map_of_mem (f := node) inside)
  refine outside scope found
    (inside_of_hidden ordered placed closes isBody split other (.single edge) ?_ found)
  intro output isOutput notBegin path
  exact unseen ⟨output, isOutput, notBegin, path.tail edge different⟩

end

/-! ## What the compiler reports -/

/-- An output of a root stands for the node. -/
def IsOutput (g : Graph) (root : Root) (id : Handle) : Prop :=
  ∃ output ∈ root.outputs, StandsFor g output (some id)

/-- A loop that the outputs of a root need. -/
structure LoopOf (g : Graph) (root : Root) (loopBegin loopEnd : Handle) : Prop where
  isBegin : kindOf g loopBegin = .loopBegin
  isEnd : kindOf g loopEnd = .loopEnd
  closes : ∃ sources, sourcesOf g loopEnd = .ok sources ∧ sources.head? = some (some loopBegin)
  computed : isParamOf root loopEnd = false
  needed : ∃ output, IsOutput g root output ∧
    ReflTransGen (Reads g (isParamOf root)) output loopEnd

lemma mem_iff_isOutput (resolutions : Forall₂ (fun output target =>
    resolve g output = .ok (some target)) root.outputs outs) (id : Handle) : id ∈ outs ↔
    IsOutput g root id := by
  constructor
  · intro mem
    obtain ⟨i, at'⟩ := getElem?_of_mem mem
    obtain ⟨output, from', resolved⟩ := forall₂_getElem? resolutions at'
    exact ⟨output, mem_of_getElem? from', resolve_standsFor resolved⟩
  · rintro ⟨output, mem, stands⟩
    obtain ⟨i, at'⟩ := getElem?_of_mem mem
    obtain ⟨target, to', resolved⟩ := forall₂_getElem? resolutions.flip at'
    cases (resolve_standsFor resolved).unique stands
    exact mem_of_getElem? to'

section

variable {root : Root} {walk : Walk}
  (walked : walkOutputs g (isParamOf root) (namedOutputs root) {} = .ok (outs, walk))
include walked

lemma mem_outputs_iff (id : Handle) : id ∈ outs ↔ IsOutput g root id :=
  mem_iff_isOutput (resolved_of_named (walkOutputs_ordered walked).2) id

lemma mem_loops_iff (loopBegin loopEnd : Handle) :
    (loopBegin, loopEnd) ∈ walk.loops ↔ LoopOf g root loopBegin loopEnd := by
  obtain ⟨ordered, -⟩ := walkOutputs_ordered walked
  constructor
  · intro mem
    obtain ⟨isBegin, isEnd, visit, inside, rfl, head⟩ := ordered.closes _ mem
    obtain ⟨output, isOutput, needs⟩ := ordered.reached visit inside
    refine ⟨isBegin, isEnd, ⟨_, ordered.sources visit inside, ?_⟩, ordered.computed visit inside,
      output, (mem_outputs_iff walked output).mp isOutput, needs⟩
    cases first : visit.sources.head? with
    | none => simp [first] at head
    | some src => simpa [first] using head
  · rintro ⟨-, isEnd, ⟨sources, found, head⟩, computed, output, isOutput, needs⟩
    have visited :=
      ordered.visited_of_needed ((mem_outputs_iff walked output).mpr isOutput) needs computed
    obtain ⟨visit, inside, rfl⟩ := mem_map.mp visited
    cases (ordered.sources visit inside).symm.trans found
    rw [head?_eq_getElem?] at head
    exact (ordered.loop_head inside isEnd head).2

end

/-- A check that finds an escape finds a use outside of the loop. -/
lemma checkLoop_escapes (sound : p.Sound order)
    (failed : checkLoop order p loop = .error d) (escapes : d.problem = .valueEscapesLoop) :
    ∃ body use, p.loops.lookup loop.2 = some body ∧ use ∈ usesOf order loop.1 ∧
    use.reader.node ≠ loop.2 ∧
      ∀ scope, p.scopes.lookup use.reader.node = some scope → ¬p.tree.Encloses body scope := by
  cases isBody : p.loops.lookup loop.2 with
  | none =>
    simp only [checkLoop, isBody, Except.error.injEq] at failed
    subst failed
    cases escapes
  | some body =>
    by_contra stays
    have passed : checkLoop order p loop = .ok () := by
      refine (checkLoop_eq_ok sound).mpr ⟨body, isBody, fun use uses => ?_⟩
      by_contra outside
      rw [not_or, not_exists] at outside
      exact stays ⟨body, use, rfl, uses, outside.1, fun scope found inner =>
        outside.2 scope ⟨found, inner⟩⟩
    rw [passed] at failed
    cases failed

/-- A plan for nodes that are wired well fails only in the checks of the loops, after all nodes are
placed. -/
lemma plan_checks (failed : plan g root = .error d) (notWiring : ¬IsWiring d) :
    ∃ outs walk p, walkOutputs g (isParamOf root) (namedOutputs root) {} = .ok (outs, walk) ∧
      Placed g walk.done.reverse walk.loops outs (walk.done.reverse.map node) p ∧
      ∃ loop ∈ walk.loops, checkLoop walk.done.reverse p loop = .error d := by
  rcases bind_eq_error.mp failed with walkFailed | ⟨⟨outs, walk⟩, walked, rest⟩
  · exact absurd (walkOutputs_fails _ _ _ d walkFailed) notWiring
  · obtain ⟨ordered, -⟩ := walkOutputs_ordered walked
    rcases bind_eq_error.mp rest with placing | ⟨p, -, rest⟩
    · rcases bind_eq_error.mp placing with nodeFailed | ⟨p, done, checks⟩
      · exact absurd (FailsWith.foldlM (placeNode_fails _ _ _) _ _ d nodeFailed) notWiring
      · rcases bind_eq_error.mp checks with loopFailed | ⟨_, -, finished⟩
        · exact ⟨outs, walk, p, walked, placeNodes_placed ordered done, forM_eq_error loopFailed⟩
        · cases finished
    · cases rest

lemma compile_fails_iff
    (noOther : ∀ d, (compile g root slots).1 = .error d → d.problem = .valueEscapesLoop) :
    (∃ d, (compile g root slots).1 = .error d) ↔ ∃ d, plan g root = .error d ∧
    d.problem = .valueEscapesLoop := by
  rw [compile] at noOther ⊢
  cases planned : plan g root with
  | error d =>
    simp only [planned] at noOther ⊢
    exact ⟨fun _ => ⟨d, rfl, noOther (d.inCircuit root.name) rfl⟩, fun _ => ⟨_, rfl⟩⟩
  | ok plan =>
    simp only [planned] at noOther ⊢
    rcases emitted : (code g plan).run { slots } with ⟨d | ⟨code, ret⟩, e⟩
    · simp only [emitted] at noOther
      have fails := ((code_asks slots plan { slots } .refl).of_error emitted).1
      have escapes : d.problem = .valueEscapesLoop := noOther (d.inCircuit root.name) rfl
      simp [IsWiring, IsCrash, escapes] at fails
    · simp

/-- Where nothing else is wrong, the compiler reports a value that escapes a loop exactly if an
output that is not itself the begin of a loop sees the state of a loop. -/
theorem escape_reported_iff_observed (graph : Graph) (root : Root) (slots : Slots)
    (noOther : ∀ d, (compile graph root slots).1 = .error d → d.problem = .valueEscapesLoop) :
    (∃ d, (compile graph root slots).1 = .error d ∧ d.problem = .valueEscapesLoop) ↔
      ∃ loopBegin loopEnd output, LoopOf graph root loopBegin loopEnd ∧ IsOutput graph root output ∧
        Observes graph (isParamOf root) loopBegin loopEnd output := by
  have reported : (∃ d, (compile graph root slots).1 = .error d ∧ d.problem = .valueEscapesLoop) ↔
      ∃ d, plan graph root = .error d ∧ d.problem = .valueEscapesLoop :=
    ⟨fun ⟨d, failed, _⟩ => (compile_fails_iff noOther).mp ⟨d, failed⟩, fun escapes =>
      have ⟨d, failed⟩ := (compile_fails_iff noOther).mpr escapes
      ⟨d, failed, noOther d failed⟩⟩
  rw [reported]
  constructor
  · rintro ⟨d, failed, escapes⟩
    obtain ⟨outputs, walk, p, walked, placed, loop, closes, check⟩ :=
      plan_checks failed (by simp [IsWiring, escapes])
    obtain ⟨ordered, -⟩ := walkOutputs_ordered walked
    obtain ⟨body, use, isBody, uses, other, outside⟩ := checkLoop_escapes placed.sound check escapes
    obtain ⟨output, isOutput, observes⟩ :=
      observes_of_escape ordered placed closes isBody uses other outside
    exact ⟨loop.1, loop.2, output, (mem_loops_iff walked _ _).mp closes,
      (mem_outputs_iff walked _).mp isOutput, observes⟩
  · rintro ⟨loopBegin, loopEnd, output, isLoop, isOutput, observes⟩
    by_contra silent
    cases planned : plan graph root with
    | error d =>
      exact silent ((compile_fails_iff noOther).mp ⟨d.inCircuit root.name, by
        simp [compile, planned]⟩)
    | ok plan =>
      obtain ⟨⟨outputs, walk⟩, walked, rest⟩ := bind_eq_ok.mp planned
      obtain ⟨p, placing, -⟩ := bind_eq_ok.mp rest
      obtain ⟨ordered, -⟩ := walkOutputs_ordered walked
      obtain ⟨placed, checked⟩ := place_placed ordered placing
      exact absurd observes (not_observes_of_checked ordered placed checked
        ((mem_loops_iff walked _ _).mpr isLoop) ((mem_outputs_iff walked _).mpr isOutput))

/-- A graph of nodes that are given by their behavior and the places of their sources. -/
def ofNodes (nodes : List (Behavior × List Nat)) : Graph where
  nodes := {
    slots := (nodes.map fun (b, inputs) =>
      ⟨0, some { behavior := b, inputs := inputs.map fun i => some ⟨i, 0⟩ }⟩).toArray
    vacant := []
    size := nodes.length }

/-- A root without parameters. -/
def rootOf (outs : List Nat) : Root where
  name := "loop"
  params := []
  outputs := outs.map fun i => ⟨i, 0⟩
  outputNames := []

/-- A loop that packs its state in every round; the last node packs the result of the loop together
with the packed state. -/
def packingLoop : Graph :=
  ofNodes [(.const default, []), (.loopBegin, [0]), (.pack, [1]), (.loopEnd, [1, 2, 1]),
    (.pack, [3, 2])]

lemma packingLoop_escapes (d : Diagnostic)
    (failed : (compile packingLoop (rootOf [4]) {}).1 = .error d) :
    d.problem = .valueEscapesLoop := by
  have problem : ((compile packingLoop (rootOf [4]) {}).1.mapError Diagnostic.problem).map
      (fun _ => ()) =
      .error .valueEscapesLoop := rfl
  rw [failed] at problem
  exact Except.error.inj problem

theorem packingLoop_reported_iff_observed :
    (∀ d, (compile packingLoop (rootOf [4]) {}).1 = .error d → d.problem = .valueEscapesLoop) ∧
      ((∃ d, (compile packingLoop (rootOf [4]) {}).1 = .error d ∧ d.problem = .valueEscapesLoop) ↔
        ∃ loopBegin loopEnd output, LoopOf packingLoop (rootOf [4]) loopBegin loopEnd ∧
          IsOutput packingLoop (rootOf [4]) output ∧
          Observes packingLoop (isParamOf (rootOf [4])) loopBegin loopEnd output) :=
  ⟨packingLoop_escapes, escape_reported_iff_observed packingLoop (rootOf [4])
    {} packingLoop_escapes⟩

/-- The state of a loop that is itself an output is not reported: the path of length zero from the
output to the begin does not pass the end, and the root compiles. -/
theorem loop_state_output_compiles :
    LoopOf packingLoop (rootOf [3, 1]) ⟨1, 0⟩ ⟨3, 0⟩ ∧ IsOutput packingLoop (rootOf [3, 1]) ⟨1, 0⟩ ∧
      PathAvoiding packingLoop (isParamOf (rootOf [3, 1])) ⟨3, 0⟩ ⟨1, 0⟩ ⟨1, 0⟩ ∧
      ∃ program, (compile packingLoop (rootOf [3, 1]) {}).1 = .ok program := by
  refine ⟨⟨rfl, rfl, ⟨_, rfl, rfl⟩, rfl, ⟨3, 0⟩, ⟨⟨3, 0⟩, by decide, .itself rfl rfl⟩, .refl⟩,
    ⟨⟨1, 0⟩, by decide, .itself rfl rfl⟩, ⟨by decide, .refl⟩, _, rfl⟩

end Blockflow.Compile
