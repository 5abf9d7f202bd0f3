import Blockflow.Compile.Placement
import Blockflow.Proofs.Compile.Order
import Blockflow.Proofs.Scope.Enclosure

/-!
# Where nodes are placed

`ReadsIn` says in which scope a use reads. Placement goes from readers to sources and only ever adds
scopes, so what it finds out about a use stays true. In the end every node but the begins of loops
is placed in the innermost scope around all its uses, and the begin of a loop in the scope of the
loop.
-/

namespace Blockflow.Compile

open List Option ScopeTree Visit Placement

/-- The later placement has everything of the earlier one in its place. -/
structure Placement.Extends (p p' : Placement) : Prop where
  tree : p.tree.Grows p'.tree
  scopes : ∀ {id : Handle} {scope : Nat}, p.scopes.lookup id = some scope →
    p'.scopes.lookup id = some scope
  loops : ∀ {id : Handle} {scope : Nat}, p.loops.lookup id = some scope →
    p'.loops.lookup id = some scope
  branches : ∀ {id : Handle} {ids : List Nat}, p.branches.lookup id = some ids →
    p'.branches.lookup id = some ids

/-- The scopes of a placement belong to the nodes that they were made for. -/
structure Placement.Sound (order : List Visit) (p : Placement) : Prop where
  tree : p.tree.WellFormed
  inside : ∀ {id : Handle} {scope : Nat}, p.scopes.lookup id = some scope → scope < p.tree.size
  loop : ∀ {id : Handle} {body : Nat}, p.loops.lookup id = some body →
    ∃ scope, p.scopes.lookup id = some scope ∧ p.tree.LiesIn body scope ∧
      (p.tree.scope body).kind = .loop id
  branch : ∀ {id : Handle} {ids : List Nat}, p.branches.lookup id = some ids →
    (∃ visit ∈ order, visit.node = id ∧ ids.length = visit.sources.length - 1) ∧
    ∃ scope, p.scopes.lookup id = some scope ∧ ∀ {i body : Nat}, ids[i]? = some body →
      p.tree.LiesIn body scope ∧ (p.tree.scope body).kind = .branch id i

/-- The scope in which a use reads. The first pin of an end reads nowhere, its other pins read in
the loop, the branches of a switch in their scopes, and the first state of a loop is read around the
loop. -/
inductive ReadsIn (g : Graph) (p : Placement) (use : Use) : Option Nat → Prop where
  | loopName (isEnd : kindOf g use.reader.node = .loopEnd) (pin : use.pin = 0) :
      ReadsIn g p use none
  | round {body : Nat} (isEnd : kindOf g use.reader.node = .loopEnd) (pin : use.pin ≠ 0)
      (found : p.loops.lookup use.reader.node = some body) : ReadsIn g p use (some body)
  | branch {ids : List Nat} {i : Nat} (isSwitch : kindOf g use.reader.node = .switch)
      (pin : use.pin = i + 1) (found : p.branches.lookup use.reader.node = some ids) :
      ReadsIn g p use ids[i]?
  | init {scope : Nat} (isBegin : kindOf g use.reader.node = .loopBegin)
      (found : p.scopes.lookup use.reader.node = some scope) :
      ReadsIn g p use (p.tree.parent? scope)
  | plain {scope : Nat} (notEnd : kindOf g use.reader.node ≠ .loopEnd)
      (notBegin : kindOf g use.reader.node ≠ .loopBegin)
      (notBranch : kindOf g use.reader.node = .switch → use.pin = 0)
      (found : p.scopes.lookup use.reader.node = some scope) : ReadsIn g p use (some scope)

variable {g : Graph} {order : List Visit} {p p' p'' : Placement}

namespace Placement.Extends

lemma refl (p : Placement) : p.Extends p := ⟨.refl _, id, id, id⟩

lemma trans (first : p.Extends p') (second : p'.Extends p'') : p.Extends p'' where
  tree := first.tree.trans second.tree
  scopes found := second.scopes (first.scopes found)
  loops found := second.loops (first.loops found)
  branches found := second.branches (first.branches found)

end Placement.Extends

namespace ReadsIn

variable {use : Use}

lemma unique (first : ReadsIn g p use a) (second : ReadsIn g p use b) : a = b := by
  cases first <;> cases second <;> simp_all

lemma mono (reads : ReadsIn g p use target) (sound : p.Sound order)
    (extends' : p.Extends p') : ReadsIn g p' use target := by
  cases reads with
  | loopName isEnd pin => exact .loopName isEnd pin
  | round isEnd pin found => exact .round isEnd pin (extends'.loops found)
  | branch isSwitch pin found => exact .branch isSwitch pin (extends'.branches found)
  | init isBegin found =>
    rw [← extends'.tree.parent _ (sound.inside found)]
    exact .init isBegin (extends'.scopes found)
  | plain notEnd notBegin notBranch found =>
    exact .plain notEnd notBegin notBranch (extends'.scopes found)

lemma lt_size (reads : ReadsIn g p use (some target)) (sound : p.Sound order) :
    target < p.tree.size := by
  generalize goal : some target = found at reads
  cases reads with
  | loopName => cases goal
  | round _ _ found =>
    cases goal
    obtain ⟨scope, -, lies, -⟩ := sound.loop found
    exact lies.lt_size
  | branch _ _ found =>
    obtain ⟨-, scope, -, branches⟩ := sound.branch found
    exact (branches goal.symm).1.lt_size
  | init _ found =>
    exact Nat.lt_trans (sound.tree.liesIn goal.symm).1 (sound.inside found)
  | plain _ _ _ found =>
    cases goal
    exact sound.inside found

end ReadsIn

variable {tree : ScopeTree} {scope : Nat}

/-! ## Making scopes -/

lemma Placement.Sound.grow (sound : p.Sound order) (wf : tree.WellFormed)
    (grows : p.tree.Grows tree) :
    ({ p with tree } : Placement).Sound order ∧ p.Extends { p with tree } := by
  refine ⟨{
    tree := wf
    inside := fun found => Nat.lt_of_lt_of_le (sound.inside found) grows.size_le
    loop := ?_
    branch := ?_ }, ⟨grows, id, id, id⟩⟩
  · intro id body found
    obtain ⟨scope, placed, lies, kind⟩ := sound.loop found
    exact ⟨scope, placed, (grows.liesIn_iff lies.lt_size).mpr lies,
      (grows.kind body lies.lt_size).trans kind⟩
  · intro id ids found
    obtain ⟨arity, scope, placed, branches⟩ := sound.branch found
    refine ⟨arity, scope, placed, fun at' => ?_⟩
    obtain ⟨lies, kind⟩ := branches at'
    exact ⟨(grows.liesIn_iff lies.lt_size).mpr lies, (grows.kind _ lies.lt_size).trans kind⟩

/-- The scope of a loop is made in the scope of its end. -/
lemma loopScope_facts (sound : p.Sound order) (placed : p.scopes.lookup loopEnd = some scope) :
    (p.loopScope loopEnd scope).2.Sound order ∧ p.Extends (p.loopScope loopEnd scope).2 ∧
      (p.loopScope loopEnd scope).2.scopes = p.scopes ∧
      (p.loopScope loopEnd scope).2.loops.lookup loopEnd = some (p.loopScope loopEnd scope).1 := by
  rw [loopScope]
  split
  next body found => exact ⟨sound, .refl p, rfl, found⟩
  next missing =>
    obtain ⟨grown, extends'⟩ := sound.grow (sound.tree.child (sound.inside placed) (.loop loopEnd))
      (grows_child scope (.loop loopEnd))
    refine ⟨⟨grown.tree, grown.inside, ?_, grown.branch⟩,
      ⟨extends'.tree, id, lookup_cons_of_none missing, id⟩, rfl, lookup_cons_self⟩
    intro id body found
    rcases lookup_cons_cases found with ⟨rfl, rfl⟩ | known
    · refine ⟨scope, placed, liesIn_child scope _, ?_⟩
      rw [show (p.tree.child scope (.loop id)).1 = p.tree.size from rfl, scope_child_new]
    · exact grown.loop known

lemma addBranches_facts (switch : Handle) (count i : Nat)
    (wf : tree.WellFormed) (inside : scope < tree.size) :
    let result := addBranches switch scope count i tree
    result.2.WellFormed ∧ tree.Grows result.2 ∧ result.1.length = count ∧
      ∀ {offset body : Nat}, result.1[offset]? = some body →
        result.2.LiesIn body scope ∧ (result.2.scope body).kind = .branch switch (i + offset) := by
  induction count generalizing i tree with
  | zero => exact ⟨wf, .refl tree, rfl, by simp [addBranches]⟩
  | succ count ih =>
    have step : tree.Grows (tree.child scope (.branch switch i)).2 :=
      grows_child scope (.branch switch i)
    obtain ⟨wf', grows, length, bodies⟩ := ih (i + 1)
      (wf.child inside (.branch switch i)) (Nat.lt_of_lt_of_le inside step.size_le)
    refine ⟨wf', step.trans grows, ?_, ?_⟩
    · exact congrArg (· + 1) length
    · intro offset body found
      cases offset with
      | zero =>
        obtain rfl : tree.size = body := some.inj found
        have new : tree.size < (tree.child scope (.branch switch i)).2.size := by
          rw [size_child]
          exact Nat.lt_succ_self _
        refine ⟨(grows.liesIn_iff new).mpr (liesIn_child scope _), ?_⟩
        rw [addBranches, grows.kind _ new, scope_child_new]
        rfl
      | succ offset =>
        have later := @bodies offset body found
        rwa [Nat.add_assoc, Nat.add_comm 1 offset] at later

/-- The scopes of branches are made in the scope of their switch. -/
lemma branchScopes_facts (sound : p.Sound order)
    (mem : visit ∈ order) (placed : p.scopes.lookup visit.node = some scope) :
    let result := p.branchScopes visit.node (visit.sources.length - 1) scope
    result.2.Sound order ∧ p.Extends result.2 ∧ result.2.scopes = p.scopes ∧
      result.2.branches.lookup visit.node = some result.1 := by
  intro result
  rw [show result = p.branchScopes visit.node (visit.sources.length - 1) scope from rfl,
    branchScopes]
  split
  next ids found => exact ⟨sound, .refl p, rfl, found⟩
  next missing =>
    obtain ⟨wf, grows, length, bodies⟩ := addBranches_facts visit.node
      (visit.sources.length - 1) 0 sound.tree (sound.inside placed)
    obtain ⟨grown, extends'⟩ := sound.grow wf grows
    refine ⟨⟨grown.tree, grown.inside, grown.loop, ?_⟩,
      ⟨extends'.tree, id, id, lookup_cons_of_none missing⟩, rfl, lookup_cons_self⟩
    intro id ids found
    rcases lookup_cons_cases found with ⟨rfl, rfl⟩ | known
    · refine ⟨⟨visit, mem, rfl, length⟩, scope, placed, fun at' => ?_⟩
      obtain ⟨lies, kind⟩ := bodies at'
      rw [Nat.zero_add] at kind
      exact ⟨lies, kind⟩
    · exact grown.branch known

/-! ## The innermost scope around all uses -/

variable (g) in
lemma useScope_facts (sound : p.Sound order)
    (mem : use.reader ∈ order) (placed : p.scopes.lookup use.reader.node = some scope) :
    (useScope g p use).2.Sound order ∧ p.Extends (useScope g p use).2 ∧
    (useScope g p use).2.scopes = p.scopes ∧
      ReadsIn g (useScope g p use).2 use (useScope g p use).1 := by
  simp only [useScope, placed]
  split
  next isEnd pin => exact ⟨sound, .refl p, rfl, .loopName isEnd pin⟩
  next isEnd pin =>
    obtain ⟨sound', extends', eq, found⟩ := loopScope_facts sound placed
    exact ⟨sound', extends', eq, .round isEnd (by omega) found⟩
  next isSwitch pin =>
    obtain ⟨sound', extends', eq, found⟩ := branchScopes_facts sound mem placed
    exact ⟨sound', extends', eq, .branch isSwitch pin found⟩
  next _ isBegin => exact ⟨sound, .refl p, rfl, .init isBegin placed⟩
  next notBegin notName notRound notBranch =>
    refine ⟨sound, .refl p, rfl, .plain ?_ notBegin ?_ placed⟩
    · intro isEnd
      cases pin : use.pin with
      | zero => exact notName isEnd pin
      | succ i => exact notRound i isEnd pin
    · intro isSwitch
      cases pin : use.pin with
      | zero => rfl
      | succ i => exact absurd pin (notBranch i isSwitch)

/-- The innermost scope around all targets. -/
structure Hull (tree : ScopeTree) (Target : Nat → Prop) (scope : Nat) : Prop where
  all : ∀ target, Target target → tree.Encloses scope target
  greatest : ∀ outer, (∀ target, Target target → tree.Encloses outer target) →
    tree.Encloses outer scope

def joined (tree : ScopeTree) (scope used : Option Nat) : Option Nat :=
  match scope, used with
  | some current, some used => some (tree.common current used)
  | none, used => used
  | scope, none => scope

/-- The scope is the innermost around all targets, and is missing if there are none. -/
structure Spans (tree : ScopeTree) (Target : Nat → Prop) (scope : Option Nat) : Prop where
  inside : ∀ {target}, Target target → target < tree.size
  empty : scope = none → ∀ target, ¬Target target
  hull : ∀ {inner}, scope = some inner → Hull tree Target inner ∧ inner < tree.size

lemma Spans.self {tree : ScopeTree} {scope : Option Nat}
    (inside : ∀ target, scope = some target → target < tree.size) :
    Spans tree (scope = some ·) scope where
  inside := inside _
  empty missing target found := by cases missing.symm.trans found
  hull {inner} found := by
    refine ⟨⟨fun target eq => ?_, fun outer around => around inner found⟩, inside inner found⟩
    cases found.symm.trans eq
    exact .refl tree inner

lemma Spans.grow {scope : Option Nat} (spans : Spans tree Target scope)
    (wf : tree.WellFormed) {tree' : ScopeTree} (grows : tree.Grows tree') :
    Spans tree' Target scope where
  inside target := Nat.lt_of_lt_of_le (spans.inside target) grows.size_le
  empty := spans.empty
  hull found := by
    obtain ⟨⟨all, greatest⟩, inside⟩ := spans.hull found
    refine ⟨⟨fun target used => grows.encloses (all target used), fun outer around => ?_⟩,
      Nat.lt_of_lt_of_le inside grows.size_le⟩
    refine grows.encloses (greatest outer fun target used => ?_)
    exact (grows.encloses_iff wf (spans.inside used)).mp (around target used)

lemma Spans.join (first : Spans tree A a) (second : Spans tree B b)
    (wf : tree.WellFormed) : Spans tree (fun target => A target ∨ B target) (joined tree a b) := by
  cases a with
  | none => simpa only [first.empty rfl, false_or, joined] using second
  | some current =>
    cases b with
    | none => simpa only [second.empty rfl, or_false, joined] using first
    | some other =>
      obtain ⟨⟨allA, greatestA⟩, insideA⟩ := first.hull rfl
      obtain ⟨⟨allB, greatestB⟩, insideB⟩ := second.hull rfl
      have inner := (common_facts wf insideA insideB).2
      refine ⟨fun used => used.elim first.inside second.inside, fun missing => (by cases missing),
        fun found => ?_⟩
      cases found
      refine ⟨⟨fun target used => ?_, fun outer around => ?_⟩, inner.left.lt_size wf insideA⟩
      · exact used.elim (inner.left.trans <| allA target ·) (inner.right.trans <| allB target ·)
      · exact inner.greatest outer (greatestA outer fun target used => around target (.inl used))
          (greatestB outer fun target used => around target (.inr used))

variable (g) in
lemma commonScope_facts (sound : p.Sound order) (spans : Spans p.tree Start start)
    (placed : ∀ use ∈ uses, use.reader ∈ order ∧ ∃ scope, p.scopes.lookup use.reader.node =
      some scope) : let result := commonScope g uses start p
    result.2.Sound order ∧ p.Extends result.2 ∧ result.2.scopes = p.scopes ∧
      (∀ use ∈ uses, ∃ target, ReadsIn g result.2 use target) ∧
      Spans result.2.tree (fun target => Start target ∨
        ∃ use ∈ uses, ReadsIn g result.2 use (some target)) result.1 := by
  induction uses generalizing start Start p with
  | nil => exact ⟨sound, .refl p, rfl, by simp, by simpa [commonScope] using spans⟩
  | cons use uses ih =>
    obtain ⟨⟨mem, scope, found⟩, others⟩ := forall_mem_cons.mp placed
    obtain ⟨sound₁, extends₁, scopes₁, reads₁⟩ := useScope_facts g sound mem found
    have unfolded : commonScope g (use :: uses) start p = commonScope g uses
          (joined (useScope g p use).2.tree start (useScope g p use).1)
          (useScope g p use).2 := by
      rewrite [commonScope]
      rfl
    rw [unfolded]
    generalize useScope g p use = answer at *
    obtain ⟨used, p₁⟩ := answer
    have own : Spans p₁.tree (used = some ·) used :=
      .self fun target eq => (eq ▸ reads₁).lt_size sound₁
    -- The given scope and the first use are targets of the whole list, through their join.
    obtain ⟨sound₂, extends₂, scopes₂, settled, spans₂⟩ := ih sound₁
      ((spans.grow sound.tree extends₁.tree).join own sound₁.tree) fun use mem => by
      rw [scopes₁]; exact others use mem
    have reads₂ := reads₁.mono sound₁ extends₂
    have first : ∀ {target}, ReadsIn g _ use (some target) ↔ used = some target :=
      ⟨fun reads => reads₂.unique reads, fun eq => eq ▸ reads₂⟩
    refine ⟨sound₂, extends₁.trans extends₂, scopes₂.trans scopes₁,
      forall_mem_cons.mpr ⟨⟨used, reads₂⟩, settled⟩, ?_⟩
    simpa only [exists_mem_cons_iff, first, (or_assoc : (_ ∨ _) ∨ _ ↔ _)] using spans₂

/-! ## Placing all nodes -/

lemma mem_usesOf {id : Handle} {use : Use} : use ∈ usesOf order id ↔
      use.reader ∈ order ∧ use.reader.sources[use.pin]? = some (some id) := by
  obtain ⟨reader, pin⟩ := use
  simp only [usesOf, mem_flatMap, mem_filterMap, mem_zipIdx_iff_getElem?,
    Prod.exists, ite_none_right_eq_some, some.injEq, Use.mk.injEq]
  constructor
  · rintro ⟨visit, mem, src, pin', found, rfl, rfl, rfl⟩
    exact ⟨mem, found⟩
  · rintro ⟨mem, found⟩
    exact ⟨reader, mem, some id, pin, found, rfl, rfl, rfl⟩

/-- A node that is no begin lies in the innermost scope around its uses; an output lies in the
root. -/
structure Hoisted (g : Graph) (order : List Visit) (outs : List Handle) (p : Placement)
    (id : Handle) (scope : Nat) : Prop where
  settled : ∀ use ∈ usesOf order id, ∃ target, ReadsIn g p use target
  all : ∀ use ∈ usesOf order id, ∀ target, ReadsIn g p use (some target) →
    p.tree.Encloses scope target
  output : id ∈ outs → scope = rootId
  greatest : id ∉ outs → ∀ outer,
    (∃ use ∈ usesOf order id, ∃ target, ReadsIn g p use (some target)) →
    (∀ use ∈ usesOf order id, ∀ target, ReadsIn g p use (some target) →
      p.tree.Encloses outer target) → p.tree.Encloses outer scope

lemma Hoisted.mono {id : Handle} {scope : Nat} (hoisted : Hoisted g order outs p id scope)
    (sound : p.Sound order)
    (extends' : p.Extends p') : Hoisted g order outs p' id scope := by
  have back : ∀ use ∈ usesOf order id, ∀ target, ReadsIn g p' use (some target) →
      ReadsIn g p use (some target) := by
    intro use mem target reads
    obtain ⟨target', reads'⟩ := hoisted.settled use mem
    rwa [← (reads'.mono sound extends').unique reads]
  refine ⟨?_, ?_, hoisted.output, ?_⟩
  · intro use mem
    obtain ⟨target, reads⟩ := hoisted.settled use mem
    exact ⟨target, reads.mono sound extends'⟩
  · intro use mem target reads
    exact extends'.tree.encloses (hoisted.all use mem target (back use mem target reads))
  · rintro inner outer ⟨use, mem, target, reads⟩ around
    refine extends'.tree.encloses
      (hoisted.greatest inner outer ⟨use, mem, target, back use mem target reads⟩ ?_)
    intro other inside target' reads'
    exact (extends'.tree.encloses_iff sound.tree (reads'.lt_size sound)).mp
      (around other inside target' (reads'.mono sound extends'))

/-- What holds once the given nodes are placed. -/
structure Placed (g : Graph) (order : List Visit) (loops : List (Handle × Handle))
    (outs : List Handle) (nodes : List Handle) (p : Placement) : Prop where
  sound : p.Sound order
  covers : ∀ id, id ∈ nodes ↔ ∃ scope, p.scopes.lookup id = some scope
  hoisted : ∀ {id : Handle} {scope : Nat}, p.scopes.lookup id = some scope →
    kindOf g id ≠ .loopBegin → Hoisted g order outs p id scope
  begins : ∀ {id : Handle} {scope : Nat}, p.scopes.lookup id = some scope →
    kindOf g id = .loopBegin →
    ∃ loopEnd, loops.lookup id = some loopEnd ∧ p.loops.lookup loopEnd = some scope

variable {loops : List (Handle × Handle)} {outs nodes : List Handle}

lemma placed_empty : Placed g order loops outs [] {} where
  sound := {
    tree := wellFormed_empty
    inside := fun found => (by simp at found)
    loop := fun found => (by simp at found)
    branch := fun found => (by simp at found) }
  covers id := by simp
  hoisted found := by simp at found
  begins found := by simp at found

/-- One more node finds its scope in a placement that has everything of the one before. -/
lemma Placed.add {id : Handle} {scope : Nat} (placed : Placed g order loops outs nodes p)
    (new : id ∉ nodes) (sound : p'.Sound order) (extends' : p.Extends p')
    (scopes : p'.scopes = p.scopes)
    (inside : scope < p'.tree.size)
    (hoisted : kindOf g id ≠ .loopBegin → Hoisted g order outs p' id scope)
    (begins : kindOf g id = .loopBegin →
      ∃ loopEnd, loops.lookup id = some loopEnd ∧ p'.loops.lookup loopEnd = some scope) :
    Placed g order loops outs (id :: nodes)
      { p' with scopes := (id, scope) :: p'.scopes } := by
  have fresh : p'.scopes.lookup id = none := by
    refine eq_none_iff_forall_ne_some.mpr fun found placed' => ?_
    exact new ((placed.covers id).mpr ⟨found, scopes ▸ placed'⟩)
  have more : p'.Extends { p' with scopes := (id, scope) :: p'.scopes } :=
    ⟨.refl _, lookup_cons_of_none fresh, fun found => found, fun found => found⟩
  constructor
  · refine ⟨sound.tree, ?_, ?_, ?_⟩
    · intro other found placed'
      rcases lookup_cons_cases placed' with ⟨-, rfl⟩ | old
      · exact inside
      · exact sound.inside old
    · intro other body found
      obtain ⟨around, placed', facts⟩ := sound.loop found
      exact ⟨around, more.scopes placed', facts⟩
    · intro other ids found
      obtain ⟨arity, around, placed', facts⟩ := sound.branch found
      exact ⟨arity, around, more.scopes placed', facts⟩
  · intro other
    rw [mem_cons, placed.covers other, ← scopes, lookup_cons]
    by_cases eq : other = id <;> simp [eq]
  · intro other found placed' kind
    rcases lookup_cons_cases placed' with ⟨rfl, rfl⟩ | old
    · exact (hoisted kind).mono sound more
    · exact ((placed.hoisted (scopes ▸ old) kind).mono placed.sound extends').mono sound more
  · intro other found placed' kind
    rcases lookup_cons_cases placed' with ⟨rfl, rfl⟩ | old
    · exact begins kind
    · obtain ⟨loopEnd, closes, body⟩ := placed.begins (scopes ▸ old) kind
      exact ⟨loopEnd, closes, extends'.loops body⟩

lemma Placed.grow (placed : Placed g order loops outs nodes p) (wf : tree.WellFormed)
    (grows : p.tree.Grows tree) : Placed g order loops outs nodes { p with tree } := by
  obtain ⟨sound, extends'⟩ := placed.sound.grow wf grows
  exact ⟨sound, placed.covers, fun found kind =>
    (placed.hoisted found kind).mono placed.sound extends', placed.begins⟩

section

variable {isParam : Handle → Bool} (ordered : Ordered g isParam outs order loops)
include ordered

lemma placeNode_placed
    (split : order = earlier ++ visit :: later)
    (placed : Placed g order loops outs (later.map node) p)
    (done : placeNode g order loops outs p visit.node = .ok p') :
    Placed g order loops outs ((visit :: later).map node) p' := by
  have new : visit.node ∉ later.map node := by
    have nodup := ordered.nodup
    rw [split, map_append] at nodup
    exact (nodup_cons.mp (nodup_append.mp nodup).2.1).1
  rw [placeNode] at done
  split at done
  next isBegin =>
    have isBegin : kindOf g visit.node = .loopBegin := by simpa using isBegin
    cases closes : loops.lookup visit.node with
    | none => simp [closes] at done
    | some loopEnd =>
      cases around : p.scopes.lookup loopEnd with
      | none => simp [closes, around] at done
      | some scope =>
        simp only [closes, around, Except.ok.injEq] at done
        obtain ⟨sound, extends', scopes, body⟩ := loopScope_facts placed.sound around
        obtain ⟨_, _, lies, _⟩ := sound.loop body
        subst done
        exact placed.add new sound extends' scopes lies.lt_size (fun other => absurd isBegin other)
          fun _ => ⟨loopEnd, closes, body⟩
  next notBegin =>
    have readers : ∀ use ∈ usesOf order visit.node, use.reader ∈ order ∧
        ∃ scope, p.scopes.lookup use.reader.node = some scope := by
      intro use mem
      obtain ⟨inside, reads⟩ := mem_usesOf.mp mem
      have later' := ordered.reader_later split inside (mem_of_getElem? reads)
      exact ⟨inside, (placed.covers _).mp (mem_map_of_mem later')⟩
    have bounded : ∀ target, (if visit.node ∈ outs then some rootId else none) =
        some target → target < p.tree.size := by
      intro target found
      split at found <;> cases found
      exact placed.sound.tree.nonempty
    obtain ⟨sound, extends', scopes, settled, spans⟩ :=
      commonScope_facts g placed.sound (.self bounded) readers
    simp only [Except.ok.injEq] at done
    subst done
    generalize commonScope g (usesOf order visit.node)
      (if visit.node ∈ outs then some rootId else none) p = result at *
    obtain ⟨scope, p₁⟩ := result
    refine placed.add new sound extends' scopes ?_ (fun _ => ?_) fun isBegin =>
      absurd (by simp [isBegin]) notBegin
    · cases scope with
      | none => exact sound.tree.nonempty
      | some scope => exact (spans.hull rfl).2
    · cases scope with
      | none =>
        have unused := spans.empty rfl
        refine ⟨settled, ?_, fun _ => rfl, ?_⟩
        · exact fun use mem target reads => absurd (.inr ⟨use, mem, reads⟩) (unused target)
        · rintro - outer ⟨use, mem, target, reads⟩
          exact absurd (.inr ⟨use, mem, reads⟩) (unused target)
      | some scope =>
        obtain ⟨⟨all, greatest⟩, -⟩ := spans.hull rfl
        refine ⟨settled, ?_, ?_, ?_⟩
        · exact fun use mem target reads => all target (.inr ⟨use, mem, reads⟩)
        · intro isOutput
          exact (all rootId (.inl (if_pos isOutput))).eq_root sound.tree
        · intro inner outer _ around
          refine greatest outer ?_
          rintro target (start | ⟨use, mem, reads⟩)
          · rw [if_neg inner] at start
            cases start
          · exact around use mem target reads

lemma foldlM_placed {rest later : List Visit} (split : order = rest.reverse ++ later)
    (placed : Placed g order loops outs (later.map node) p)
    (done : (rest.map node).foldlM (placeNode g order loops outs) p = .ok p') :
    Placed g order loops outs (order.map node) p' := by
  induction rest generalizing later p with
  | nil =>
    cases done
    obtain rfl : order = later := by simpa using split
    exact placed
  | cons visit rest ih =>
    rw [map_cons, foldlM_cons] at done
    obtain ⟨next, first, done⟩ := bind_eq_ok.mp done
    have split' : order = rest.reverse ++ visit :: later := by simp [split]
    exact ih split' (placeNode_placed ordered split' placed first) done

/-- Once all nodes are placed, only the checks of the loops can fail. -/
lemma placeNodes_placed
    (done : (order.reverse.map node).foldlM (placeNode g order loops outs) {} = .ok p) :
    Placed g order loops outs (order.map node) p :=
  foldlM_placed ordered (by rw [reverse_reverse, append_nil]) placed_empty done

lemma place_placed (placing : place g order loops outs = .ok p) :
    Placed g order loops outs (order.map node) p ∧
    ∀ loop ∈ loops, checkLoop order p loop = .ok () := by
  obtain ⟨last, done, rest⟩ := bind_eq_ok.mp placing
  obtain ⟨_, checked, eq⟩ := bind_eq_ok.mp rest
  cases eq
  exact ⟨placeNodes_placed ordered done, forM_eq_ok.mp checked⟩

end

/-- A loop passes its check exactly if every use of its begin, its end apart, lies inside. -/
lemma checkLoop_eq_ok (sound : p.Sound order) :
    checkLoop order p loop = .ok () ↔ ∃ body, p.loops.lookup loop.2 = some body ∧
      ∀ use ∈ usesOf order loop.1, use.reader.node = loop.2 ∨
        ∃ scope, p.scopes.lookup use.reader.node = some scope ∧ p.tree.Encloses body scope := by
  have inside : ∀ body use, staysInside p loop.2 body use ↔ use.reader.node = loop.2 ∨
      ∃ scope, p.scopes.lookup use.reader.node = some scope ∧ p.tree.Encloses body scope := by
    intro body use
    rw [staysInside, Bool.or_eq_true]
    cases p.scopes.lookup use.reader.node with
    | none => simp
    | some scope => simp [encloses_iff sound.tree]
  rw [checkLoop]
  cases found : p.loops.lookup loop.2 with
  | none => simp
  | some body =>
    simp only [some.injEq, exists_eq_left', ← inside]
    cases escape : (usesOf order loop.1).find? fun use => !staysInside p loop.2 body use with
    | none =>
      have stays := find?_eq_none.mp escape
      simpa using stays
    | some use =>
      have leaves := find?_some escape
      simp only [reduceCtorEq, false_iff, not_forall]
      exact ⟨use, mem_of_find?_eq_some escape, by simpa using leaves⟩

/-! ## Uses -/

/-- The scope was made for a node: it is the body of a loop that the node closes, or one of its
branches. -/
def OpenedBy (tree : ScopeTree) (n : Handle) (scope : Nat) : Prop :=
  (tree.scope scope).kind = .loop n ∨ ∃ i, (tree.scope scope).kind = .branch n i

/-- A switch opens its branches, which lie in its scope. -/
lemma Placement.Sound.opened_branch (sound : p.Sound order) {id : Handle} {i inner : Nat}
    (opened : ((p.branches.lookup id).getD [])[i]? = some inner) :
    (p.tree.scope inner).kind = .branch id i ∧
      ∃ scope, p.scopes.lookup id = some scope ∧ p.tree.LiesIn inner scope := by
  cases found : p.branches.lookup id with
  | none => simp [found] at opened
  | some ids =>
    obtain ⟨-, scope, placed, bodies⟩ := sound.branch found
    rw [found] at opened
    exact ⟨(bodies opened).2, scope, placed, (bodies opened).1⟩

lemma Ordered.exists_use (ordered : Ordered g isParam outs order loops)
    (mem : reader ∈ order.map node) (reads : Reads g isParam reader src) :
    ∃ use ∈ usesOf order src, use.reader.node = reader := by
  obtain ⟨visit, inside, rfl⟩ := mem_map.mp mem
  obtain ⟨-, sources, found, occurs⟩ := reads
  cases (ordered.sources visit inside).symm.trans found
  obtain ⟨pin, bound, equal⟩ := getElem_of_mem occurs
  exact ⟨⟨visit, pin⟩, mem_usesOf.mpr ⟨inside, by rw [getElem?_eq_getElem bound, equal]⟩, rfl⟩

/-- A use of a node that is no begin reads in the scope of its reader, in one that the reader opens,
or, for the first state of a loop, in the scope around the loop. -/
lemma Placed.use_target (placed : Placed g order loops outs (order.map node) p)
    (ordered : Ordered g isParam outs order loops) {id : Handle} {use : Use} {own : Nat}
    (computed : p.scopes.lookup id = some own) (notBegin : kindOf g id ≠ .loopBegin)
    (mem : use ∈ usesOf order id) : ∃ target scope, ReadsIn g p use (some target) ∧
      p.scopes.lookup use.reader.node = some scope ∧
      (target = scope ∨ p.tree.LiesIn target scope ∧ OpenedBy p.tree use.reader.node target ∨
        kindOf g use.reader.node = .loopBegin ∧ p.tree.LiesIn scope target) := by
  obtain ⟨inside, reads⟩ := mem_usesOf.mp mem
  obtain ⟨scope, found⟩ := (placed.covers _).mp (mem_map_of_mem (f := node) inside)
  obtain ⟨target, readsIn⟩ := (placed.hoisted computed notBegin).settled use mem
  have same : ∀ {other}, p.scopes.lookup use.reader.node = some other → other = scope :=
    fun placed' => some.inj (placed'.symm.trans found)
  cases readsIn with
  | loopName isEnd pin =>
    exact absurd (ordered.loop_head inside isEnd (pin ▸ reads)).1 notBegin
  | round isEnd pin body =>
    obtain ⟨around, placed', lies, kind⟩ := placed.sound.loop body
    exact ⟨_, scope, .round isEnd pin body, found, .inr (.inl ⟨same placed' ▸ lies, .inl kind⟩)⟩
  | @branch ids i isSwitch pin body =>
    obtain ⟨⟨visit, mem', sameNode, arity⟩, around, placed', branches⟩ := placed.sound.branch body
    obtain rfl := ordered.eq_of_node mem' inside sameNode
    have bound : i < ids.length := by
      obtain ⟨bound, -⟩ := List.getElem?_eq_some_iff.mp reads
      omega
    have exists' : ids[i]? = some ids[i] := getElem?_eq_getElem bound
    obtain ⟨lies, kind⟩ := branches exists'
    exact ⟨_, scope, exists' ▸ .branch isSwitch pin body, found,
      .inr (.inl ⟨same placed' ▸ lies, .inr ⟨i, kind⟩⟩)⟩
  | init isBegin placed' =>
    obtain ⟨loopEnd, -, body⟩ := placed.begins found isBegin
    obtain ⟨around, -, lies, -⟩ := placed.sound.loop body
    exact ⟨around, _, lies ▸ .init isBegin found, found, .inr (.inr ⟨isBegin, lies⟩)⟩
  | plain notEnd notLoop notBranch placed' =>
    exact ⟨_, _, .plain notEnd notLoop notBranch found, found, .inl rfl⟩

end Blockflow.Compile
