import Blockflow.Compile.Basic
import Blockflow.Proofs.Compile.Placement
import Blockflow.Proofs.Scope.Layout

/-!
# Plans

Every node of the order has an address of its own in its scope. Scopes lie behind one another on the
way in, so nodes of which one is computed around the other have different addresses, and all
addresses lie in the frame.
-/

namespace Blockflow.Compile

open List ScopeTree Visit

def isParamOf (root : Root) (id : Handle) : Bool := ((paramPlaces root).lookup id).isSome

lemma paramPlaces_lt {id : Handle} {i : Nat} (found : (paramPlaces root).lookup id = some i) :
    i < root.params.length := by
  have mem := lookup_mem found
  rw [paramPlaces, mem_reverse, mem_zipIdx_iff_getElem?] at mem
  exact lt_of_getElem? mem

/-! ## Claimed addresses -/

/-- The scope of a placed node, as the emission looks it up. -/
def scopeOf (p : Placement) (id : Handle) : Nat :=
  (p.scopes.lookup id).getD rootId

private structure Claimed (p : Placement) (order : List Visit)
    (result : Placement × List (Handle × Nat)) : Prop where
  rest : result.1 = { p with tree := result.1.tree }
  shape : p.tree.SameShape result.1.tree
  grown : ∀ scope, (p.tree.scope scope).size ≤ (result.1.tree.scope scope).size
  claimed : ∀ visit ∈ order, ∃ offset, result.2.lookup visit.node = some offset ∧
    (p.tree.scope (scopeOf p visit.node)).size ≤ offset ∧
    offset < (result.1.tree.scope (scopeOf p visit.node)).size
  distinct : ∀ a ∈ order, ∀ b ∈ order, a.node ≠ b.node → scopeOf p a.node = scopeOf p b.node →
    result.2.lookup a.node ≠ result.2.lookup b.node

lemma claimAll_claimed (inside : ∀ visit ∈ order, scopeOf p visit.node < p.tree.size)
    (nodup : (order.map node).Nodup) : Claimed p order (claimAll p order) := by
  induction order generalizing p with
  | nil => exact ⟨rfl, .refl _, fun _ => Nat.le_refl _, by simp, by simp⟩
  | cons visit order ih =>
    obtain ⟨first, others⟩ := forall_mem_cons.mp inside
    rw [map_cons, nodup_cons] at nodup
    have shape : p.tree.SameShape (p.tree.claim (scopeOf p visit.node)).2 :=
      sameShape_claim (scopeOf p visit.node)
    have sizes := size_scope_claim first
    obtain ⟨rest, shape', grown, claimed, distinct⟩ :=
      ih (p := { p with tree := (p.tree.claim (scopeOf p visit.node)).2 }) (fun other mem => by
          rw [shape.size_eq]
          exact others other mem) nodup.2
    have unfolded : claimAll p (visit :: order) =
        ((claimAll { p with tree := (p.tree.claim (scopeOf p visit.node)).2 } order).1,
          (visit.node, (p.tree.scope (scopeOf p visit.node)).size) ::
            (claimAll { p with tree := (p.tree.claim (scopeOf p visit.node)).2 } order).2) := rfl
    rw [unfolded]
    generalize claimAll { p with tree := (p.tree.claim (scopeOf p visit.node)).2 } order =
      result at *
    obtain ⟨after, offsets⟩ := result
    have later : ∀ other ∈ order, other.node ≠ visit.node := fun other mem eq =>
      nodup.1 (eq ▸ mem_map_of_mem mem)
    have ownGrown : (p.tree.scope (scopeOf p visit.node)).size + 1 ≤
        (after.tree.scope (scopeOf p visit.node)).size := by
      have grown' := grown (scopeOf p visit.node)
      rwa [sizes, if_pos rfl] at grown'
    have sizes_le := size_le_claim first
    -- A later node in the same scope claims a later offset.
    have above : ∀ other ∈ order, scopeOf p other.node = scopeOf p visit.node →
        offsets.lookup other.node ≠ some (p.tree.scope (scopeOf p visit.node)).size := by
      intro other mem eq found
      obtain ⟨offset, found', bound, -⟩ := claimed other mem
      rw [show scopeOf { p with tree := (p.tree.claim (scopeOf p visit.node)).2 } other.node =
        scopeOf p visit.node from eq, sizes, if_pos rfl] at bound
      rw [found] at found'
      cases found'
      omega
    refine ⟨rest, shape.trans shape', fun scope => Nat.le_trans (sizes_le scope) (grown scope),
      forall_mem_cons.mpr ⟨⟨_, lookup_cons_self, Nat.le_refl _, ownGrown⟩, ?_⟩, ?_⟩
    · intro other mem
      obtain ⟨offset, found, bound, below⟩ := claimed other mem
      refine ⟨offset, ?_, Nat.le_trans (sizes_le _) bound, below⟩
      rw [lookup_cons, if_neg (later other mem)]
      exact found
    · intro a memberA b memberB different eq
      rw [lookup_cons, lookup_cons]
      rcases mem_cons.mp memberA with rfl | laterA <;>
        rcases mem_cons.mp memberB with rfl | laterB
      · exact absurd rfl different
      · rw [if_pos rfl, if_neg (Ne.symm different)]
        exact fun equal => above b laterB eq.symm equal.symm
      · rw [if_neg different, if_pos rfl]
        exact above a laterA eq
      · rw [if_neg (later a laterA), if_neg (later b laterB)]
        exact distinct a laterA b laterB different eq

/-! ## Plans -/

abbrev Plan.placement (plan : Plan) : Placement := plan.addresses.placement

/-- What a plan is about and what holds of its addresses. -/
structure Planned (g : Graph) (root : Root) (plan : Plan) (loops : List (Handle × Handle)) :
    Prop where
  ordered : Ordered g (isParamOf root) plan.outputs plan.order loops
  placed : Placed g plan.order loops plan.outputs (plan.order.map node)
    plan.placement
  inside : ∀ loop ∈ loops, ∃ body, plan.placement.loops.lookup loop.2 = some body ∧
    ∀ use ∈ usesOf plan.order loop.1, use.reader.node = loop.2 ∨
      ∃ scope, plan.placement.scopes.lookup use.reader.node = some scope ∧
        plan.placement.tree.Encloses body scope
  laid : plan.placement.tree.Laid root.params.length plan.frameSize
  params : plan.addresses.params = paramPlaces root
  address : ∀ {id : Handle} {scope : Nat}, plan.placement.scopes.lookup id = some scope →
    ∃ address, plan.addresses.find? id = some address ∧
      (plan.placement.tree.scope scope).base ≤ address ∧
      address < plan.placement.tree.limit scope
  distinct : ∀ {a b : Handle} {scope : Nat}, plan.placement.scopes.lookup a = some scope →
    plan.placement.scopes.lookup b = some scope → a ≠ b →
    plan.addresses.find? a ≠ plan.addresses.find? b
  packed : plan.packed = none ∧ plan.outputs.length = 1 ∨ plan.outputs.length ≠ 1 ∧
    ∃ address, plan.packed = some address ∧
      (plan.placement.tree.scope rootId).base ≤ address ∧
      address < plan.placement.tree.limit rootId

namespace Planned

variable {g : Graph} {root : Root} {plan : Plan} {loops : List (Handle × Handle)} {id : Handle}
  {scope addr i : Nat}

variable (planned : Planned g root plan loops)
include planned

lemma address_bounds
    (placed : plan.placement.scopes.lookup id = some scope)
    (found : plan.addresses.find? id = some addr) :
    (plan.placement.tree.scope scope).base ≤ addr ∧ addr < plan.placement.tree.limit scope := by
  obtain ⟨other, found', bounds⟩ := planned.address placed
  cases found.symm.trans found'
  exact bounds

lemma address_ne {outer inner addressA addressB : Nat}
    (placedA : plan.placement.scopes.lookup a = some outer)
    (placedB : plan.placement.scopes.lookup b = some inner)
    (around : plan.placement.tree.Encloses outer inner) (different : a ≠ b)
    (foundA : plan.addresses.find? a = some addressA)
    (foundB : plan.addresses.find? b = some addressB) :
    addressA ≠ addressB := by
  by_cases eq : outer = inner
  · subst eq
    rintro rfl
    exact planned.distinct placedA placedB different (foundA.trans foundB.symm)
  · have below := planned.laid.limit_le_base around eq
    have boundA := (planned.address_bounds placedA foundA).2
    have boundB := (planned.address_bounds placedB foundB).1
    omega

lemma address_param (isParam : (paramPlaces root).lookup id = some i) :
    plan.addresses.find? id = some i := by
  rw [Addresses.find?, planned.params, isParam]

lemma param_lt_base (isParam : (paramPlaces root).lookup id = some i)
    (inside : scope < plan.placement.tree.size) : i < (plan.placement.tree.scope scope).base :=
  Nat.lt_of_lt_of_le (paramPlaces_lt isParam)
    (planned.laid.reserved_le_base planned.placed.sound.tree inside)

lemma param_or_placed (found : plan.addresses.find? id = some addr) :
    (paramPlaces root).lookup id = some addr ∨
      ∃ scope, plan.placement.scopes.lookup id = some scope := by
  rw [Addresses.find?, planned.params] at found
  cases isParam : (paramPlaces root).lookup id with
  | some i =>
    simp only [isParam, Option.some.injEq] at found
    exact .inl (congrArg some found)
  | none =>
    cases placed : plan.placement.scopes.lookup id with
    | none => simp [isParam, placed] at found
    | some scope => exact .inr ⟨scope, rfl⟩

lemma address_lt_frame (found : plan.addresses.find? id = some addr) : addr < plan.frameSize := by
  rcases planned.param_or_placed found with isParam | ⟨scope, placed⟩
  · exact Nat.lt_of_lt_of_le (paramPlaces_lt isParam) planned.laid.reserved_le
  · exact Nat.lt_of_lt_of_le (planned.address_bounds placed found).2
      (planned.laid.bound scope (planned.placed.sound.inside placed))

end Planned

section

variable {g : Graph} {root : Root} {order : List Visit} {loops : List (Handle × Handle)}
  {outs : List Handle} {p : Placement}

lemma Placed.scopeOf_eq (placed : Placed g order loops outs (order.map node) p)
    {id : Handle} {scope : Nat} (found : p.scopes.lookup id = some scope) :
    scopeOf p id = scope ∧ ∃ visit ∈ order, visit.node = id :=
  ⟨by simp [scopeOf, found], mem_map.mp ((placed.covers id).mpr ⟨scope, found⟩)⟩

lemma Placed.claimed (placed : Placed g order loops outs (order.map node) p)
    (nodup : (order.map node).Nodup) : Claimed p order (claimAll p order) := by
  refine claimAll_claimed (fun visit mem => ?_) nodup
  obtain ⟨scope, found⟩ := (placed.covers _).mp (mem_map_of_mem (f := node) mem)
  rw [(placed.scopeOf_eq found).1]
  exact placed.sound.inside found

/-- The addresses of a placement whose nodes claimed theirs, after at most a few more claims. -/
lemma planned_of_claimed {tree : ScopeTree} (packed : Option Nat)
    (ordered : Ordered g (isParamOf root) outs order loops)
    (placing : place g order loops outs = .ok p)
    (shape : (claimAll p order).1.tree.SameShape tree)
    (grown : ∀ scope, ((claimAll p order).1.tree.scope scope).size ≤ (tree.scope scope).size)
    (result : packed = none ∧ outs.length = 1 ∨ outs.length ≠ 1 ∧ ∃ offset, packed = some offset ∧
        offset < (tree.scope rootId).size) : Planned g root {
      order, outputs := outs
      frameSize := (tree.layout root.params.length).1
      addresses := {
        params := paramPlaces root
        placement := { (claimAll p order).1 with tree := (tree.layout root.params.length).2 }
        offsets := (claimAll p order).2 }
      packed := packed.map ((tree.layout root.params.length).2.address rootId) } loops := by
  obtain ⟨placed, checked⟩ := place_placed ordered placing
  obtain ⟨rest, shape₁, -, claimed, distinct⟩ := placed.claimed ordered.nodup
  have wf := (shape₁.trans shape).wellFormed placed.sound.tree
  obtain ⟨laid, shape₂, sizes⟩ := layout_laid wf root.params.length
  have total := (shape₁.trans shape).trans shape₂
  generalize (claimAll p order).2 = offsets at *
  generalize (claimAll p order).1 = after at *
  obtain ⟨tree₁, scopes, bodies, branches⟩ := after
  cases rest
  generalize tree.layout root.params.length = layout at *
  obtain ⟨frameSize, final⟩ := layout
  -- A computed node is no parameter, so its address is that of its offset in its scope.
  have addr : ∀ {id scope}, p.scopes.lookup id = some scope → ∃ offset,
      offsets.lookup id = some offset ∧ offset < (final.scope scope).size ∧
      Addresses.find? ⟨paramPlaces root, { p with tree := final }, offsets⟩ id =
        some (final.address scope offset) := by
    intro id scope found
    obtain ⟨eq, visit, mem, rfl⟩ := placed.scopeOf_eq found
    obtain ⟨offset, found', -, below⟩ := claimed visit mem
    rw [eq] at below
    have computed := ordered.computed visit mem
    have notParam : (paramPlaces root).lookup visit.node = none := by
      rw [isParamOf] at computed
      simpa using computed
    refine ⟨offset, found', ?_, by simp [Addresses.find?, notParam, found, found']⟩
    rw [sizes]
    exact Nat.lt_of_lt_of_le below (grown scope)
  refine ⟨ordered, placed.grow (total.wellFormed placed.sound.tree) total.toGrows, ?_, laid,
    rfl, ?_, ?_, ?_⟩
  · intro loop mem
    obtain ⟨body, isBody, uses⟩ := (checkLoop_eq_ok placed.sound).mp (checked loop mem)
    refine ⟨body, isBody, fun use inside => (uses use inside).imp_right ?_⟩
    rintro ⟨scope, found, around⟩
    exact ⟨scope, found, total.encloses_iff.mpr around⟩
  · intro id scope found
    obtain ⟨offset, -, below, found'⟩ := addr found
    exact ⟨_, found', Nat.le_add_right _ _, Nat.add_lt_add_left below _⟩
  · intro a b scope foundA foundB different eq
    obtain ⟨offsetA, lookupA, -, addressA⟩ := addr foundA
    obtain ⟨offsetB, lookupB, -, addressB⟩ := addr foundB
    obtain ⟨sameA, visitA, memberA, rfl⟩ := placed.scopeOf_eq foundA
    obtain ⟨sameB, visitB, memberB, rfl⟩ := placed.scopeOf_eq foundB
    rw [addressA, addressB, Option.some.injEq, address] at eq
    refine distinct visitA memberA visitB memberB different (sameA.trans sameB.symm) ?_
    rw [lookupA, lookupB, Nat.add_left_cancel eq]
  · rcases result with single | ⟨several, offset, rfl, below⟩
    · exact .inl ⟨by simp [single.1], single.2⟩
    · refine .inr ⟨several, _, rfl, Nat.le_add_right _ _, ?_⟩
      rw [← sizes] at below
      exact Nat.add_lt_add_left below _

end

lemma resolved_of_named
    (resolutions : Forall₂ (fun out output => resolve g out.1 = .ok (some output))
      (namedOutputs root) outs) :
    Forall₂ (fun output target => resolve g output = .ok (some target)) root.outputs outs := by
  have names : (namedOutputs root).map Prod.fst = root.outputs := by
    simp [namedOutputs, Function.comp_def]
  rwa [← names, forall₂_map_left_iff]

lemma plan_planned (planned : plan g root = .ok result) : ∃ loops, Planned g root result loops ∧
      Forall₂ (fun output target => resolve g output = .ok (some target)) root.outputs
        result.outputs := by
  obtain ⟨⟨outs, walk⟩, walked, rest⟩ := bind_eq_ok.mp planned
  obtain ⟨p, placing, rest⟩ := bind_eq_ok.mp rest
  obtain ⟨ordered, resolutions⟩ := walkOutputs_ordered walked
  refine ⟨walk.loops, ?_⟩
  by_cases single : outs.length = 1
  · simp only [single, if_true] at rest
    cases rest
    exact ⟨planned_of_claimed none ordered placing (.refl _) (fun _ => Nat.le_refl _)
      (.inl ⟨rfl, single⟩), resolved_of_named resolutions⟩
  · simp only [single, if_false] at rest
    cases rest
    obtain ⟨placed, -⟩ := place_placed ordered placing
    have wf := (placed.claimed ordered.nodup).shape.wellFormed placed.sound.tree
    have inside : rootId < _ := wf.nonempty
    refine ⟨planned_of_claimed (some _) ordered placing (sameShape_claim _) (size_le_claim inside)
      (.inr ⟨single, _, rfl, ?_⟩), resolved_of_named resolutions⟩
    rw [size_scope_claim inside]
    exact Nat.lt_succ_self _

end Blockflow.Compile
