import Blockflow.Proofs.Scope.Layout
import Mathlib.Order.CompletePartialOrder
import Mathlib.Order.Interval.Set.Disjoint

/-!
# Live ranges

A scope is live while anything nested in it is, so the addresses of a scope must be kept apart from
those of everything around it. In every tree that is laid out after any sequence of new scopes and
claims they are: a scope owns exactly the addresses that were claimed in it, its extent covers what
is nested in it and nothing that is owned further out, and the frame is as small as it can be.
-/

namespace Blockflow.ScopeTree

open List

/-- The addresses that a scope owns itself. -/
def own (tree : ScopeTree) (id : Nat) : Set Nat := .Ico (tree.scope id).base (tree.limit id)

/-- The addresses of a scope and of everything nested in it. -/
def reach (tree : ScopeTree) (id : Nat) : Set Nat := .Ico (tree.extent id).1 (tree.extent id).2

/-- The trees that grow from the root alone, with the claims that were made on the way: the scope
and the offset that was answered, latest claim first. -/
inductive Built : ScopeTree → List (Nat × Nat) → Prop where
  | root : Built {} []
  | child {tree : ScopeTree} {claims : List (Nat × Nat)} {parent : Nat} (built : Built tree claims)
      (inside : parent < tree.size) (kind : ScopeKind) : Built (tree.child parent kind).2 claims
  | claim {tree : ScopeTree} {claims : List (Nat × Nat)} {id : Nat} (built : Built tree claims)
      (inside : id < tree.size) : Built (tree.claim id).2 ((id, (tree.claim id).1) :: claims)

variable {tree : ScopeTree} {claims : List (Nat × Nat)} {reserved frameSize : Nat}

namespace Built

lemma wellFormed (built : Built tree claims) : tree.WellFormed := by
  induction built with
  | root => exact wellFormed_empty
  | child _ inside kind ih => exact ih.child inside kind
  | claim _ _ ih => exact (sameShape_claim _).wellFormed ih

/-- The claims in a scope are the offsets below its size. -/
lemma mem_claims (built : Built tree claims) {id offset : Nat} :
    (id, offset) ∈ claims ↔ id < tree.size ∧ offset < (tree.scope id).size := by
  induction built generalizing offset with
  | root =>
    have flat : ∀ id, (ScopeTree.scope {} id).size = 0 := fun id => by cases id <;> rfl
    simp [flat]
  | @child tree claims parent _ inside kind ih =>
    rw [ih, size_child]
    by_cases old : id < tree.size
    · rw [scope_child_old parent kind old]
      simp only [old, Nat.lt_succ_of_lt old, true_and]
    · by_cases new : id = tree.size
      · rw [new, scope_child_new]
        simp
      · have outside : ¬id < tree.size + 1 := by omega
        simp only [old, outside, false_and]
  | @claim tree claims scope _ inside ih =>
    have offset' : (tree.claim scope).1 = (tree.scope scope).size := rfl
    rw [mem_cons, ih, (sameShape_claim scope).size_eq, size_scope_claim inside,
      Prod.mk.injEq, offset']
    by_cases eq : id = scope
    · subst eq
      simp only [inside, true_and, if_true]
      omega
    · simp only [eq, if_false, false_and, false_or]

lemma nodup (built : Built tree claims) : claims.Nodup := by
  induction built with
  | root => exact nodup_nil
  | child _ _ _ ih => exact ih
  | claim built _ ih =>
    exact nodup_cons.mpr ⟨fun mem => Nat.lt_irrefl _ (built.mem_claims.mp mem).2, ih⟩

end Built

namespace Laid

variable {outer inner : Nat}

lemma base_le_base (laid : tree.Laid reserved frameSize) (around : tree.Encloses outer inner) :
    (tree.scope outer).base ≤ (tree.scope inner).base := by
  by_cases eq : outer = inner
  · rw [eq]
  · exact Nat.le_trans (tree.base_le_limit outer) (laid.limit_le_base around eq)

lemma limit_le_extent (wf : tree.WellFormed) (inside : inner < tree.size)
    (around : tree.Encloses outer inner) : tree.limit inner ≤ (tree.extent outer).2 := by
  refine (foldl_max_le_iff.mp (Nat.le_refl _)).2 _
    (mem_map_of_mem (mem_filter.mpr ⟨mem_range.mpr inside, ?_⟩))
  exact (encloses_iff wf outer inner).mpr around

/-- What is nested in a scope lies in its extent. -/
lemma own_subset_reach (laid : tree.Laid reserved frameSize) (wf : tree.WellFormed)
    (inside : inner < tree.size)
    (around : tree.Encloses outer inner) : tree.own inner ⊆ tree.reach outer :=
  Set.Ico_subset_Ico (laid.base_le_base around) (limit_le_extent wf inside around)

lemma reach_subset_reach (laid : tree.Laid reserved frameSize) (wf : tree.WellFormed)
    (inside : inner < tree.size)
    (around : tree.Encloses outer inner) : tree.reach inner ⊆ tree.reach outer := by
  refine Set.Ico_subset_Ico (laid.base_le_base around)
    (foldl_max_le_iff.mpr ⟨?_, fun limit mem => ?_⟩)
  · exact Nat.le_trans (tree.base_le_limit inner) (limit_le_extent wf inside around)
  · obtain ⟨nested, listed, rfl⟩ := mem_map.mp mem
    obtain ⟨lies, deeper⟩ := mem_filter.mp listed
    exact limit_le_extent wf (mem_range.mp lies)
      (around.trans ((encloses_iff wf inner nested).mp deeper))

/-- What a scope owns lies below all that is nested in it. -/
lemma disjoint_reach (laid : tree.Laid reserved frameSize) (around : tree.Encloses outer inner)
    (other : outer ≠ inner) :
    Disjoint (tree.own outer) (tree.reach inner) := by
  refine Set.disjoint_left.mpr fun addr owned reached => ?_
  have below := laid.limit_le_base around other
  have stop : addr < tree.limit outer := owned.2
  have start : (tree.scope inner).base ≤ addr := reached.1
  omega

/-- A frame that is larger than the reserved addresses ends behind an address that some scope
owns. -/
lemma limit_attained (laid : tree.Laid reserved frameSize) (wf : tree.WellFormed) {id : Nat}
    (inside : id < tree.size) :
    tree.limit id = reserved ∨ ∃ owner < tree.size, ∃ addr ∈ tree.own owner, tree.limit id =
      addr + 1 := by
  -- A scope without claims ends where its parent does.
  induction id using Nat.strongRecOn with
  | ind id ih =>
    by_cases empty : (tree.scope id).size = 0
    · by_cases top : id = rootId
      · rw [top] at empty ⊢
        exact .inl (by rw [limit, empty, laid.root, Nat.add_zero])
      · obtain ⟨parent, found, older, -⟩ := wf.parent id inside top
        have eq : tree.limit id = tree.limit parent := by
          rw [limit, empty, laid.inner id parent found, Nat.add_zero]
        rw [eq]
        exact ih parent older (Nat.lt_trans older inside)
    · refine .inr ⟨id, inside, tree.limit id - 1, ⟨?_, ?_⟩, ?_⟩ <;> rw [limit] <;> omega

end Laid

/-- Whatever scopes and claims a tree was built from: once it is laid out, scopes around each other
own disjoint addresses behind the reserved ones, and the extent of a scope starts at its base,
covers all that is nested in it and meets nothing that is owned around it. A scope owns exactly the
addresses of its claims, which are distinct. The frame is the least one that has the reserved
addresses and all claims. -/
theorem laid_scopes_never_collide (built : Built tree claims) (reserved : Nat) :
    let laid := (tree.layout reserved).2
    (∀ outer inner, inner < tree.size → tree.Encloses outer inner →
      laid.own inner ⊆ laid.reach outer ∧ laid.own inner ⊆ .Ici reserved ∧
        (outer ≠ inner → Disjoint (laid.own outer) (laid.own inner) ∧
          Disjoint (laid.own outer) (laid.reach inner))) ∧
    (∀ id, (laid.extent id).1 = (laid.scope id).base) ∧
    (∀ id < tree.size, laid.own id =
      {addr | ∃ offset, (id, offset) ∈ claims ∧ laid.address id offset = addr}) ∧
    (claims.Pairwise fun a b => a.1 = b.1 → laid.address a.1 a.2 ≠ laid.address b.1 b.2) ∧
    IsLeast {size | reserved ≤ size ∧ ∀ claim ∈ claims, laid.address claim.1 claim.2 < size}
      (tree.layout reserved).1 := by
  have old := built.wellFormed
  obtain ⟨isLaid, shape, sizes⟩ := layout_laid old reserved
  generalize tree.layout reserved = result at isLaid shape sizes ⊢
  obtain ⟨frameSize, laid⟩ := result
  dsimp only at isLaid shape sizes ⊢
  have wf := shape.wellFormed old
  have owned : ∀ id < tree.size,
      laid.own id = {addr | ∃ offset, (id, offset) ∈ claims ∧ laid.address id offset = addr} := by
    intro id inside
    ext addr
    have size := sizes id
    refine ⟨fun ⟨start, stop⟩ => ⟨addr - (laid.scope id).base, ?_, Nat.add_sub_of_le start⟩, ?_⟩
    · rw [limit] at stop
      exact built.mem_claims.mpr ⟨inside, by omega⟩
    · rintro ⟨offset, claimed, rfl⟩
      have below := (built.mem_claims.mp claimed).2
      exact ⟨Nat.le_add_right _ _, Nat.add_lt_add_left (size.symm ▸ below) _⟩
  refine ⟨fun outer inner inside around => ?_, fun _ => rfl, owned, ?_,
    ⟨isLaid.reserved_le, fun claim member => ?_⟩, ?_⟩
  · have inside' : inner < laid.size := shape.size_eq.symm ▸ inside
    have around' := shape.encloses_iff.mpr around
    refine ⟨isLaid.own_subset_reach wf inside' around', fun addr owns => ?_, fun other => ?_⟩
    · exact Nat.le_trans (isLaid.reserved_le_base wf inside') owns.1
    · have apart := isLaid.disjoint_reach around' other
      exact ⟨apart.mono_right (isLaid.own_subset_reach wf inside' (.refl laid inner)), apart⟩
  · refine built.nodup.imp fun {a b} different scope same => different (Prod.ext scope ?_)
    rw [scope] at same
    exact Nat.add_left_cancel same
  · obtain ⟨inside, below⟩ := built.mem_claims.mp member
    have bound := isLaid.bound claim.1 (shape.size_eq.symm ▸ inside)
    rw [← sizes] at below
    exact Nat.lt_of_lt_of_le (Nat.add_lt_add_left below _) bound
  · rintro size ⟨enough, above⟩
    rcases isLaid.attained with same | ⟨id, inside, same⟩
    · rwa [same]
    · rw [same]
      rcases isLaid.limit_attained wf inside with least | ⟨owner, lies, addr, owns, least⟩
      · rwa [least]
      · rw [owned owner (shape.size_eq ▸ lies)] at owns
        obtain ⟨offset, claimed, rfl⟩ := owns
        rw [least]
        exact above (owner, offset) claimed

/-- A loop with two branches in it, which share an address behind that of the loop. -/
theorem branches_share_behind_loop : ∃ tree, Built tree [(3, 0), (2, 0), (1, 0), (0, 0)] ∧
    (tree.layout 1).2.own 2 = (tree.layout 1).2.own 3 ∧
    Disjoint ((tree.layout 1).2.own 1) ((tree.layout 1).2.reach 3) ∧
    IsLeast {size | 1 ≤ size ∧ ∀ claim ∈ [(3, 0), (2, 0), (1, 0), (0, 0)],
      (tree.layout 1).2.address claim.1 claim.2 < size} 4 := by
  have scopes : Built _ [] :=
    @Built.child _ _ 1 (@Built.child _ _ 1 (@Built.child _ _ 0 .root (by decide)
    (.loop default)) (by decide) (.branch default 0)) (by decide) (.branch default 1)
  have built : Built _ [(3, 0), (2, 0), (1, 0), (0, 0)] :=
    @Built.claim _ _ 3 (@Built.claim _ _ 2 (@Built.claim _ _ 1
    (@Built.claim _ _ 0 scopes (by decide)) (by decide)) (by decide)) (by decide)
  obtain ⟨ranges, -, -, -, least⟩ := laid_scopes_never_collide built 1
  refine ⟨_, built, ?_, ((ranges 1 3 (by decide) ?_).2.2 (by decide)).2, least⟩
  · rw [own, own]
    rfl
  · exact (encloses_iff built.wellFormed 1 3).mp (by decide)

end Blockflow.ScopeTree
