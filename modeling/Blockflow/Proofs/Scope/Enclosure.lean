import Blockflow.Scope
import Mathlib.Logic.Relation
import Mathlib.Tactic.ByContra

/-!
# Scopes inside scopes

In a well-formed tree every scope but the root lies in an older one, one level further in. Following
parents then ends at the root, `encloses` decides whether one scope is met on the way out from
another, and `common` is the innermost scope around two. A tree that grows keeps the scopes that it
has.
-/

namespace Blockflow.ScopeTree

open Relation

/-- Every scope but the root lies in an older one, one level further in. -/
structure WellFormed (tree : ScopeTree) : Prop where
  nonempty : 0 < tree.size
  root_parent : tree.parent? rootId = none
  root_depth : tree.depth rootId = 0
  root_kind : (tree.scope rootId).kind = .root
  parent : ∀ id, id < tree.size → id ≠ rootId →
    ∃ outer, tree.parent? id = some outer ∧ outer < id ∧ tree.depth id = tree.depth outer + 1

def LiesIn (tree : ScopeTree) (inner outer : Nat) : Prop := tree.parent? inner = some outer

/-- `outer` is `inner` or met on the way out from it. -/
def Encloses (tree : ScopeTree) (outer inner : Nat) : Prop :=
  ReflTransGen tree.LiesIn inner outer

/-- The later tree has the scopes of the earlier one in their places. -/
structure Grows (before after : ScopeTree) : Prop where
  size_le : before.size ≤ after.size
  parent : ∀ id, id < before.size → after.parent? id = before.parent? id
  depth : ∀ id, id < before.size → after.depth id = before.depth id
  kind : ∀ id, id < before.size → (after.scope id).kind = (before.scope id).kind

variable {tree : ScopeTree}

lemma parent?_of_size_le {id : Nat} (outside : tree.size ≤ id) : tree.parent? id = none := by
  have missing : tree.scopes[id]? = none := by simpa [size] using outside
  simp [parent?, scope, missing]

lemma LiesIn.lt_size {inner outer : Nat} (lies : tree.LiesIn inner outer) : inner < tree.size := by
  by_contra outside
  rw [LiesIn, parent?_of_size_le (Nat.le_of_not_lt outside)] at lies
  cases lies

namespace WellFormed

lemma liesIn (wf : tree.WellFormed) {inner outer : Nat} (lies : tree.LiesIn inner outer) :
    outer < inner ∧ tree.depth inner = tree.depth outer + 1 := by
  have other : inner ≠ rootId := by
    rintro rfl
    rw [LiesIn, wf.root_parent] at lies
    cases lies
  obtain ⟨parent, found, older, deeper⟩ := wf.parent inner lies.lt_size other
  obtain rfl : parent = outer := Option.some.inj (found.symm.trans lies)
  exact ⟨older, deeper⟩

lemma depth_eq_zero (wf : tree.WellFormed) {id : Nat} (inside : id < tree.size)
    (flat : tree.depth id = 0) : id = rootId := by
  by_contra other
  obtain ⟨outer, -, -, deeper⟩ := wf.parent id inside other
  omega

lemma liesIn_outer (wf : tree.WellFormed) {id : Nat} (inside : id < tree.size)
    (other : id ≠ rootId) : tree.LiesIn id (tree.outer id) := by
  obtain ⟨outer, found, -, -⟩ := wf.parent id inside other
  simp [LiesIn, ScopeTree.outer, found]

end WellFormed

namespace Encloses

variable {a b c : Nat}

lemma refl (tree : ScopeTree) (id : Nat) : tree.Encloses id id := ReflTransGen.refl

lemma trans (outer : tree.Encloses a b) (inner : tree.Encloses b c) : tree.Encloses a c :=
  ReflTransGen.trans inner outer

lemma of_liesIn (lies : tree.LiesIn a b) : tree.Encloses b a := ReflTransGen.single lies

/-- What is around a scope and is not the scope itself is around its parent. -/
lemma of_ne (encloses : tree.Encloses a b) (other : a ≠ b) (lies : tree.LiesIn b c) :
    tree.Encloses a c := by
  rcases ReflTransGen.cases_head encloses with rfl | ⟨parent, first, rest⟩
  · exact absurd rfl other
  · obtain rfl : parent = c := Option.some.inj (first.symm.trans lies)
    exact rest

lemma le (wf : tree.WellFormed) (encloses : tree.Encloses a b) : a ≤ b := by
  induction encloses with
  | refl => exact Nat.le_refl _
  | tail _ lies ih => exact Nat.le_trans (Nat.le_of_lt (wf.liesIn lies).1) ih

lemma depth_le (wf : tree.WellFormed) (encloses : tree.Encloses a b) :
    tree.depth a ≤ tree.depth b := by
  induction encloses with
  | refl => exact Nat.le_refl _
  | tail _ lies ih =>
    have deeper := (wf.liesIn lies).2
    omega

lemma eq_of_depth (wf : tree.WellFormed) (encloses : tree.Encloses a b)
    (level : tree.depth b ≤ tree.depth a) : a = b := by
  rcases ReflTransGen.cases_head encloses with rfl | ⟨parent, first, rest⟩
  · rfl
  · have deeper := (wf.liesIn first).2
    have shallow := depth_le wf rest
    omega

lemma root (wf : tree.WellFormed) (inside : a < tree.size) : tree.Encloses rootId a := by
  induction a using Nat.strongRecOn with
  | ind a ih =>
    by_cases top : a = rootId
    · rw [top]
      exact refl tree rootId
    · obtain ⟨outer, found, older, -⟩ := wf.parent a inside top
      exact (ih outer older (Nat.lt_trans older inside)).trans (of_liesIn found)

/-- Of two scopes around a third one the shallower is around the deeper. -/
lemma of_depth_le (wf : tree.WellFormed) (first : tree.Encloses a c) (second : tree.Encloses b c)
    (level : tree.depth a ≤ tree.depth b) : tree.Encloses a b := by
  have unique : Relator.RightUnique tree.LiesIn := fun _ _ _ one other =>
    Option.some.inj (one.symm.trans other)
  rcases ReflTransGen.total_of_right_unique unique first second with inner | outer
  · exact eq_of_depth wf inner level ▸ refl tree a
  · exact outer

lemma eq_root (wf : tree.WellFormed) (encloses : tree.Encloses a rootId) : a = rootId :=
  Nat.le_zero.mp (encloses.le wf)

lemma lt_size (wf : tree.WellFormed) (encloses : tree.Encloses a b) (inside : b < tree.size) :
    a < tree.size := Nat.lt_of_le_of_lt (encloses.le wf) inside

end Encloses

/-! ## The decision procedure -/

lemma enclosesWithin_iff (wf : tree.WellFormed) (ancestor : Nat) {steps id : Nat}
    (enough : tree.depth id < steps) :
    tree.enclosesWithin ancestor steps id ↔ tree.Encloses ancestor id := by
  induction steps generalizing id with
  | zero => omega
  | succ steps ih =>
    simp only [enclosesWithin]
    split
    next shallow =>
      simp only [Bool.false_eq_true, false_iff]
      intro encloses
      have level := encloses.depth_le wf
      omega
    next deep =>
      split
      next eq => simp [eq, Encloses.refl]
      next other =>
        cases found : tree.parent? id with
        | none =>
          simp only [Bool.false_eq_true, false_iff]
          intro encloses
          rcases ReflTransGen.cases_head encloses with eq | ⟨parent, first, -⟩
          · exact other eq
          · rw [LiesIn, found] at first
            cases first
        | some parent =>
          have deeper := (wf.liesIn found).2
          simp only [ih (show tree.depth parent < steps by omega)]
          exact ⟨fun outer => outer.trans (.of_liesIn found),
            fun encloses => encloses.of_ne (Ne.symm other) found⟩

lemma encloses_iff (wf : tree.WellFormed) (ancestor id : Nat) :
    tree.encloses ancestor id ↔ tree.Encloses ancestor id :=
  enclosesWithin_iff wf ancestor (Nat.lt_succ_self _)

/-! ## The innermost scope around two -/

/-- Going out from a scope for as long as it lies deeper than a level. -/
inductive ClimbsTo (tree : ScopeTree) (level : Nat) : Nat → Nat → Prop where
  | stop {id : Nat} (reached : tree.depth id ≤ level) : ClimbsTo tree level id id
  | out {id last : Nat} (deep : level < tree.depth id)
      (rest : ClimbsTo tree level (tree.outer id) last) :
      ClimbsTo tree level id last

lemma climb_facts (wf : tree.WellFormed) (level : Nat) {levels id : Nat} (inside : id < tree.size)
    (enough : levels = tree.depth id - level) :
    tree.climb levels id < tree.size ∧ tree.depth (tree.climb levels id) = tree.depth id - levels ∧
      tree.Encloses (tree.climb levels id) id ∧ tree.ClimbsTo level id (tree.climb levels id) := by
  induction levels generalizing id with
  | zero => exact ⟨inside, rfl, .refl tree id, .stop (by omega)⟩
  | succ levels ih =>
    have other : id ≠ rootId := by
      rintro rfl
      have flat := wf.root_depth
      omega
    have lies := wf.liesIn_outer inside other
    obtain ⟨older, deeper⟩ := wf.liesIn lies
    obtain ⟨bounded, shallow, around, climbs⟩ := ih (Nat.lt_trans older inside) (by omega)
    exact ⟨bounded, by rw [climb]; omega, around.trans (.of_liesIn lies), .out (by omega) climbs⟩

/-- Going out from two scopes for as long as they differ. -/
inductive MeetAt (tree : ScopeTree) : Nat → Nat → Nat → Prop where
  | stop {id : Nat} : MeetAt tree id id id
  | out {a b last : Nat} (apart : a ≠ b) (rest : MeetAt tree (tree.outer a) (tree.outer b) last) :
      MeetAt tree a b last

/-- A scope is the innermost one around two others. -/
structure Innermost (tree : ScopeTree) (a b c : Nat) : Prop where
  left : tree.Encloses c a
  right : tree.Encloses c b
  greatest : ∀ d, tree.Encloses d a → tree.Encloses d b → tree.Encloses d c

lemma meet_facts (wf : tree.WellFormed) (insideA : a < tree.size)
    (insideB : b < tree.size) (level : tree.depth a = tree.depth b)
    (enough : tree.depth a < levels) :
    tree.MeetAt a b (tree.meet levels a b) ∧ tree.Innermost a b (tree.meet levels a b) := by
  induction levels generalizing a b with
  | zero => omega
  | succ levels ih =>
    rw [meet]
    split
    next eq => exact eq ▸ ⟨.stop, .refl tree a, .refl tree a, fun _ around _ => around⟩
    next different =>
      have deep : tree.depth a ≠ 0 := by
        intro flat
        have rootB := wf.depth_eq_zero insideB (level ▸ flat)
        exact different ((wf.depth_eq_zero insideA flat).trans rootB.symm)
      have otherA : a ≠ rootId := fun top => deep (top ▸ wf.root_depth)
      have otherB : b ≠ rootId := fun top => deep (level.trans (top ▸ wf.root_depth))
      have liesA := wf.liesIn_outer insideA otherA
      have liesB := wf.liesIn_outer insideB otherB
      have factsA := wf.liesIn liesA
      have factsB := wf.liesIn liesB
      obtain ⟨meets, left, right, greatest⟩ := ih (Nat.lt_trans factsA.1 insideA)
        (Nat.lt_trans factsB.1 insideB) (by omega) (by omega)
      refine ⟨.out different meets, left.trans (.of_liesIn liesA),
        right.trans (.of_liesIn liesB), ?_⟩
      intro d aroundA aroundB
      -- A scope around both is neither of them, since they lie at one depth.
      have notA : d ≠ a := by
        rintro rfl
        exact different (aroundB.eq_of_depth wf (Nat.le_of_eq level.symm))
      have notB : d ≠ b := by
        rintro rfl
        exact different (aroundA.eq_of_depth wf (Nat.le_of_eq level)).symm
      exact greatest d (aroundA.of_ne notA liesA) (aroundB.of_ne notB liesB)

/-- Both loops of the way out end, and they end at the innermost scope. -/
lemma common_facts (wf : tree.WellFormed) (insideA : a < tree.size) (insideB : b < tree.size) :
    (∃ a' b', tree.ClimbsTo (tree.depth b) a a' ∧ tree.ClimbsTo (tree.depth a') b b' ∧
      tree.MeetAt a' b' (tree.common a b)) ∧
      tree.Innermost a b (tree.common a b) := by
  obtain ⟨boundedA, levelA, aroundA, climbsA⟩ := climb_facts wf (tree.depth b) insideA rfl
  have levels : tree.depth b - tree.depth a =
      tree.depth b - tree.depth (tree.climb (tree.depth a - tree.depth b) a) := by
    omega
  obtain ⟨boundedB, levelB, aroundB, climbsB⟩ := climb_facts wf _ insideB levels
  have level : tree.depth (tree.climb (tree.depth a - tree.depth b) a) =
      tree.depth (tree.climb (tree.depth b - tree.depth a) b) := by omega
  obtain ⟨meets, left, right, greatest⟩ :=
    meet_facts wf boundedA boundedB level (Nat.lt_succ_self _)
  refine ⟨⟨_, _, climbsA, climbsB, meets⟩, left.trans aroundA, right.trans aroundB, ?_⟩
  intro d outerA outerB
  have depthA := outerA.depth_le wf
  have depthB := outerB.depth_le wf
  exact greatest d (outerA.of_depth_le wf aroundA (by omega))
    (outerB.of_depth_le wf aroundB (by omega))

/-! ## Growing trees -/

namespace Grows

variable {before after later : ScopeTree} {inner outer : Nat}

lemma refl (tree : ScopeTree) : Grows tree tree :=
  ⟨Nat.le_refl _, fun _ _ => rfl, fun _ _ => rfl, fun _ _ => rfl⟩

lemma trans (first : Grows before after) (second : Grows after later) : Grows before later where
  size_le := Nat.le_trans first.size_le second.size_le
  parent id inside :=
    (second.parent id (Nat.lt_of_lt_of_le inside first.size_le)).trans (first.parent id inside)
  depth id inside :=
    (second.depth id (Nat.lt_of_lt_of_le inside first.size_le)).trans (first.depth id inside)
  kind id inside :=
    (second.kind id (Nat.lt_of_lt_of_le inside first.size_le)).trans (first.kind id inside)

lemma liesIn_iff (grows : Grows before after) (inside : inner < before.size) :
    after.LiesIn inner outer ↔ before.LiesIn inner outer := by
  rw [LiesIn, LiesIn, grows.parent inner inside]

lemma encloses (grows : Grows before after) (around : before.Encloses outer inner) :
    after.Encloses outer inner := by
  induction around with
  | refl => exact .refl after inner
  | tail _ lies ih =>
    exact (Encloses.of_liesIn ((grows.liesIn_iff lies.lt_size).mpr lies)).trans ih

lemma encloses_iff (grows : Grows before after) (wf : before.WellFormed)
    (inside : inner < before.size) : after.Encloses outer inner ↔ before.Encloses outer inner := by
  refine ⟨fun around => ?_, grows.encloses⟩
  induction around with
  | refl => exact .refl before inner
  | tail _ lies ih =>
    have bounded := ih.lt_size wf inside
    exact (Encloses.of_liesIn ((grows.liesIn_iff bounded).mp lies)).trans ih

end Grows

variable (parent : Nat) (kind : ScopeKind)

lemma scope_child_old {id : Nat} (inside : id < tree.size) :
    (tree.child parent kind).2.scope id = tree.scope id := by
  have inside' : id < tree.scopes.size := inside
  simp [child, scope, Array.getElem?_push, Nat.ne_of_lt inside']

lemma scope_child_new : (tree.child parent kind).2.scope tree.size =
      { kind, parent := some parent, depth := tree.depth parent + 1 } := by
  simp [child, scope, size]

lemma size_child : (tree.child parent kind).2.size = tree.size + 1 := by
  simp [child, size]

lemma grows_child : Grows tree (tree.child parent kind).2 where
  size_le := by rw [size_child]; exact Nat.le_succ _
  parent id inside := by rw [parent?, scope_child_old parent kind inside]; rfl
  depth id inside := by rw [ScopeTree.depth, scope_child_old parent kind inside]; rfl
  kind id inside := by rw [scope_child_old parent kind inside]

lemma liesIn_child : (tree.child parent kind).2.LiesIn tree.size parent := by
  rw [LiesIn, parent?, scope_child_new]

lemma WellFormed.child (wf : tree.WellFormed) {parent : Nat} (inside : parent < tree.size)
    (kind : ScopeKind) : (tree.child parent kind).2.WellFormed := by
  have grows : Grows tree (tree.child parent kind).2 := grows_child parent kind
  refine ⟨Nat.lt_of_lt_of_le wf.nonempty grows.size_le, ?_, ?_, ?_, ?_⟩
  · rw [grows.parent rootId wf.nonempty, wf.root_parent]
  · rw [grows.depth rootId wf.nonempty, wf.root_depth]
  · rw [grows.kind rootId wf.nonempty, wf.root_kind]
  · intro id bounded other
    rw [size_child] at bounded
    by_cases old : id < tree.size
    · obtain ⟨outer, found, older, deeper⟩ := wf.parent id old other
      refine ⟨outer, (grows.parent id old).trans found, older, ?_⟩
      rw [grows.depth id old, grows.depth outer (Nat.lt_trans older old), deeper]
    · obtain rfl : id = tree.size := by omega
      refine ⟨parent, liesIn_child parent kind, inside, ?_⟩
      rw [grows.depth parent inside, ScopeTree.depth, scope_child_new]

lemma wellFormed_empty : ({} : ScopeTree).WellFormed where
  nonempty := by decide
  root_parent := rfl
  root_depth := rfl
  root_kind := rfl
  parent id inside other := by
    have : id < 1 := inside
    exact absurd (Nat.lt_one_iff.mp this) other

end Blockflow.ScopeTree
