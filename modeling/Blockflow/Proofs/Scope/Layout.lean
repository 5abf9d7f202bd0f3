import Blockflow.Proofs.Scope.Enclosure
import Mathlib.Data.List.Basic
import Mathlib.Order.Basic

/-!
# The addresses of scopes

Claiming an address and laying out a tree change no scope's place. After `layout` the root starts
behind the reserved addresses and every other scope right behind its parent, so whatever encloses a
scope lies below it, and no scope reaches beyond the frame.
-/

namespace Blockflow.ScopeTree

open List

variable {tree : ScopeTree}

/-- The trees differ in claims and addresses only. -/
structure SameShape (before after : ScopeTree) : Prop extends Grows before after where
  size_eq : after.size = before.size

namespace SameShape

variable {before after later : ScopeTree}

lemma refl (tree : ScopeTree) : SameShape tree tree := ⟨Grows.refl tree, rfl⟩

lemma trans (first : SameShape before after) (second : SameShape after later) :
    SameShape before later :=
  ⟨first.toGrows.trans second.toGrows, second.size_eq.trans first.size_eq⟩

lemma parent?_eq (same : SameShape before after) (id : Nat) :
    after.parent? id = before.parent? id := by
  by_cases inside : id < before.size
  · exact same.parent id inside
  · rw [parent?_of_size_le (Nat.le_of_not_lt inside),
      parent?_of_size_le (same.size_eq ▸ Nat.le_of_not_lt inside)]

lemma liesIn_iff (same : SameShape before after) {inner outer : Nat} :
    after.LiesIn inner outer ↔ before.LiesIn inner outer := by
  rw [LiesIn, LiesIn, same.parent?_eq]

lemma encloses_iff (same : SameShape before after) {outer inner : Nat} :
    after.Encloses outer inner ↔ before.Encloses outer inner := by
  have equal : after.LiesIn = before.LiesIn := by
    funext a b
    exact propext same.liesIn_iff
  rw [Encloses, Encloses, equal]

lemma wellFormed (same : SameShape before after) (wf : before.WellFormed) : after.WellFormed where
  nonempty := same.size_eq ▸ wf.nonempty
  root_parent := (same.parent?_eq rootId).trans wf.root_parent
  root_depth := (same.depth rootId wf.nonempty).trans wf.root_depth
  root_kind := (same.kind rootId wf.nonempty).trans wf.root_kind
  parent id inside other := by
    rw [same.size_eq] at inside
    obtain ⟨outer, found, older, deeper⟩ := wf.parent id inside other
    refine ⟨outer, (same.parent?_eq id).trans found, older, ?_⟩
    rw [same.depth id inside, same.depth outer (Nat.lt_trans older inside), deeper]

end SameShape

/-! ## Changes of one scope -/

lemma scope_modify (id : Nat) (f : Scope → Scope) (other : Nat) :
    (ScopeTree.mk (tree.scopes.modify id f)).scope other =
      if other = id ∧ id < tree.size then f (tree.scope id) else tree.scope other := by
  by_cases eq : other = id
  · subst eq
    by_cases inside : other < tree.scopes.size
    · simp [scope, size, Array.getElem_modify, inside]
    · simp [scope, size, inside]
  · simp [scope, Array.getElem?_modify, eq, Ne.symm eq]

lemma sameShape_modify (id : Nat) (f : Scope → Scope)
    (parent : ∀ scope, (f scope).parent = scope.parent)
    (depth : ∀ scope, (f scope).depth = scope.depth) (kind : ∀ scope, (f scope).kind = scope.kind) :
    SameShape tree ⟨tree.scopes.modify id f⟩ := by
  refine ⟨⟨?_, ?_, ?_, ?_⟩, ?_⟩
  · simp [size]
  · intro other _
    rw [parent?, scope_modify]
    split
    next same => rw [parent, same.1]; rfl
    next => rfl
  · intro other _
    rw [ScopeTree.depth, scope_modify]
    split
    next same => rw [depth, same.1]; rfl
    next => rfl
  · intro other _
    rw [scope_modify]
    split
    next same => rw [kind, same.1]
    next => rfl
  · simp [size]

lemma sameShape_claim (id : Nat) : SameShape tree (tree.claim id).2 :=
  sameShape_modify id _ (fun _ => rfl) (fun _ => rfl) (fun _ => rfl)

lemma size_scope_claim {id : Nat} (inside : id < tree.size) (other : Nat) :
    ((tree.claim id).2.scope other).size =
      if other = id then (tree.scope id).size + 1 else (tree.scope other).size := by
  rw [claim, scope_modify]
  by_cases eq : other = id <;> simp [eq, inside]

lemma size_le_claim {id : Nat} (inside : id < tree.size) (other : Nat) :
    (tree.scope other).size ≤ ((tree.claim id).2.scope other).size := by
  rw [size_scope_claim inside]
  split
  next eq => exact eq ▸ Nat.le_succ _
  next => exact Nat.le_refl _

/-! ## Layout -/

/-- The scopes before `k` have their addresses. -/
private structure LaidUpTo (tree : ScopeTree) (reserved k frameSize : Nat) : Prop where
  root : 0 < k → (tree.scope rootId).base = reserved
  inner : ∀ inner outer, inner < k → tree.LiesIn inner outer →
    (tree.scope inner).base = tree.limit outer
  bound : ∀ id, id < k → tree.limit id ≤ frameSize
  reserved_le : reserved ≤ frameSize
  attained : frameSize = reserved ∨ ∃ id < k, frameSize = tree.limit id

/-- All scopes have their addresses: the root behind the reserved ones, every other scope right
behind its parent, and none beyond the frame, which is no larger than needed. -/
structure Laid (tree : ScopeTree) (reserved frameSize : Nat) : Prop where
  root : (tree.scope rootId).base = reserved
  inner : ∀ inner outer, tree.LiesIn inner outer → (tree.scope inner).base = tree.limit outer
  bound : ∀ id, id < tree.size → tree.limit id ≤ frameSize
  reserved_le : reserved ≤ frameSize
  attained : frameSize = reserved ∨ ∃ id < tree.size, frameSize = tree.limit id

lemma sameShape_base (tree : ScopeTree) (id base : Nat) :
    SameShape tree ⟨tree.scopes.modify id fun scope => { scope with base }⟩ :=
  sameShape_modify id _ (fun _ => rfl) (fun _ => rfl) (fun _ => rfl)

lemma scope_base_of_ne {id other : Nat} (base : Nat) (different : other ≠ id) :
    (ScopeTree.mk (tree.scopes.modify id fun scope => { scope with base })).scope other =
      tree.scope other := by
  simp [scope_modify, different]

lemma size_base (id base other : Nat) :
    ((ScopeTree.mk (tree.scopes.modify id fun scope => { scope with base })).scope other).size =
      (tree.scope other).size := by
  rw [scope_modify]
  split
  next same => rw [same.1]
  next => rfl

lemma laidUpTo_succ (wf : tree.WellFormed) (inside : k < tree.size)
    (laid : LaidUpTo tree reserved k frameSize) :
    LaidUpTo ⟨tree.scopes.modify k fun scope => { scope with base := tree.baseOf reserved k }⟩
      reserved (k + 1) (max frameSize (tree.baseOf reserved k + (tree.scope k).size)) := by
  have shape := sameShape_base tree k (tree.baseOf reserved k)
  have new : (ScopeTree.mk (tree.scopes.modify k fun scope =>
      { scope with base := tree.baseOf reserved k })).scope k =
      { tree.scope k with base := tree.baseOf reserved k } := by
    simp [scope_modify, inside]
  refine ⟨?_, ?_, ?_, Nat.le_trans laid.reserved_le (Nat.le_max_left _ _), ?_⟩
  · intro _
    by_cases first : k = rootId
    · subst first
      rw [new]
      simp [baseOf, wf.root_parent]
    · have other : rootId ≠ k := Ne.symm first
      rw [scope_base_of_ne _ other]
      exact laid.root (Nat.pos_of_ne_zero first)
  · intro inner outer below lies
    have old := shape.liesIn_iff.mp lies
    have older := (wf.liesIn old).1
    have other : outer ≠ k := by omega
    rw [limit, scope_base_of_ne _ other]
    by_cases last : inner = k
    · subst last
      rw [new]
      have found : tree.parent? inner = some outer := old
      simp [baseOf, found]
    · rw [scope_base_of_ne _ last]
      exact laid.inner inner outer (by omega) old
  · intro id below
    by_cases last : id = k
    · subst last
      rw [limit, new]
      exact Nat.le_max_right _ _
    · rw [limit, scope_base_of_ne _ last]
      exact Nat.le_trans (laid.bound id (by omega)) (Nat.le_max_left _ _)
  · rcases Nat.le_total (tree.baseOf reserved k + (tree.scope k).size) frameSize with fits | grows
    · rw [Nat.max_eq_left fits]
      refine laid.attained.imp_right ?_
      rintro ⟨id, below, eq⟩
      exact ⟨id, Nat.lt_succ_of_lt below, by
        rw [limit, scope_base_of_ne _ (Nat.ne_of_lt below)]; exact eq⟩
    · rw [Nat.max_eq_right grows]
      exact .inr ⟨k, Nat.lt_succ_self k, by rw [limit, new]⟩

lemma layoutFrom_laid (wf : tree.WellFormed) {reserved frameSize k count : Nat}
    (inside : k + count = tree.size) (laid : LaidUpTo tree reserved k frameSize) :
    let result := layoutFrom reserved (range' k count) frameSize tree
    LaidUpTo result.2 reserved tree.size result.1 ∧ SameShape tree result.2 ∧
      ∀ id, (result.2.scope id).size = (tree.scope id).size := by
  -- The scopes are laid out in the order of their numbers, so a parent is laid out before its
  -- children.
  induction count generalizing tree frameSize k with
  | zero =>
    obtain rfl : k = tree.size := by omega
    exact ⟨laid, .refl tree, fun _ => rfl⟩
  | succ count ih =>
    have shape := sameShape_base tree k (tree.baseOf reserved k)
    obtain ⟨all, same, sizes⟩ := ih (shape.wellFormed wf) (by rw [shape.size_eq]; omega)
      (laidUpTo_succ wf (by omega) laid)
    rw [shape.size_eq] at all
    exact ⟨all, shape.trans same, fun id => (sizes id).trans (size_base k _ id)⟩

lemma layout_laid (wf : tree.WellFormed) (reserved : Nat) :
    (tree.layout reserved).2.Laid reserved (tree.layout reserved).1 ∧
    SameShape tree (tree.layout reserved).2 ∧
      ∀ id, ((tree.layout reserved).2.scope id).size = (tree.scope id).size := by
  have start : LaidUpTo tree reserved 0 reserved :=
    ⟨fun positive => absurd positive (Nat.lt_irrefl 0), fun _ _ below =>
      absurd below (Nat.not_lt_zero _),
      fun _ below => absurd below (Nat.not_lt_zero _), Nat.le_refl _, .inl rfl⟩
  rw [layout, range_eq_range']
  obtain ⟨laid, same, sizes⟩ := layoutFrom_laid wf (Nat.zero_add tree.size) start
  refine ⟨⟨laid.root wf.nonempty, fun inner outer lies => ?_, fun id inside => ?_, laid.reserved_le,
    laid.attained.imp_right fun ⟨id, inside, least⟩ => ⟨id, same.size_eq.symm ▸ inside, least⟩⟩,
    same, sizes⟩
  · exact laid.inner inner outer (same.size_eq ▸ lies.lt_size) lies
  · exact laid.bound id (same.size_eq ▸ inside)

lemma base_le_limit (tree : ScopeTree) (id : Nat) :
    (tree.scope id).base ≤ tree.limit id := Nat.le_add_right _ _

lemma foldl_max_le_iff {limits : List Nat} :
    limits.foldl max start ≤ bound ↔ start ≤ bound ∧ ∀ limit ∈ limits, limit ≤ bound := by
  induction limits generalizing start with
  | nil => simp
  | cons limit limits ih => rw [foldl_cons, ih, Nat.max_le, forall_mem_cons, and_assoc]

namespace Laid

variable {reserved frameSize : Nat}

lemma limit_le_base (laid : tree.Laid reserved frameSize) {outer inner : Nat}
    (encloses : tree.Encloses outer inner)
    (other : outer ≠ inner) : tree.limit outer ≤ (tree.scope inner).base := by
  -- From the inside out: each step goes below the addresses of one more parent.
  induction encloses with
  | refl => exact absurd rfl other
  | tail rest lies ih =>
    rename_i parent outer
    by_cases direct : parent = inner
    · subst direct
      exact Nat.le_of_eq (laid.inner parent outer lies).symm
    · have equal := laid.inner parent outer lies
      have grows := tree.base_le_limit parent
      omega

lemma reserved_le_base (laid : tree.Laid reserved frameSize) (wf : tree.WellFormed) {id : Nat}
    (inside : id < tree.size) : reserved ≤ (tree.scope id).base := by
  by_cases top : id = rootId
  · exact Nat.le_of_eq (top ▸ laid.root.symm)
  · have above := laid.limit_le_base (.root wf inside) (Ne.symm top)
    have grows := tree.base_le_limit rootId
    rw [laid.root] at grows
    omega

lemma extent_le (laid : tree.Laid reserved frameSize) {id : Nat} (inside : id < tree.size) :
    (tree.extent id).2 ≤ frameSize := by
  refine foldl_max_le_iff.mpr ⟨Nat.le_trans (tree.base_le_limit id) (laid.bound id inside),
    fun limit mem => ?_⟩
  obtain ⟨nested, listed, rfl⟩ := mem_map.mp mem
  exact laid.bound nested (mem_range.mp (mem_filter.mp listed).1)

end Laid

end Blockflow.ScopeTree
