import Blockflow.Proofs.Compile.Placement
import Blockflow.Proofs.Scope.Ranges

/-!
# Common scopes

In every tree that is built from its root, going out from two scopes ends at the innermost scope
around them. The scope around many is then the same in whatever order they are taken, and so is the
place of a node in whatever order its uses are visited.
-/

namespace Blockflow

open List Compile Placement ScopeTree

variable {tree : ScopeTree} {g : Graph} {order : List Visit} {p : Placement}

namespace Compile

lemma Hull.unique (wf : tree.WellFormed) (first : Hull tree Target a)
    (second : Hull tree Target b) : a = b :=
  Nat.le_antisymm ((second.greatest a first.all).le wf) ((first.greatest b second.all).le wf)

/-- A fold takes the scopes in one after another. -/
lemma hull_foldl_common (wf : tree.WellFormed) {scopes : List Nat}
    (inside : ∀ scope ∈ first :: scopes, scope < tree.size) :
    Hull tree (· ∈ first :: scopes) (scopes.foldl tree.common first) := by
  induction scopes generalizing first with
  | nil => exact ⟨by simp [Encloses.refl], fun outer around => around first mem_cons_self⟩
  | cons second scopes ih =>
    obtain ⟨insideA, insideB, others⟩ := by simpa only [forall_mem_cons] using inside
    obtain ⟨left, right, greatest⟩ := (common_facts wf insideA insideB).2
    obtain ⟨all, innermost⟩ := ih (forall_mem_cons.mpr ⟨left.lt_size wf insideA, others⟩)
    simp only [forall_mem_cons] at all innermost
    constructor
    · simp only [forall_mem_cons]
      exact ⟨all.1.trans left, all.1.trans right, all.2⟩
    · intro outer around
      simp only [forall_mem_cons] at around
      exact innermost outer ⟨greatest outer around.1 around.2.1, around.2.2⟩

lemma Spans.unique (wf : tree.WellFormed) (first : Spans tree Target a)
    (second : Spans tree Target b) : a = b := by
  -- Every number would be around a scope without targets.
  have spanned : ∀ {scope inner}, Spans tree Target scope → scope = some inner →
      ∃ target, Target target := by
    intro scope inner spans found
    by_contra none
    have far := (spans.hull found).1.greatest (inner + 1) fun target used =>
      absurd ⟨target, used⟩ none
    exact absurd (far.le wf) (Nat.not_succ_le_self inner)
  cases a with
  | none =>
    cases b with
    | none => rfl
    | some inner =>
      obtain ⟨target, used⟩ := spanned second rfl
      exact absurd used (first.empty rfl target)
  | some inner =>
    cases b with
    | none =>
      obtain ⟨target, used⟩ := spanned first rfl
      exact absurd used (second.empty rfl target)
    | some other => rw [(first.hull rfl).1.unique wf (second.hull rfl).1]

/-- A use whose scope is made already is found there. -/
lemma ReadsIn.useScope_eq {scope : Nat} (reads : ReadsIn g p use target)
    (placed : p.scopes.lookup use.reader.node = some scope) : useScope g p use = (target, p) := by
  rw [useScope, placed]
  cases reads with
  | loopName isEnd pin => simp [isEnd, pin]
  | round isEnd pin found =>
    obtain ⟨pin', eq⟩ := Nat.exists_eq_succ_of_ne_zero pin
    simp [isEnd, eq, loopScope, found]
  | branch isSwitch pin found => simp [isSwitch, pin, branchScopes, found]
  | init isBegin found => simp [isBegin, Option.some.inj (placed.symm.trans found)]
  | plain notEnd notBegin notBranch found =>
    cases placed.symm.trans found
    split <;> simp_all

lemma commonScope_known
    (known : ∀ use ∈ uses, (∃ scope, p.scopes.lookup use.reader.node = some scope) ∧
      ∃ target, ReadsIn g p use target) :
    (commonScope g uses start p).2 = p := by
  induction uses generalizing start with
  | nil => rfl
  | cons use uses ih =>
    obtain ⟨⟨⟨scope, placed⟩, target, reads⟩, others⟩ := forall_mem_cons.mp known
    rw [commonScope, reads.useScope_eq placed]
    exact ih others

end Compile

namespace ScopeTree

/-- In a tree that is built from its root, `encloses` decides what is met on the way out, and the
way out from two scopes ends at a scope around both that all others around both are around. Scopes
taken together in any order have the same scope around them, and so have the uses of a node once
their scopes are made. -/
theorem common_innermost_in_any_order {claims : List (Nat × Nat)} (built : Built tree claims) :
    (∀ a b, tree.encloses a b = true ↔
      Relation.ReflTransGen (fun inner outer => tree.parent? inner = some outer) b a) ∧
    (∀ a b, a < tree.size → b < tree.size →
      (∃ a' b', tree.ClimbsTo (tree.depth b) a a' ∧ tree.ClimbsTo (tree.depth a') b b' ∧
        tree.MeetAt a' b' (tree.common a b)) ∧
      tree.encloses (tree.common a b) a = true ∧ tree.encloses (tree.common a b) b = true ∧
      ∀ c, tree.encloses c a = true → tree.encloses c b = true →
      tree.encloses c (tree.common a b) = true) ∧
    (∀ a b scopes scopes', (∀ scope ∈ a :: scopes, scope < tree.size) →
      (a :: scopes).Perm (b :: scopes') →
      scopes.foldl tree.common a = scopes'.foldl tree.common b) ∧
    ∀ {g : Graph} {order : List Visit} {p : Placement} {uses uses' : List Use} {start : Option Nat},
      p.tree = tree → p.Sound order → (∀ scope, start = some scope → scope < tree.size) →
      (∀ use ∈ uses, use.reader ∈ order ∧ ∃ scope, p.scopes.lookup use.reader.node = some scope) →
      uses.Perm uses' →
      commonScope g uses' start (commonScope g uses start p).2 = commonScope g uses start p := by
  have wf := built.wellFormed
  refine ⟨encloses_iff wf, fun a b insideA insideB => ?_, fun a b scopes scopes' inside same => ?_,
    ?_⟩
  · obtain ⟨loops, left, right, greatest⟩ := common_facts wf insideA insideB
    simp only [encloses_iff wf]
    exact ⟨loops, left, right, greatest⟩
  · have hull := hull_foldl_common wf inside
    simp only [same.mem_iff] at hull inside
    exact hull.unique wf (hull_foldl_common wf inside)
  · rintro g order p uses uses' start rfl sound inside placed same
    obtain ⟨sound', extends', scopes, reads, spans⟩ :=
      commonScope_facts g sound (.self inside) placed
    generalize commonScope g uses start p = result at sound' extends' scopes reads spans ⊢
    obtain ⟨scope, p'⟩ := result
    dsimp only at *
    have placed' : ∀ use ∈ uses', use.reader ∈ order ∧
        ∃ scope, p'.scopes.lookup use.reader.node = some scope :=
      fun use member => scopes ▸ placed use (same.mem_iff.mpr member)
    have kept : (commonScope g uses' start p').2 = p' := commonScope_known fun use member =>
      ⟨(placed' use member).2, reads use (same.mem_iff.mpr member)⟩
    have around := (commonScope_facts g sound' (.self fun target found =>
      Nat.lt_of_lt_of_le (inside target found) extends'.tree.size_le) placed').2.2.2.2
    rw [kept] at around
    simp only [← same.mem_iff] at around
    exact Prod.ext (around.unique sound'.tree spans) kept

/-- A loop with two branches and a loop in the first of them. -/
theorem nested_scopes_meet : ∃ tree, Built tree [] ∧ tree.common 4 3 = 1 ∧ tree.common 4 2 = 2 ∧
    tree.encloses 3 4 = false ∧ ([3, 0].foldl tree.common 4 = [4, 3].foldl tree.common 0) ∧
    Relation.ReflTransGen (fun inner outer => tree.parent? inner = some outer) 4 1 := by
  have built : Built _ [] :=
    @Built.child _ _ 2 (@Built.child _ _ 1 (@Built.child _ _ 1 (@Built.child _ _ 0 .root
    (by decide) (.loop default)) (by decide) (.branch default 0)) (by decide) (.branch default 1))
      (by decide) (.loop default)
  obtain ⟨encloses, -, fold, -⟩ := common_innermost_in_any_order built
  exact ⟨_, built, by decide, by decide, by
    decide, fold 4 0 [3, 0] [4, 3] (by decide) (by decide), (encloses 1 4).mp (by decide)⟩

end ScopeTree

end Blockflow
