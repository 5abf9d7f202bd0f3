import Blockflow.Proofs.Expand.Bounds
import Blockflow.Proofs.Expand.Runs
import Mathlib.Algebra.Order.BigOperators.Group.Finset
import Mathlib.Data.Set.Card

/-!
# Progress

A turn that makes something new leaves less to be made: places get their nodes, nodes get their pins
connected, ways get their instances, and nodes get their ranks, each of them once. So all but
finitely many turns leave the chart, the wiring and the ranks as they are.
-/

namespace Blockflow

open Blueprint Chart Graph List Native Option

variable {known base : Heap} {bp : Blueprint (Reliable known)} {chart chart' : Chart}
  {w w' : Workspace}
  {env : Environment} {order : List Handle} {id : Handle}

namespace Blueprint

/-- What is to be done at a place: its node is to be made, and then its pins are to be connected. -/
def toDo (bp : Blueprint (Reliable known)) (chart : Chart) (g : Graph) (place : Place) : Nat :=
  match chart.node place with
  | none => (bp.pins place).length + 1
  | some id => (g.form? id).elim 0 fun form => form.pending.length

/-- The ways that can be charted and are not. -/
def openWays (bp : Blueprint (Reliable known)) (chart : Chart) : Set Way :=
  {path | (path.Below bp.wayBound ∧ path.depth ≤ bp.library.circuits.length) ∧
    chart.site path = none}

/-- How much is to be done. -/
noncomputable def room (bp : Blueprint (Reliable known)) (chart : Chart) (g : Graph) : Nat :=
  ∑ place ∈ bp.finite_offers.toFinset, bp.toDo chart g place + (bp.openWays chart).ncard

lemma finite_openWays (bp : Blueprint (Reliable known)) (chart : Chart) :
    (bp.openWays chart).Finite :=
  (Way.finite_below bp.wayBound bp.library.circuits.length).subset fun _ isOpen => isOpen.1

/-- What is to be done depends on the forms of the nodes that are charted. -/
lemma room_congr (same : ∀ {place id}, chart.node place = some id →
    g'.form? id = g.form? id) : bp.room chart g' = bp.room chart g := by
  have places : ∀ place, bp.toDo chart g' place = bp.toDo chart g place := by
    intro place
    rw [toDo, toDo]
    cases shown : chart.node place with
    | none => rfl
    | some id => exact congrArg (Option.elim · 0 fun form => form.pending.length) (same shown)
  rw [room, room, Finset.sum_congr rfl fun place _ => places place]

end Blueprint

/-- The pins that a node waits for are pins of its place. -/
lemma pending_le (fits : NodeFits bp chart store place form)
    (once : (form.pending.map Prod.fst).Nodup) : form.pending.length ≤ (bp.pins place).length := by
  have among : form.pending.map Prod.fst ⊆ range (bp.pins place).length := by
    intro pin mem
    obtain ⟨entry, isEntry, rfl⟩ := mem_map.mp mem
    obtain ⟨target, isTarget, -⟩ := fits.waits entry isEntry
    exact mem_range.mpr (lt_of_getElem? isTarget)
  have le := (once.subperm among).length_le
  rwa [length_map, length_range] at le

namespace Chart.Advances

section

variable (advances : Advances bp id chart w chart' w') (realizes : Realizes bp chart w)
  (once : ∀ {other form}, w'.graph.form? other = some form → (form.pending.map Prod.fst).Nodup)
include advances realizes once

/-- There is less to be done at a place that is charted or whose pins are connected, and nowhere
more. -/
lemma toDo_cases (place : Place) : bp.toDo chart' w'.graph place < bp.toDo chart w.graph place ∨
      bp.toDo chart' w'.graph place = bp.toDo chart w.graph place ∧
      chart'.node place = chart.node place ∧
        (chart.node place = some id → w'.graph.form? id = w.graph.form? id) := by
  rw [toDo, toDo]
  cases was : chart.node place with
  | none =>
    cases isNow : chart'.node place with
    | none => exact .inr ⟨rfl, rfl, nofun⟩
    | some other =>
      obtain ⟨form, isForm, fits⟩ := advances.realizes.placed isNow
      have le := pending_le fits (once isForm)
      dsimp only
      rw [isForm]
      exact .inl (Nat.lt_succ_of_le le)
  | some other =>
    obtain ⟨form, isForm, -⟩ := realizes.placed was
    obtain ⟨form', isForm', later⟩ := advances.later isForm
    rw [advances.node was]
    dsimp only
    rw [isForm, isForm']
    rcases later.shrinks with rfl | fewer
    · refine .inr ⟨rfl, rfl, fun eq => ?_⟩
      cases eq
      rw [isForm', isForm]
    · exact .inl fewer

/-- Either there is less to be done, or nothing was made and no pin was connected. -/
lemma progress
    (accounted : ∀ {form}, w.graph.form? id = some form → (∃ place, chart.node place = some id) ∨
      form.GivenUp) :
    bp.room chart' w'.graph < bp.room chart w.graph ∨
      chart' = chart ∧ ∀ {other form}, w.graph.form? other = some form → w'.graph.form? other =
        some form := by
  have cases' := advances.toDo_cases realizes once
  have sum : ∑ place ∈ bp.finite_offers.toFinset, bp.toDo chart' w'.graph place ≤
      ∑ place ∈ bp.finite_offers.toFinset, bp.toDo chart w.graph place :=
    Finset.sum_le_sum fun place _ => (cases' place).elim Nat.le_of_lt fun same =>
      Nat.le_of_eq same.1
  have fewer : bp.openWays chart' ⊆ bp.openWays chart := by
    rintro path ⟨offered, isOpen⟩
    refine ⟨offered, eq_none_iff_forall_ne_some.mpr fun other site => ?_⟩
    cases isOpen.symm.trans (advances.site site)
  have ways := Set.ncard_le_ncard fewer (bp.finite_openWays chart)
  by_cases less : ∃ place, bp.toDo chart' w'.graph place < bp.toDo chart w.graph place
  · obtain ⟨place, less⟩ := less
    have offered : bp.Offers place := by
      cases isNow : chart'.node place with
      | some other => exact advances.realizes.offers isNow
      | none =>
        have was : chart.node place = none := eq_none_iff_forall_ne_some.mpr fun other was => by
          cases isNow.symm.trans (advances.node was)
        rw [toDo, toDo, isNow, was] at less
        exact absurd less (Nat.lt_irrefl _)
    have strict :=
      Finset.sum_lt_sum (fun place _ => (cases' place).elim Nat.le_of_lt fun same =>
        Nat.le_of_eq same.1)
      ⟨place, bp.finite_offers.mem_toFinset.mpr offered, less⟩
    exact .inl (Nat.add_lt_add_of_lt_of_le strict ways)
  · have same : ∀ place, chart'.node place = chart.node place ∧
        (chart.node place = some id → w'.graph.form? id = w.graph.form? id) := fun place =>
      (cases' place).elim (fun isLess => absurd ⟨place, isLess⟩ less) fun same => same.2
    by_cases more : ∃ path, chart.site path = none ∧ chart'.site path ≠ none
    · obtain ⟨path, was, isNow⟩ := more
      obtain ⟨child, isNow⟩ := ne_none_iff_exists'.mp isNow
      have strict : bp.openWays chart' ⊂ bp.openWays chart := by
        refine (Set.ssubset_iff_of_subset fewer).mpr
          ⟨path, ⟨advances.realizes.way_below isNow, was⟩, fun isOpen => ?_⟩
        cases isNow.symm.trans isOpen.2
      exact .inl
        (Nat.add_lt_add_of_le_of_lt sum (Set.ncard_lt_ncard strict (bp.finite_openWays chart)))
    · refine .inr ⟨?_, fun {other form} was => ?_⟩
      · have sites : chart'.site = chart.site := by
          funext path
          cases was : chart.site path with
          | some other => exact advances.site was
          | none => exact not_not.mp fun isNow => more ⟨path, was, isNow⟩
        exact congr (congrArg Chart.mk (funext fun place => (same place).1)) sites
      · by_cases isId : other = id
        · subst isId
          rcases accounted was with ⟨place, shown⟩ | givenUp
          · exact ((same place).2 shown).trans was
          · obtain ⟨form', isForm', later⟩ := advances.later was
            rw [isForm', later.idle givenUp.pending]
        · exact advances.kept isId was

end

end Chart.Advances

lemma Ranked.length_le (ranked : Ranked chart order w) (realizes : Realizes bp chart w) :
    order.length ≤ {place | bp.Offers place}.ncard := by
  have placed : ∀ id : {id // id ∈ order}, ∃ place, chart.node place = some id.1 :=
    fun id => ranked.placed id.2
  choose place isPlace using placed
  have once : (order.attach.map place).Nodup := by
    refine Nodup.map_on (fun first _ second _ eq => ?_) (nodup_attach.mpr ranked.once)
    have isFirst := isPlace first
    rw [eq] at isFirst
    exact Subtype.ext (some.inj (isFirst.symm.trans (isPlace second)))
  have among : {other | other ∈ order.attach.map place} ⊆ {place | bp.Offers place} := by
    intro other mem
    obtain ⟨id, -, rfl⟩ := mem_map.mp mem
    exact realizes.offers (isPlace id)
  calc order.length = (order.attach.map place).length := by rw [length_map, length_attach]
    _ = (order.attach.map place).toFinset.card := (toFinset_card_of_nodup once).symm
    _ = {other | other ∈ order.attach.map place}.ncard := by
      rw [← Set.ncard_coe_finset, coe_toFinset]
    _ ≤ {place | bp.Offers place}.ncard := Set.ncard_le_ncard among bp.finite_offers

end Blockflow
