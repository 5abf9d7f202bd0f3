import Blockflow.Proofs.Expand.Levels

/-!
# Settling ends

Every turn makes something new, of which there is only so much, or it leaves the worklist on lower
levels. So the worklist of a graph is empty after finitely many turns, whatever was instantiated and
previewed: circuits that contain themselves, links that lead back to themselves and blocks that
cannot be made included.
-/

namespace Blockflow

open Chart Graph Native Workspace

variable {known base : Heap} {bp : Blueprint (Reliable known)} {chart : Chart} {w : Workspace}
  {env : Environment} {order : List Handle}

/-- What a run of a graph keeps. -/
structure Running (bp : Blueprint (Reliable known)) (ms : Methods) (base : Heap) (chart : Chart)
    (order : List Handle) (w : Workspace) : Prop where
  expanded : Expanded bp ms base chart none w
  ranked : Ranked chart order w
  accounts : chart.Accounts w.graph
  sound : Sound (Reliable known) True ms none w
  orderly : w.graph.Orderly

/-- What is left to do, and then where the worklist is. -/
noncomputable def Blueprint.outlook (bp : Blueprint (Reliable known)) (chart : Chart)
    (order : List Handle)
    (g : Graph) : Nat × Multiset Nat :=
  (bp.room chart g + ({place | bp.Offers place}.ncard - order.length), chart.levels order g)

/-- There is less to do, or as much and the worklist is on lower levels. -/
def Nearer :
    Nat × Multiset Nat → Nat × Multiset Nat → Prop := Prod.Lex (· < ·) Multiset.IsDershowitzMannaLT

lemma nearer_wellFounded : WellFounded Nearer :=
  WellFounded.prod_lex Nat.lt_wfRel.wf Multiset.wellFounded_isDershowitzMannaLT

namespace Running

variable (serves : env.Serves bp) (running : Running bp env.methods base chart order w)
include serves running

lemma step {id : Handle} {worklist : Worklist}
    (popped : w.graph.worklist.pop? = some (id, worklist)) :
    ∃ chart' order', Running bp env.methods base chart' order'
      (process env id { w with graph.worklist := worklist }) ∧
      Nearer (bp.outlook chart' order' (process env id { w with graph.worklist := worklist }).graph)
        (bp.outlook chart order w.graph) := by
  have busy := running.expanded.pop popped
  have taken := running.orderly.pop popped
  have ranked : Ranked chart order { w with graph.worklist := worklist } :=
    running.ranked.of_keeps (.of_nodes rfl) fun _ => rfl
  have sound := running.sound.pop popped
  have sound' :=
    running.sound.step (fun native reliable => reliable.isPure) serves.methods
      serves.conforms popped
  obtain ⟨before, was, -⟩ := taken.waits
  obtain ⟨chart', ready, n, result, turn, -, expanded'⟩ :=
    busy.turn serves (contains_iff.mpr ⟨before, was⟩)
  generalize process env id { w with graph.worklist := worklist } = w' at turn expanded' sound' ⊢
  have orderly : w'.graph.Orderly :=
    turn.graph ▸ (conclude_enqueues _ _ _).orderly (turn.worklist taken).toOrderly
  have accounts' : chart'.Accounts w'.graph :=
    (turn.advances.accounts running.accounts).of_forms turn.form?
  have once : ∀ {other form}, ready.graph.form? other = some form →
      (form.pending.map Prod.fst).Nodup := by
    intro other form isForm
    obtain ⟨after, live, rfl⟩ := Option.map_eq_some_iff.mp ((turn.form? other).trans isForm)
    exact expanded'.sound.pinsOnce live
  have room : bp.room chart' w'.graph = bp.room chart' ready.graph :=
    Blueprint.room_congr fun _ => turn.form? _
  have progress : bp.room chart' w'.graph < bp.room chart w.graph ∨ _ :=
    room ▸ turn.advances.progress busy.realizes once fun isForm => busy.accounted isForm
  -- a turn that makes nothing new leaves as much to do
  have same : chart' = chart ∧
      (∀ {other form}, w.graph.form? other = some form → ready.graph.form? other = some form) →
      bp.room chart' w'.graph = bp.room chart w.graph := by
    rintro ⟨rfl, forms⟩
    refine room.trans (Blueprint.room_congr fun shown => ?_)
    obtain ⟨form, isForm, -⟩ := busy.realizes.placed shown
    exact (forms isForm).trans isForm.symm
  rcases ranked.turn turn with ranked' | ⟨-, ranked'⟩
  · refine ⟨chart', order, ⟨expanded', ranked', accounts', sound', orderly⟩, ?_⟩
    rcases progress with less | stalls
    · exact .left _ _ (Nat.add_lt_add_right less _)
    · rw [Blueprint.outlook, same stalls]
      obtain ⟨rfl, forms⟩ := stalls
      refine .right _ ?_
      have stalled : Stalled bp env.methods id _ order _ ready n result w' :=
        ⟨turn, forms, ranked, ranked', running.accounts, accounts'⟩
      have lower := stalled.levels busy expanded' sound taken
      rwa [← Worklist.toList_of_pop? popped] at lower
  · refine ⟨chart', order ++ [id], ⟨expanded', ranked', accounts', sound', orderly⟩, .left _ _ ?_⟩
    have ranks := ranked'.length_le expanded'.realizes
    rw [List.length_append, List.length_singleton] at ranks ⊢
    rcases progress with less | stalls
    · omega
    · rw [same stalls]
      omega

/-- A run ends. -/
lemma ends : ∃ steps, (w.tick env steps).graph.isSettled := by
  generalize isOutlook : bp.outlook chart order w.graph = outlook
  induction outlook using nearer_wellFounded.induction generalizing chart order w with
  | _ outlook ih =>
    cases popped : w.graph.worklist.pop? with
    | none => exact ⟨0, (Worklist.isEmpty_iff _).mpr ((Worklist.pop?_eq_none _).mp popped)⟩
    | some entry =>
      obtain ⟨chart', order', running', nearer⟩ := running.step serves popped
      obtain ⟨steps, settled⟩ := ih _ (isOutlook ▸ nearer) running' rfl
      refine ⟨steps + 1, ?_⟩
      rw [tick, popped]
      exact settled

end Running

namespace Driven

variable {store : Store} {requests : List (String × List String)} {roots : List Root}
  {previews : List (Handle × Value)}

/-- Whatever a host does, nodes show what they compute, and the worklist has every node once. -/
lemma sound (driven : Driven env base store requests roots previews w) (serves : env.Serves bp) :
    Sound (Reliable known) True env.methods none w ∧ w.graph.Orderly := by
  have step : ∀ {w id worklist}, Sound (Reliable known) True env.methods none w ∧ w.graph.Orderly →
      w.graph.worklist.pop? = some (id, worklist) →
        Sound (Reliable known) True env.methods none
          (process env id { w with graph.worklist := worklist }) ∧
          (process env id { w with graph.worklist := worklist }).graph.Orderly := by
    rintro w id worklist ⟨sound, orderly⟩ popped
    exact ⟨sound.step (fun _ reliable => reliable.isPure) serves.methods serves.conforms popped,
      process_orderly serves.conforms (sound.pop popped) (orderly.pop popped)⟩
  induction driven with
  | start => exact ⟨.empty .., .nil, nofun⟩
  | @instantiate _ _ _ w w' _ name args _ made ih =>
    have edits :=
      (Expand.instantiate_editing (EditRules.fresh_expanding (Reliable known)) ih.1.wired.wellFormed
      (fun _ _ => nofun) (fun _ => nofun) env.library name args).edits
    rw [made] at edits
    exact ⟨ih.1.edits edits, (edits.enqueues ih.1.wired.wellFormed).orderly ih.2⟩
  | @preview _ _ _ w _ param make v after _ grows made ih =>
    have more : w.store.Extends after := by
      have more := grows.extends' w.store
      rwa [made] at more
    exact ⟨(ih.1.store more).setPreview param v,
      (Enqueues.markDirty _ param 0).orderly ⟨ih.2.once, ih.2.queued⟩⟩
  | tick _ steps ih => exact tick_induction step steps ih
  | settle _ limit ih =>
    exact settle_induction step
      (fun _ holds => ⟨holds.1.push _, holds.2.once, holds.2.queued⟩) limit ih

end Driven

/-- Settling ends: whatever circuits are instantiated and values previewed, after finitely many
evaluations nothing waits any more, and so nothing changes any more. -/
theorem settling_ends {store : Store} {requests : List (String × List String)} {roots : List Root}
    {previews : List (Handle × Value)} (uniform : env.library.Uniform (Native.Reliable known))
    (methods : env.methods.All (Native.Reliable known)) (within : known.Within base)
    (driven : Driven env base store requests roots previews w) :
    ∃ steps, (w.tick env steps).graph.isSettled = true ∧ ∀ more, steps ≤ more →
    w.tick env more = w.tick env steps := by
  obtain ⟨blueprint, serves, hasRoots⟩ := driven.exists_blueprint uniform methods
  obtain ⟨chart, order, hosted, ranked, -, accounts⟩ := driven.hosted serves within hasRoots
  obtain ⟨sound, orderly⟩ := driven.sound serves
  obtain ⟨steps, settled⟩ := Running.ends serves ⟨hosted.expanded, ranked, accounts, sound, orderly⟩
  refine ⟨steps, settled, fun more enough => ?_⟩
  obtain ⟨rest, rfl⟩ := Nat.exists_eq_add_of_le enough
  rw [tick_add, tick_settled settled]

/-! ## Circuits that contain each other -/

def head : Circuit where
  name := "head"
  inputs := ["x"]
  outputs := ["y"]
  blocks := [{ blockType := "tail", inputs := ["x"], outputs := ["z"] },
    { blockType := "begin", inputs := ["z", "end"], outputs := ["y"] },
    { blockType := "add", inputs := ["y", "sum"], outputs := ["sum"] },
    { blockType := "end", inputs := ["sum", "missing"], outputs := ["end"] }]

def tail : Circuit where
  name := "tail"
  inputs := ["x"]
  outputs := ["y"]
  blocks := [{ blockType := "head", inputs := ["x"], outputs := ["y"] },
    { blockType := "nothing", inputs := ["y"] }]

def biting : Environment :=
  { library := Library.builtin.insertAll [head, tail], methods := (Operators.install {} {}).1 }

def bitten : Except Diagnostic Root × Workspace :=
  (Expand.instantiate biting.library "head" []).run { store := (Operators.install {} {}).2 }

theorem biting_ends : bitten.1.toOption.isSome = true ∧ bitten.2.graph.isSettled = false ∧
    ∃ steps, (bitten.2.tick biting steps).graph.isSettled = true ∧
      ∀ more, steps ≤ more → bitten.2.tick biting more = bitten.2.tick biting steps := by
  have made : bitten.1.toOption.isSome = true := by decide +kernel
  refine ⟨made, by decide +kernel, ?_⟩
  obtain ⟨base, fits⟩ := Operators.exists_heap {}
  obtain ⟨uniform, methods⟩ := builtin_reliable base [head, tail]
  cases result : bitten.1 with
  | error d =>
    rw [result] at made
    cases made
  | ok root =>
    exact settling_ends uniform methods (.refl base)
      ((Driven.start fits).instantiate (Prod.ext result rfl))

end Blockflow
