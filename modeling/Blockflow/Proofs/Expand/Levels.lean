import Blockflow.Proofs.Expand.Progress
import Mathlib.Data.Multiset.DershowitzManna

/-!
# How far a change can travel

The readers of a node are evaluated again when its output changes, and links may be cyclic: a loop
begin reads what comes out of its loop, a switch reads its condition. But such a pin has no part in
what the node shows. A node that only hands a value on is in sync with the pin that it needs once it
was evaluated, and then its other pins may change as they like. All other changes go from lower
ranks to higher ones. So every node of the worklist has a level, and a node that changes wakes nodes
of lower levels only.
-/

namespace Blockflow

open Multiset Option Form

/-! ## Values are the same as themselves -/

namespace Value

mutual

lemma same_refl : ∀ v : Value, same v v
  | ⟨ty, elements, data, scalar, buffer⟩ => by
    rw [same]
    have sameTy : (ty == ty) := beq_self_eq_true ty.id
    have inside := sameElements_refl elements
    split <;> simp [sameTy, inside]

lemma sameElements_refl : ∀ vs : List Value, sameElements vs vs
  | [] => by rw [sameElements]
  | v :: vs => by rw [sameElements, same_refl v, sameElements_refl vs]; rfl

end

end Value

namespace Graph

lemma sameOutput_refl (output : Option Value) : sameOutput output output := by
  cases output with
  | none => rfl
  | some v => exact v.same_refl

lemma Shows.same (shown : Shows output made) : sameOutput output made := by
  rcases shown with rfl | eq
  · exact sameOutput_refl output
  · exact eq

/-! ## Nodes in sync -/

variable {g g' : Graph} {id : Handle} {n n' : Node}

/-- What a node shows that makes nothing new: it hands on what it has or what it reads. -/
def direct? (g : Graph) (id : Handle) (n : Node) : Option (Option Value) :=
  match n.behavior with
  | .const v => some (some v)
  | .param _ => some (g.previews.lookup id)
  | .loopBegin | .loopEnd | .pass | .nested .. => some (g.inputValue? n 0)
  | .switch => some (g.inputValue? n 1)
  | .unpack i => some ((g.inputValue? n 0).bind fun v => (v.element i).toOption)
  | .call _ => some none
  | .pack | .virtual _ | .op _ => none

lemma shownBy_of_direct? (ms : Methods) (isDirect : g.direct? id n = some v)
    (store : Store) : shownBy ((g.evaluate ms id n).run store).1 = v := by
  rw [direct?] at isDirect
  rw [evaluate]
  cases computes : n.behavior with
  | const | param | call | loopBegin | loopEnd | pass | nested | switch =>
    rw [computes] at isDirect
    exact some.inj isDirect
  | pack | virtual | op =>
    rw [computes] at isDirect
    cases isDirect
  | unpack i =>
    rw [computes] at isDirect
    cases isDirect
    cases read : g.inputValue? n 0 with
    | none => rfl
    | some v =>
      dsimp only [bind_some]
      cases v.element i <;> rfl

lemma exists_direct? (inside : pin < n.inputs.length)
    (unneeded : pin ∉ n.behavior.needs n.inputs.length) : ∃ v, g.direct? id n = some v := by
  rw [direct?]
  cases computes : n.behavior with
  | pack | virtual | op =>
    rw [computes] at unneeded
    exact absurd (List.mem_range.mpr inside) unneeded
  | _ => exact ⟨_, rfl⟩

/-- What such a node shows depends on the pins that it needs, and on its preview. -/
lemma direct?_congr (behavior : n'.behavior = n.behavior)
    (reads : ∀ pin ∈ n.behavior.needs n.inputs.length, g'.inputValue? n' pin = g.inputValue? n pin)
    (preview : g'.previews.lookup id = g.previews.lookup id) :
    g'.direct? id n' = g.direct? id n := by
  rw [direct?, direct?, behavior]
  cases computes : n.behavior with
  | const | call | pack | virtual | op => rfl
  | param => exact congrArg some preview
  | loopBegin | loopEnd | pass | nested | unpack | switch =>
    rw [computes] at reads
    rw [reads _ (List.mem_singleton_self _)]

/-- A node shows what it would show again. -/
def InSync (g : Graph) (id : Handle) : Prop :=
  ∃ n v, g.node? id = some n ∧ g.direct? id n = some v ∧ sameOutput n.output v

end Graph

open Chart Graph

variable {known base : Heap} {bp : Blueprint (Native.Reliable known)} {chart : Chart}
  {w w' ready : Workspace}
  {ms : Methods} {busy : Option Handle} {order : List Handle} {id other src : Handle} {n : Node}
  {result : Except Diagnostic (Option Value)}

lemma UpToDateFor.inSync (current : UpToDateFor Shows P ms w id n)
    (live : w.graph.node? id = some n) (isDirect : w.graph.direct? id n = some v) :
    w.graph.InSync id := by
  obtain ⟨earlier, -, outcome⟩ := current
  refine ⟨n, v, live, isDirect, ?_⟩
  have shown := shownBy_of_direct? ms isDirect earlier
  generalize ((w.graph.evaluate ms id n).run earlier).1 = result at outcome shown
  cases result with
  | ok made =>
    cases shown
    exact Shows.same outcome
  | error d =>
    cases shown
    rw [outcome.1]
    rfl

lemma Chart.Accounts.source_placed (accounts : chart.Accounts w.graph)
    (realizes : Realizes bp chart w)
    (live : w.graph.node? id = some n) (reads : n.source? pin = some src) :
    ∃ place, chart.node place = some src := by
  have reads : n.form.inputs[pin]? = some (some src) := join_eq_some_iff.mp reads
  obtain ⟨unread, ⟨place, shown⟩ | stray⟩ := accounts id _ (form?_of_node? live)
  · obtain ⟨form, isForm, fits⟩ := realizes.placed shown
    cases isForm.symm.trans (form?_of_node? live)
    exact fits.source_placed reads fun pending mem => by
      have nothing := unread (pin, pending) mem
      rw [reads] at nothing
      cases nothing
  · exact stray.inputs src (List.mem_of_getElem? reads)

/-- A pin reads the same in another graph, if what it reads shows the same there. -/
lemma Chart.Accounts.inputValue?_eq (accounts : chart.Accounts w.graph)
    (realizes : Realizes bp chart w)
    (was : w.graph.node? id = some before) (inputs : after.inputs = before.inputs)
    {g : Graph} {pin : Nat}
    (same : ∀ {src place}, before.source? pin = some src → chart.node place = some src →
      g.output? src = w.graph.output? src) :
    g.inputValue? after pin = w.graph.inputValue? before pin := by
  have sources : after.source? pin = before.source? pin := by
    rw [Node.source?, Node.source?, inputs]
  rw [inputValue?, inputValue?, sources]
  cases reads : before.source? pin with
  | none => rfl
  | some src =>
    obtain ⟨place, shown⟩ := accounts.source_placed realizes was reads
    exact same reads shown

lemma Chart.Accounts.needed_placed (accounts : chart.Accounts w.graph)
    (realizes : Realizes bp chart w)
    (needs : w.graph.Needs id src) : ∃ place, chart.node place = some src := by
  obtain ⟨_, _, live, -, reads⟩ := needs
  exact accounts.source_placed realizes live reads

lemma Expanded.not_placed (expanded : Expanded bp ms base chart busy w)
    (absent : w.graph.contains other = false) (place : Place) : chart.node place ≠ some other := by
  intro shown
  cases absent.symm.trans (expanded.realizes.live shown)

/-! ## Levels -/

open Classical in
/-- The level of a node of the worklist. A node that has a rank and is not in sync may change, and
its level is the higher the lower its rank is. -/
noncomputable def Chart.level (chart : Chart) (order : List Handle) (g : Graph) (id : Handle) :
    Nat :=
  if ∃ place, chart.node place = some id then
    if id ∈ order ∧ ¬g.InSync id then 2 + (order.length - order.idxOf id) else 1
  else 0

/-- The levels of all that waits. -/
noncomputable def Chart.levels (chart : Chart) (order : List Handle) (g : Graph) : Multiset Nat :=
  map (chart.level order g) g.worklist.toList

namespace Chart

variable {g : Graph} {place : Place}

lemma level_stale (shown : chart.node place = some id) (isRanked : id ∈ order)
    (stale : ¬g.InSync id) :
    chart.level order g id = 2 + (order.length - order.idxOf id) := by
  rw [level, if_pos ⟨place, shown⟩, if_pos ⟨isRanked, stale⟩]

lemma level_le_one (calm : id ∈ order → g.InSync id) : chart.level order g id ≤ 1 := by
  rw [level]
  split
  · rw [if_neg fun stale => stale.2 (calm stale.1)]
  · exact Nat.zero_le 1

lemma level_pos (shown : chart.node place = some id) : 0 < chart.level order g id := by
  rw [level, if_pos ⟨place, shown⟩]
  split <;> omega

lemma level_eq_zero (absent : ∀ place, chart.node place ≠ some id) : chart.level order g id = 0 :=
  if_neg fun ⟨place, shown⟩ => absent place shown

end Chart

/-- The first element is replaced by lower ones, and others change to lower ones at most. -/
lemma isDershowitzMannaLT_of_lower {f f' : Handle → Nat} {rest new : List Handle}
    (kept : ∀ other ∈ rest, f' other = f other ∨ f' other < f first)
    (low : ∀ other ∈ new, f' other < f first) :
    IsDershowitzMannaLT (map f' (rest ++ new : List Handle))
      (map f (first :: rest : List Handle)) := by
  have splits := filter_add_not (fun other => f' other = f other) (rest : Multiset Handle)
  refine ⟨map f (filter (fun other => f' other = f other) rest),
    map f' (filter (fun other => ¬f' other = f other) rest) + map f' new,
    f first ::ₘ map f (filter (fun other => ¬f' other = f other) rest), cons_ne_zero, ?_, ?_, ?_⟩
  · have eq : map f' (filter (fun other => f' other = f other) rest) =
        map f (filter (fun other => f' other = f other) rest) :=
      map_congr rfl fun other mem => (mem_filter.mp mem).2
    rw [← eq, ← add_assoc, ← map_add, splits, ← map_add, coe_add]
  · rw [add_cons, ← map_add, splits, ← map_cons, cons_coe]
  · intro level mem
    refine ⟨f first, mem_cons_self _ _, ?_⟩
    rcases mem_add.mp mem with changed | isNew
    · obtain ⟨other, isOther, rfl⟩ := mem_map.mp changed
      obtain ⟨among, differs⟩ := mem_filter.mp isOther
      exact (kept other among).resolve_left differs
    · obtain ⟨other, isOther, rfl⟩ := mem_map.mp isNew
      exact low other isOther

/-- A turn that made no node, connected no pin and ranked no node. -/
structure Stalled (bp : Blueprint (Native.Reliable known)) (ms : Methods) (id : Handle)
    (chart : Chart)
    (order : List Handle) (w ready : Workspace) (n : Node)
    (result : Except Diagnostic (Option Value)) (w' : Workspace) :
    Prop where
  turn : Turn bp ms id chart w chart ready n result w'
  forms : ∀ {other form}, w.graph.form? other = some form → ready.graph.form? other = some form
  ranked : Ranked chart order w
  ranked' : Ranked chart order w'
  accounts : chart.Accounts w.graph
  accounts' : chart.Accounts w'.graph

namespace Stalled

variable (stalled : Stalled bp ms id chart order w ready n result w')
include stalled

variable {before : Node}

lemma later (was : w.graph.node? other = some before) : ∃ after, w'.graph.node? other = some after ∧
    after.form = before.form ∧
    after.output = if other = id then refresh before.output (shownBy result) else
    before.output := by
  have isForm := stalled.forms (form?_of_node? was)
  rw [← stalled.turn.form?] at isForm
  obtain ⟨after, live, form⟩ := map_eq_some_iff.mp isForm
  refine ⟨after, live, form, ?_⟩
  rcases stalled.turn.output live with ⟨before', was', output, -⟩ | ⟨absent, -⟩
  · cases was.symm.trans was'
    exact output
  · cases absent.symm.trans was

lemma previews : w'.graph.previews = w.graph.previews := by
  rw [stalled.turn.graph, conclude_previews]
  exact stalled.turn.retains.previews

section

variable (expanded : Expanded bp ms base chart busy w)
include expanded

lemma output? (shown : chart.node place = some other)
    (same : other = id → sameOutput n.output (shownBy result)) :
    w'.graph.output? other = w.graph.output? other := by
  obtain ⟨before, was⟩ := contains_iff.mp (expanded.realizes.live shown)
  obtain ⟨after, live, -, output⟩ := stalled.later was
  rw [Graph.output?, Graph.output?, was, live]
  show after.output = before.output
  rw [output]
  split
  next isId =>
    subst isId
    obtain ⟨between, live', output', -⟩ := stalled.turn.retains.later was
    cases stalled.turn.live.symm.trans live'
    rw [refresh, ← output', same rfl, if_pos rfl]
  next => rfl

/-- A node hands the same on as long as nothing changes that it needs. -/
lemma direct?_eq (was : w.graph.node? other = some before) (form : after.form = before.form)
    (same : w.graph.Needs other id → sameOutput n.output (shownBy result)) :
    w'.graph.direct? other after = w.graph.direct? other before := by
  refine direct?_congr (congrArg behavior form) (fun pin needed => ?_) (by rw [stalled.previews])
  refine stalled.accounts.inputValue?_eq expanded.realizes was (congrArg inputs form)
    fun reads shown => ?_
  exact stalled.output? expanded shown fun isId => same ⟨before, pin, was, needed, isId ▸ reads⟩

/-- A node stays in sync, or out of sync, if nothing changes that it needs. -/
lemma inSync_iff (was : w.graph.node? other = some before)
    (differs : other ≠ id) (same : w.graph.Needs other id → sameOutput n.output (shownBy result)) :
    w'.graph.InSync other ↔ w.graph.InSync other := by
  obtain ⟨after, live, form, output⟩ := stalled.later was
  rw [if_neg differs] at output
  have direct := stalled.direct?_eq expanded was form same
  constructor
  · rintro ⟨n', v, live', isDirect, isSame⟩
    cases live.symm.trans live'
    exact ⟨before, v, was, direct ▸ isDirect, output ▸ isSame⟩
  · rintro ⟨n', v, live', isDirect, isSame⟩
    cases was.symm.trans live'
    exact ⟨after, v, live, direct ▸ isDirect, output ▸ isSame⟩

end

lemma evaluated (was : w.graph.node? id = some before) :
    n.form = before.form ∧ n.output = before.output := by
  obtain ⟨between, live, output, -⟩ := stalled.turn.retains.later was
  cases stalled.turn.live.symm.trans live
  exact ⟨some.inj
    ((form?_of_node? stalled.turn.live).symm.trans (stalled.forms (form?_of_node? was))), output⟩

/-- The node that is evaluated hands on what it read before the turn. -/
lemma direct?_ready (expanded : Expanded bp ms base chart busy w)
    (was : w.graph.node? id = some before) :
    ready.graph.direct? id n = w.graph.direct? id before := by
  have form := (stalled.evaluated was).1
  refine direct?_congr (congrArg behavior form) (fun pin _ => ?_)
    (by rw [stalled.turn.retains.previews])
  refine stalled.accounts.inputValue?_eq expanded.realizes was (congrArg inputs form) fun _ shown =>
    ?_
  exact stalled.turn.retains.output?_eq (expanded.realizes.live shown)

/-- What a ranked node hands on is what it shows after the turn. -/
lemma shownBy_eq (isRanked : id ∈ order) (isDirect : ready.graph.direct? id n = some v) :
    shownBy result = v := by
  obtain ⟨_, _, isOrder⟩ := List.append_of_mem isRanked
  obtain ⟨form, isForm, idle, -⟩ := stalled.ranked.founded isOrder
  cases (stalled.forms isForm).symm.trans (form?_of_node? stalled.turn.live)
  rcases stalled.turn.outcome with ⟨-, ran⟩ | ⟨waits, -⟩
  · have made := shownBy_of_direct? ms isDirect ready.store
    rwa [ran] at made
  · exact absurd idle waits

section

variable (expanded : Expanded bp ms base chart busy w) {place : Place}
  (shown : chart.node place = some id)
  (differs : sameOutput n.output (shownBy result) = false)
include expanded shown differs

/-- A node whose output changes has a rank and was not in sync. -/
lemma changed : id ∈ order ∧ ¬w.graph.InSync id := by
  obtain ⟨before, was⟩ := contains_iff.mp (expanded.realizes.live shown)
  have output := (stalled.evaluated was).2
  have isRanked : id ∈ order := by
    cases isOutput : before.output with
    | some => exact stalled.ranked.shown shown was (by rw [isOutput]; rfl)
    | none =>
      obtain ⟨after, live, -, isNow⟩ := stalled.later was
      rw [output, isOutput] at differs
      rw [if_pos rfl, refresh, isOutput, differs] at isNow
      refine stalled.ranked'.shown shown live ?_
      rw [isNow]
      generalize shownBy result = made at differs
      cases made with
      | none => cases differs
      | some => rfl
  refine ⟨isRanked, ?_⟩
  rintro ⟨n', v, was', isDirect, isSame⟩
  cases was.symm.trans was'
  rw [stalled.shownBy_eq isRanked ((stalled.direct?_ready expanded was).trans isDirect), output,
    isSame] at differs
  cases differs

/-- A node that reads itself is in sync afterwards: the pin is not one that it needs. -/
lemma inSync_self (reads : n.source? pin = some id) : w'.graph.InSync id := by
  obtain ⟨isRanked, -⟩ := stalled.changed expanded shown differs
  obtain ⟨before, was⟩ := contains_iff.mp (expanded.realizes.live shown)
  obtain ⟨form, output⟩ := stalled.evaluated was
  obtain ⟨after, live, form', isNow⟩ := stalled.later was
  rw [if_pos rfl, refresh, ← output, differs] at isNow
  have apart : ¬w.graph.Needs id id :=
    fun needs => Nat.lt_irrefl _ (stalled.ranked.needs_earlier isRanked needs).2
  have behavior : n.behavior = before.behavior := congrArg behavior form
  have inputs : n.inputs = before.inputs := congrArg inputs form
  obtain ⟨v, isDirect⟩ : ∃ v, ready.graph.direct? id n = some v := by
    refine exists_direct? (lt_of_getElem? (join_eq_some_iff.mp reads)) fun needed => apart ?_
    rw [behavior, inputs] at needed
    rw [Node.source?, inputs] at reads
    exact ⟨before, pin, was, needed, reads⟩
  refine ⟨after, v, live, ?_, ?_⟩
  · rw [stalled.direct?_eq expanded was form' fun needs => absurd needs apart,
      ← stalled.direct?_ready expanded was]
    exact isDirect
  · rw [isNow, stalled.shownBy_eq isRanked isDirect]
    exact sameOutput_refl v

/-- A node that needs the one that changes is on a lower level. -/
lemma level_needs (needs : w.graph.Needs other id) :
    chart.level order w'.graph other < chart.level order w.graph id := by
  obtain ⟨isRanked, stale⟩ := stalled.changed expanded shown differs
  rw [level_stale shown isRanked stale]
  by_cases ranks : other ∈ order
  · obtain ⟨-, later⟩ := stalled.ranked.needs_earlier ranks needs
    have inside := List.idxOf_lt_length_of_mem ranks
    rw [level]
    split
    · split <;> omega
    · omega
  · have low : chart.level order w'.graph other ≤ 1 :=
      level_le_one fun isRanked => absurd isRanked ranks
    omega

end

/-- A node that waits is on the level that it was on, or it needs the one that changes. -/
lemma level_kept (expanded : Expanded bp ms base chart busy w)
    (was : w.graph.node? other = some before) (apart : other ≠ id) :
    chart.level order w'.graph other = chart.level order w.graph other ∨
      chart.level order w'.graph other < chart.level order w.graph id := by
  by_cases eq : w.graph.Needs other id → sameOutput n.output (shownBy result)
  · have inSync := stalled.inSync_iff expanded was apart eq
    rw [level, inSync]
    exact .inl rfl
  · obtain ⟨needs, differs⟩ := Classical.not_imp.mp eq
    obtain ⟨place, shown⟩ := stalled.accounts.needed_placed expanded.realizes needs
    exact .inr (stalled.level_needs expanded shown (Bool.eq_false_iff.mpr differs) needs)

/-- A node that is woken is on a lower level than the one that changes. -/
lemma level_woken (expanded : Expanded bp ms base chart (some id) w)
    (exact' : Sound (Native.Reliable known) True ms (some id) w)
    (live : ready.graph.node? other = some reader) (idle : ¬ready.graph.Queued other)
    (reads : reader.source? pin = some id)
    (shown : chart.node place = some id) (differs : sameOutput n.output (shownBy result) = false) :
    chart.level order w'.graph other < chart.level order w.graph id := by
  obtain ⟨isRanked, stale⟩ := stalled.changed expanded shown differs
  suffices low : chart.level order w'.graph other ≤ 1 ∨ w.graph.Needs other id by
    rcases low with low | needs
    · rw [level_stale shown isRanked stale]
      omega
    · exact stalled.level_needs expanded shown differs needs
  by_cases isId : other = id
  · subst isId
    cases stalled.turn.live.symm.trans live
    exact .inl (level_le_one fun _ => stalled.inSync_self expanded shown differs reads)
  · cases found : w.graph.node? other with
    | none =>
      have absent : w.graph.contains other = false := Bool.eq_false_iff.mpr fun contains => by
        obtain ⟨before, was⟩ := contains_iff.mp contains
        cases found.symm.trans was
      exact .inl (level_eq_zero (expanded.not_placed absent) ▸ Nat.zero_le 1)
    | some before =>
      obtain ⟨between, live', output, queued⟩ := stalled.turn.retains.later found
      cases live.symm.trans live'
      have form : reader.form = before.form := some.inj
        ((form?_of_node? live).symm.trans (stalled.forms (form?_of_node? found)))
      have inputs : reader.inputs = before.inputs := congrArg inputs form
      rw [Node.source?, inputs] at reads
      by_cases needs : w.graph.Needs other id
      · exact .inr needs
      · -- the node was not to be evaluated, so it is in sync
        refine .inl (level_le_one fun ranks =>
          (stalled.inSync_iff expanded found isId fun needs' => absurd needs' needs).mpr ?_)
        have waits : before.queued = false := by
          cases isQueued : before.queued with
          | false => rfl
          | true => exact absurd ⟨reader, live, queued (fun eq => isId (some.inj eq)) isQueued⟩ idle
        have settled : before.pending = [] := by
          obtain ⟨_, _, isOrder⟩ := List.append_of_mem ranks
          obtain ⟨_, isForm, settled, -⟩ := stalled.ranked.founded isOrder
          cases isForm.symm.trans (form?_of_node? found)
          exact settled
        obtain ⟨v, isDirect⟩ : ∃ v, w.graph.direct? other before = some v :=
          exists_direct? (lt_of_getElem? (join_eq_some_iff.mp reads)) fun needed =>
            needs ⟨before, pin, found, needed, reads⟩
        rcases exact'.fine found (fun eq => isId (some.inj eq)) waits settled with current | ⟨lax,
            -⟩
        · exact current.inSync found isDirect
        · exact absurd trivial lax

/-- The worklist after the turn is on lower levels: what is new in it is on a lower level than the
node that was taken from it, and so are the nodes that changed their level. -/
lemma levels (expanded : Expanded bp ms base chart (some id) w)
    (expanded' : Expanded bp ms base chart none w')
    (exact' : Sound (Native.Reliable known) True ms (some id) w) (taken : w.graph.Taken id) :
    IsDershowitzMannaLT (chart.levels order w'.graph)
      (map (chart.level order w.graph) (id :: w.graph.worklist.toList : List Handle)) := by
  obtain ⟨fresh, isList, absent, none⟩ := (stalled.turn.worklist taken).pushed
  obtain ⟨woken, isList', -, facts⟩ := (conclude_enqueues ready.graph id result).pushed
  rw [← stalled.turn.graph, isList, List.append_assoc] at isList'
  rw [Chart.levels, isList']
  refine isDershowitzMannaLT_of_lower (fun other mem => ?_) fun other mem => ?_
  · obtain ⟨before, was, -⟩ := taken.queued other mem
    exact stalled.level_kept expanded was fun isId => taken.absent (isId ▸ mem)
  · rcases List.mem_append.mp mem with isFresh | isWoken
    · rw [level_eq_zero (expanded.not_placed (absent other isFresh))]
      obtain ⟨before, was, -⟩ := taken.waits
      rcases expanded.accounted (form?_of_node? was) with ⟨place, shown⟩ | givenUp
      · exact level_pos shown
      · rw [none before was givenUp.pending] at isFresh
        cases isFresh
    · obtain ⟨⟨n', reader, pin, live', live, isConsumer, differs⟩, idle, -⟩ := facts other isWoken
      cases stalled.turn.live.symm.trans live'
      obtain ⟨reader', again, reads⟩ := stalled.turn.wired.read ⟨n, live', isConsumer⟩
      cases live.symm.trans again
      -- what is read after the turn is on the chart
      obtain ⟨after, isAfter, form⟩ :=
        map_eq_some_iff.mp ((stalled.turn.form? other).trans (form?_of_node? live))
      have inputs : after.inputs = reader.inputs := congrArg inputs form
      have reads' : after.source? pin = some id := by rwa [Node.source?, inputs]
      obtain ⟨place, shown⟩ := stalled.accounts'.source_placed expanded'.realizes isAfter reads'
      exact stalled.level_woken expanded exact' live idle reads shown differs

end Stalled

end Blockflow
