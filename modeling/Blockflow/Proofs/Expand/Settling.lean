import Blockflow.Proofs.Expand.Turns

/-!
# Graphs that settle

What holds of an expanded graph at every moment while it settles. It is what the chart shows; every
node is on the chart or was given up; a node that waits for nothing shows what it computes, up to
buffers, unless it is to be evaluated; and a node that was evaluated and still waits shows nothing,
since its pins cannot be connected.
-/

namespace Blockflow

open Chart Graph Native Workspace

/-- A native that can be run again at any time, and makes what it makes out of what it is given. -/
structure Native.Reliable (known : Heap) (native : Native) : Prop where
  isPure : native.Pure
  tidy : native.Tidy known

variable {known base : Heap} {bp : Blueprint (Reliable known)} {chart chart' : Chart}
  {w w' : Workspace}
  {env : Environment} {busy : Option Handle}

/-- What holds of an expanded graph while it settles; `busy` is the node that is being evaluated.
All values come from a heap. -/
structure Expanded (bp : Blueprint (Reliable known)) (ms : Methods) (base : Heap) (chart : Chart)
    (busy : Option Handle) (w : Workspace) : Prop where
  realizes : Realizes bp chart w
  quiet : w.graph.Quiet
  accounted : ∀ {id form}, w.graph.form? id = some form →
    (∃ place, chart.node place = some id) ∨ form.GivenUp
  sound : SoundFor OutputAlike (Reliable known) True ms busy w
  stuck : ∀ {place id n}, chart.node place = some id → w.graph.node? id = some n → some id ≠ busy →
    n.queued = false → n.pending ≠ [] →
    n.output = none ∧ ∀ entry ∈ n.pending, bp.Barred w.store place entry.1
  within : known.Within base
  coherent : Coherent base w

lemma showing_alike : Showing OutputAlike where
  refl output := by
    cases output with
    | none => exact .none
    | some => exact .some rfl
  none shown := by
    cases shown
    rfl

/-- The environment is that of the blueprint, and its methods are reliable. -/
structure Environment.Serves (env : Environment) (bp : Blueprint (Reliable known)) : Prop where
  library : env.library = bp.library
  methods : env.methods.All (Reliable known)

namespace Environment.Serves

variable (serves : env.Serves bp)
include serves

lemma conforms : env.library.Conforms (.fresh (Reliable known)) := by
  rw [serves.library]
  refine bp.follows.uniform.conforms (EditRules.fresh_expanding _) fun b inner native computes => ?_
  rw [computes] at inner
  exact inner

lemma isPure :
    env.methods.Pure := fun entry mem method among => (serves.methods entry mem method among).isPure

lemma tidy (within : known.Within base) :
    env.methods.All (Tidy base) := fun entry mem method among =>
  (serves.methods entry mem method among).tidy.mono within

end Environment.Serves

namespace Coherent

lemma retains (coherent : Coherent base w) (retains : Retains busy w.graph w'.graph)
    (tidy : ∀ heap : Heap, heap.Fits w.store → w.graph.Constants heap →
      ∃ later, heap.Within later ∧ later.Fits w'.store ∧ w'.graph.Constants later) :
    Coherent base w' := by
  obtain ⟨heap, more, fits, holds⟩ := coherent
  obtain ⟨later, within, fits', constants⟩ := tidy heap fits holds.constants
  refine ⟨later, more.trans within, fits', constants, fun {other n v} live shown => ?_,
    fun {other v} found => ?_⟩
  · obtain ⟨before, was, output⟩ := retains.shown live shown
    exact (holds.outputs was output).mono within
  · rw [retains.previews] at found
    exact (holds.previews found).mono within

lemma conclude {id : Handle} {n : Node} {result : Except Diagnostic (Option Value)} {store : Store}
    (coherent : Coherent base w) (all : ms.All (Tidy base)) (live : w.graph.node? id = some n)
    (tidy : ∀ native, n.behavior = .op native → native.Tidy base)
    (outcome : (w.graph.evaluate ms id n).run w.store = (result, store) ∨ store = w.store ∧
      ∃ d, result = .error d) :
    Coherent base { graph := conclude w.graph id result, store } := by
  obtain ⟨heap, more, fits, holds⟩ := coherent
  -- what was made is in a larger heap
  obtain ⟨later, within, fits', isIn⟩ : ∃ later, heap.Within later ∧ later.Fits store ∧
      ∀ v, shownBy result = some v → v.In later := by
    rcases outcome with ran | ⟨rfl, d, rfl⟩
    · have ends := evaluate_tidy holds more all live tidy heap w.store (.refl _) fits
      cases result with
      | ok made =>
        obtain ⟨later, within, fits', isIn⟩ := ends.of_ok ran
        exact ⟨later, within, fits', isIn⟩
      | error d =>
        obtain ⟨later, within, fits'⟩ := ends.of_error ran
        exact ⟨later, within, fits', nofun⟩
    · exact ⟨heap, .refl _, fits, nofun⟩
  refine ⟨later, more.trans within, fits', fun other form v isForm computes => ?_,
    fun {other after v} live' shown => ?_, fun {other v} found => ?_⟩
  · exact (holds.constants other form v ((form?_conclude _ _ _ _).symm.trans isForm) computes).mono
      within
  · obtain ⟨before, was, _, _, rfl, -⟩ := (conclude_rewrites w.graph id result).earlier live'
    split at shown
    · rw [refresh] at shown
      split at shown
      · exact (holds.outputs was shown).mono within
      · exact isIn v shown
    · exact (holds.outputs was shown).mono within
  · rw [conclude_previews] at found
    exact (holds.previews found).mono within

end Coherent

namespace Expanded

variable {id : Handle}

/-- The chart has no part in what waits and what was said. -/
lemma noted (expanded : Expanded bp env.methods base chart none w) {worklist : Worklist}
    {diagnostics : DiagnosticChain}
    (sound : SoundFor OutputAlike (Reliable known) True env.methods busy
      { w with graph := { w.graph with worklist, diagnostics } }) :
    Expanded bp env.methods base chart busy
      { w with graph := { w.graph with worklist, diagnostics } } where
  realizes := expanded.realizes.of_forms expanded.realizes.nodes expanded.realizes.expansions
    (fun _ => rfl) fun _ => rfl
  quiet := expanded.quiet
  accounted := expanded.accounted
  sound
  stuck shown live _ idle waits := expanded.stuck shown live nofun idle waits
  within := expanded.within
  coherent := by
    obtain ⟨heap, more, fits, holds⟩ := expanded.coherent
    exact ⟨heap, more, fits, holds.constants, holds.outputs, holds.previews⟩

lemma pop (expanded : Expanded bp env.methods base chart none w) {worklist : Worklist}
    (popped : w.graph.worklist.pop? = some (id, worklist)) :
    Expanded bp env.methods base chart (some id) { w with graph.worklist := worklist } :=
  expanded.noted (expanded.sound.pop popped)

/-- A node that is ready is compared with its result up to buffers. -/
lemma prepared_alike (serves : env.Serves bp)
    (expanded : Expanded bp env.methods base chart (some id) w)
    (live : w.graph.node? id = some before)
    (live' : (w.prepare env id).2.graph.node? id = some n)
    (isMade : (((w.prepare env id).2.graph.evaluate env.methods id n).run
      (w.prepare env id).2.store).1 = .ok made)
    (eq : sameOutput n.output made) : OutputAlike n.output made := by
  have contains := contains_iff.mpr ⟨before, live⟩
  obtain ⟨chart', form, advances, -⟩ :=
    prepare_advances serves.library expanded.realizes expanded.quiet live
    (expanded.sound.pinsOnce live) (expanded.accounted (form?_of_node? live))
  have retains := prepare_retains serves.conforms expanded.realizes.nodes contains
  obtain ⟨sound, -⟩ := expanded.sound.prepare serves.conforms contains
  exact (expanded.coherent.retains retains advances.tidy).alike (serves.tidy expanded.within) live'
    (fun native computes => (sound.natives live' computes).tidy.mono expanded.within) isMade eq

lemma turn (serves : env.Serves bp)
    (expanded : Expanded bp env.methods base chart (some id) w) (contains : w.graph.contains id) :
    ∃ chart' ready n result, Turn bp env.methods id chart w chart' ready n result
      (w.process env id) ∧
      w.store.Extends (w.process env id).store ∧
      Expanded bp env.methods base chart' none (w.process env id) := by
  obtain ⟨before, live⟩ := contains_iff.mp contains
  obtain ⟨chart', ready, n, result, turn⟩ :=
    process_turn serves.library serves.conforms expanded.realizes
    expanded.quiet expanded.sound live (expanded.accounted (form?_of_node? live))
  have sound :=
    SoundFor.process showing_alike (fun native reliable => reliable.isPure) serves.methods
      serves.conforms
    expanded.sound fun _ _ live' isMade eq => prepared_alike serves expanded live live' isMade eq
  refine ⟨chart', ready, n, result, turn, ?_⟩
  generalize w.process env id = w' at turn sound ⊢
  obtain ⟨g, store⟩ := w'
  have natives : ∀ native, n.behavior = .op native → Reliable known native := by
    intro native computes
    obtain ⟨after, live', _, _, rfl, -⟩ := (conclude_rewrites ready.graph id result).later turn.live
    rw [← turn.graph] at live'
    exact sound.natives live' computes
  have more := turn.store (evaluate_steady serves.isPure ready.graph id n fun native computes =>
    (natives native computes).isPure).grows
  have rewrites := conclude_rewrites ready.graph id result
  have isGraph : g = conclude ready.graph id result := turn.graph
  subst isGraph
  refine ⟨turn.advances.store.trans more,
    { realizes := ?_
      quiet := (turn.advances.quiet expanded.quiet).of_expansions (expansions_conclude _ _ _)
      accounted := fun {other form} found =>
      turn.advances.accounted expanded.accounted ((form?_conclude _ _ _ _).symm.trans found)
      sound
      stuck := fun {place other after} shown live' _ idle waits => ?_
      within := expanded.within
      coherent := ?_ }⟩
  · exact (turn.advances.realizes.of_forms (rewrites.wellFormed turn.advances.realizes.nodes)
      ((expansions_conclude _ _ _).symm ▸ turn.advances.realizes.expansions) (form?_conclude _ _ _)
      (plain?_of_expansions (expansions_conclude _ _ _))).store more
  · by_cases isId : other = id
    · subst isId
      obtain ⟨between, was, _, _, rfl, -⟩ := rewrites.earlier live'
      cases turn.live.symm.trans was
      obtain ⟨settled, -⟩ | ⟨-, eq, d, rfl⟩ := turn.outcome
      · exact absurd settled waits
      · refine ⟨?_, fun entry mem => ?_⟩
        · rw [if_pos rfl, refresh]
          split
          next kept => exact eq_none_of_sameOutput kept
          next => rfl
        · rw [show store = ready.store from eq]
          exact turn.barred place shown entry mem
    · rcases turn.output live' with ⟨before', was, output, queued⟩ | ⟨-, -, isQueued⟩
      · have isForm := turn.advances.kept isId (form?_of_node? was)
        have pending : after.pending = before'.pending := by
          have eq := (form?_of_node? live').symm.trans ((form?_conclude _ _ _ _).trans isForm)
          exact congrArg Form.pending (Option.some.inj eq)
        obtain ⟨silent, barred⟩ :=
          expanded.stuck (turn.advances.before shown (form?_of_node? was)) was
          (fun eq => isId (Option.some.inj eq)) (idle_of_queued (queued isId) idle)
            (pending ▸ waits)
        rw [output, if_neg isId, pending]
        exact ⟨silent, fun entry mem => (barred entry mem).mono (turn.advances.store.trans more)⟩
      · cases idle.symm.trans isQueued
  · refine (expanded.coherent.retains turn.retains turn.advances.tidy).conclude
      (serves.tidy expanded.within) turn.live
      (fun native computes => (natives native computes).tidy.mono expanded.within) ?_
    rcases turn.outcome with ⟨-, ran⟩ | ⟨-, eq, failed⟩
    · exact .inl ran
    · exact .inr ⟨eq, failed⟩

lemma skip (expanded : Expanded bp env.methods base chart (some id) w)
    (gone : w.graph.contains id = false) : Expanded bp env.methods base chart none w :=
  { expanded with
    sound := expanded.sound.skip gone
    stuck := fun {place other n} shown live _ idle waits => by
      refine expanded.stuck shown live (fun eq => ?_) idle waits
      cases eq
      cases gone.symm.trans (contains_iff.mpr ⟨n, live⟩) }

variable (expanded : Expanded bp env.methods base chart none w)
include expanded

lemma push (d : Diagnostic) :
    Expanded bp env.methods base chart none
      { w with graph.diagnostics := w.graph.diagnostics.push d } :=
  expanded.noted (expanded.sound.push d)

lemma store {store : Store} (more : w.store.Extends store)
    (coherent : Coherent base { w with store }) :
    Expanded bp env.methods base chart none { w with store } where
  realizes := expanded.realizes.store more
  quiet := expanded.quiet
  accounted := expanded.accounted
  sound := expanded.sound.store more
  stuck shown live differs idle waits := by
    obtain ⟨silent, barred⟩ := expanded.stuck shown live differs idle waits
    exact ⟨silent, fun entry mem => (barred entry mem).mono more⟩
  within := expanded.within
  coherent := coherent

lemma setPreview (param : Handle)
    (coherent : Coherent base { w with graph := w.graph.setPreview param v }) :
    Expanded bp env.methods base chart none { w with graph := w.graph.setPreview param v } := by
  have keeps := Keeps.setPreview w.graph param v
  have forms := form?_setPreview w.graph param v
  have expansions := expansions_setPreview w.graph param v
  refine
    { realizes := expanded.realizes.of_forms (keeps.wellFormed expanded.realizes.nodes)
        (expansions ▸ expanded.realizes.expansions) forms (plain?_of_expansions expansions)
      quiet := expanded.quiet.of_expansions expansions
      accounted := fun found => expanded.accounted ((forms _).symm.trans found)
      sound := expanded.sound.setPreview param v
      stuck := fun {place id after} shown live _ idle waits => ?_
      within := expanded.within
      coherent := coherent }
  obtain ⟨before, was, rfl⟩ := (setPreview_rewrites w.graph param v).earlier live
  by_cases same : id = param
  · rw [if_pos same] at idle
    cases idle
  · rw [if_neg same] at idle waits ⊢
    exact expanded.stuck shown was nofun idle waits

end Expanded

lemma lookup_setPreview (g : Graph) (param : Handle) (v : Value) (id : Handle) :
    (g.setPreview param v).previews.lookup id = if id = param then some v else
    g.previews.lookup id := by
  rw [setPreview, (NodeEdit.markDirty _ param 0).notes.1, lookup_cons, lookup_filter_ne]
  split <;> rfl

/-- A value that was made out of what is known may be previewed. -/
lemma Coherent.preview (coherent : Coherent base w) {store : Store}
    (tidy : Store.MakesTidy base make) (made : make.run w.store = (.ok v, store)) (param : Handle) :
    Coherent base { w with store } ∧
    Coherent base { graph := w.graph.setPreview param v, store } := by
  obtain ⟨heap, more, fits, holds⟩ := coherent
  obtain ⟨later, more', fits', isIn⟩ := (tidy heap w.store more fits).of_ok made
  have keeps := Keeps.setPreview w.graph param v
  have outputs : ∀ {id n v}, w.graph.node? id = some n → n.output = some v → v.In later :=
    fun live shown => (holds.outputs live shown).mono more'
  refine ⟨⟨later, more.trans more', fits', fun id form v isForm computes => ?_, outputs,
    fun found => ?_⟩,
    later, more.trans more', fits', fun id form v isForm computes =>
    ?_, fun {id after v'} live shown => ?_,
    fun {id v'} found => ?_⟩
  · exact (holds.constants id form v isForm computes).mono more'
  · exact (holds.previews found).mono more'
  · exact (holds.constants id form v ((form?_setPreview _ _ _ id).symm.trans isForm) computes).mono
      more'
  · obtain ⟨before, was, kept⟩ := keeps.earlier live
    exact outputs was (kept.output.symm.trans shown)
  · rw [lookup_setPreview] at found
    split at found
    · cases found
      exact isIn
    · exact (holds.previews found).mono more'

end Blockflow
