import Blockflow.Proofs.Expand.Nesting
import Blockflow.Proofs.Graph.Updates

/-!
# Connecting the pins of a node

Before a node is evaluated its pending pins are connected, each to the node of the place that the
blueprint names. This is the one change of a node that is there already. A pin that goes on waiting
cannot be connected in any later store, so it makes no difference how often it is tried.
-/

namespace Blockflow

open Chart Form Graph List

variable {P : Native → Prop} {bp : Blueprint P} {chart chart' chart'' : Chart}
  {w w' w'' : Workspace}

namespace Chart

/-- The graph grew as the blueprint says, and pins of one node were connected. -/
structure Advances (bp : Blueprint P) (id : Handle) (chart : Chart) (w : Workspace) (chart' : Chart)
    (w' : Workspace) : Prop extends Spreads chart w chart' w' where
  kept : ∀ {other form}, other ≠ id → w.graph.form? other = some form →
    w'.graph.form? other = some form
  self : ∀ {form}, w.graph.form? id = some form → ∃ form', w'.graph.form? id = some form' ∧
    form.Later form'
  quiet : w.graph.Quiet → w'.graph.Quiet
  new : ∀ {place other}, chart'.node place = some other → chart.node place = some other ∨
    w.graph.form? other = none
  realizes : Realizes bp chart' w'
  fresh : ∀ {other form}, w'.graph.form? other = some form → w.graph.form? other = none →
    chart'.Covers other form

lemma Moves.advances (moves : Moves bp chart w chart' w') (id : Handle) :
    Advances bp id chart w chart' w' where
  toSpreads := moves.grows.toSpreads
  kept _ was := moves.grows.kept was
  self was := ⟨_, moves.grows.kept was, .refl _⟩
  quiet quiet := moves.grows.quiet quiet
  new := moves.grows.new
  realizes := moves.realizes
  fresh := moves.fresh

namespace Advances

variable {id : Handle} {other : Handle} {form : Form}

/-- What the chart shows of nodes that were there it showed before. -/
lemma before (advances : Advances bp id chart w chart' w')
    (shown : chart'.node place = some other) (was : w.graph.form? other = some form) :
    chart.node place = some other := by
  rcases advances.new shown with shown | absent
  · exact shown
  · cases absent.symm.trans was

lemma refl (realizes : Realizes bp chart w) : Advances bp id chart w chart w :=
  (Moves.refl realizes).advances id

/-- Every node that was there has its form, up to pins that waited. -/
lemma later (advances : Advances bp id chart w chart' w')
    (was : w.graph.form? other = some form) :
    ∃ form', w'.graph.form? other = some form' ∧ form.Later form' := by
  by_cases eq : other = id
  · subst eq
    exact advances.self was
  · exact ⟨form, advances.kept eq was, .refl form⟩

lemma trans (first : Advances bp id chart w chart' w')
    (second : Advances bp id chart' w' chart'' w'') :
    Advances bp id chart w chart'' w'' where
  toSpreads := first.toSpreads.trans second.toSpreads
  kept differs was := second.kept differs (first.kept differs was)
  self was := by
    obtain ⟨form', was', later⟩ := first.self was
    obtain ⟨form'', was'', later'⟩ := second.self was'
    exact ⟨form'', was'', later.trans later'⟩
  quiet quiet := second.quiet (first.quiet quiet)
  new found := by
    rcases second.new found with was | absent
    · exact first.new was
    · refine .inr (Option.eq_none_iff_forall_ne_some.mpr fun form was => ?_)
      obtain ⟨form', was', -⟩ := first.later was
      cases absent.symm.trans was'
  realizes := second.realizes
  fresh {other form} found absent := by
    cases between : w'.graph.form? other with
    | none => exact second.fresh found between
    | some form' =>
      obtain ⟨form'', found', later⟩ := second.later between
      cases found.symm.trans found'
      exact (first.fresh between absent).later later second.node

/-- Nodes that were on the chart or given up still are, and new ones are. -/
lemma accounted (advances : Advances bp id chart w chart' w')
    (accounted : ∀ {other form}, w.graph.form? other = some form →
      (∃ place, chart.node place = some other) ∨ form.GivenUp)
    (found : w'.graph.form? other = some form) :
    (∃ place, chart'.node place = some other) ∨ form.GivenUp := by
  cases was : w.graph.form? other with
  | none => exact (advances.fresh found was).2.imp_right fun stray => stray.toGivenUp
  | some before =>
    obtain ⟨form', found', later⟩ := advances.later was
    cases found.symm.trans found'
    rcases accounted was with ⟨place, shown⟩ | givenUp
    · exact .inl ⟨place, advances.node shown⟩
    · cases later.idle givenUp.pending
      exact .inr givenUp

lemma accounts (advances : Advances bp id chart w chart' w') (accounts : chart.Accounts w.graph) :
    chart'.Accounts w'.graph := by
  intro other form found
  cases was : w.graph.form? other with
  | none => exact advances.fresh found was
  | some before =>
    obtain ⟨form', found', later⟩ := advances.later was
    cases found.symm.trans found'
    exact (accounts other _ was).later later advances.node

lemma of_forms (realizes : Realizes bp chart w)
    (rewrites : Rewrites R w.graph g) (same : ∀ {id x y}, R id x y → y.form = x.form)
    (expansions : g.expansions = w.graph.expansions) :
    Advances bp id chart w chart { w with graph := g } := by
  have forms : ∀ other, g.form? other = w.graph.form? other := rewrites.map_eq same
  exact
    { Spreads.refl chart w with
      kept := fun _ was => (forms _).trans was
      self := fun was => ⟨_, (forms _).trans was, .refl _⟩
      quiet := fun quiet => quiet.of_expansions expansions
      new := .inl
      tidy := fun heap fits constants => ⟨heap, .refl _, fits, fun other form v found =>
        constants other form v ((forms other).symm.trans found)⟩
      realizes :=
        realizes.of_forms (rewrites.wellFormed realizes.nodes)
          (expansions ▸ realizes.expansions) forms
        (plain?_of_expansions expansions)
      fresh := fun {other _} found absent => by
        cases absent.symm.trans ((forms other).symm.trans found) }

/-- A pin that waited is connected to the node that the blueprint names. -/
lemma connect (realizes : Realizes bp chart w) (shown : chart.node place = some id)
    (isForm : w.graph.form? id = some form) {pending : Pending}
    (mem : (pin, pending) ∈ form.pending)
    {target : PinTarget} (isTarget : (bp.pins place)[pin]? = some target)
    (fine : bp.TargetFine w.store place.path target) (serves : chart.Serves place.path target)
    {src : Option Handle} (leads : chart.Leads (bp.targetSource place.path target) src) :
    Advances bp id chart w chart { w with graph := w.graph.connect id pin src } := by
  obtain ⟨form', isForm', fits⟩ := realizes.placed shown
  cases isForm.symm.trans isForm'
  have inside : pin < form.inputs.length := fits.length ▸ lt_of_getElem? isTarget
  have forms := form?_connect_live _ _ pin isForm (realizes.live?_eq leads)
  have later := Later.connect mem inside src
  have keeps := Keeps.connect w.graph id pin src
  have expansions := expansions_connect w.graph id pin src
  refine
    { Spreads.refl chart w with
      tidy :=
        fun heap fits' constants => ⟨heap, .refl _, fits', fun other form' v found computes => ?_⟩
      kept := fun differs was => ((forms _).trans (if_neg differs)).trans was
      self := fun was => ?_
      quiet := fun quiet => quiet.of_expansions expansions
      new := .inl
      realizes :=
        realizes.rewire (keeps.wellFormed realizes.nodes) expansions forms fun place' found => ?_
      fresh := fun {other form'} found absent => ?_ }
  · rw [forms] at found
    split at found
    · cases found
      exact constants id form v isForm computes
    · exact constants other form' v found computes
  · cases isForm.symm.trans was
    exact ⟨_, (forms id).trans (if_pos rfl), later⟩
  · cases realizes.nodeOnce found shown
    refine ⟨fits.owner, fits.suits, ?_, fun entry mem => fits.waits entry (later.pending entry mem),
      fun {pin' target'} isTarget' idle => ?_⟩
    · rw [inputs_connect inside, length_set]
      exact fits.length
    · rw [inputs_connect inside]
      by_cases eq : pin' = pin
      · subst eq
        cases isTarget.symm.trans isTarget'
        exact ⟨fine, serves, src, getElem?_set_self inside, leads⟩
      · rw [getElem?_set_ne (Ne.symm eq)]
        exact fits.reads isTarget' fun pending' mem' =>
          idle pending' (mem_pending_connect.mpr ⟨mem', eq⟩)
  · rw [forms, if_neg] at found
    · cases absent.symm.trans found
    · rintro rfl
      cases absent.symm.trans isForm

end Advances

end Chart

/-! ## Pins, one after another -/

/-- A pin of a place cannot be connected, in any later store. -/
def Blueprint.Barred (bp : Blueprint P) (store : Store) (place : Place) (pin : Nat) : Prop :=
  ∀ target, (bp.pins place)[pin]? = some target → bp.Hopeless store place.path target

lemma Blueprint.Barred.mono
    (barred : bp.Barred store place pin) (more : store.Extends later) : bp.Barred later place pin :=
  fun target isTarget => (barred target isTarget).mono more

namespace Workspace

variable {env : Environment} {id owner : Handle} {place : Place} {form : Form}

/-- Only nodes that stand for outputs of nested circuits wait for them. -/
lemma role_of_nested {pin block output : Nat}
    (isTarget : (bp.pins place)[pin]? = some (.nested block output)) :
    place.role = .nested block output := by
  obtain ⟨path, role⟩ := place
  have mem := mem_of_getElem? isTarget
  cases role with
  | param | argument => cases mem
  | output i =>
    obtain ⟨_, -, eq⟩ := mem_map.mp mem
    cases eq
  | rest =>
    cases path with
    | root => cases mem
    | inner path block' =>
      rw [Blueprint.pins] at mem
      split at mem
      · obtain ⟨_, -, eq⟩ := mem_map.mp mem
        cases eq
      · cases mem
  | part block' i =>
    rw [Blueprint.pins] at mem
    split at mem
    · cases mem
    · split at mem
      · obtain ⟨src, -, eq⟩ := mem_map.mp mem
        cases src <;> cases eq
      · cases mem
  | nested block' pin' =>
    cases mem_singleton.mp mem
    rfl
  | spread block' i =>
    rw [Blueprint.pins] at mem
    split at mem
    · obtain ⟨_, -, eq⟩ := mem_map.mp mem
      cases eq
    · cases mem

variable (lib : env.library = bp.library)
include lib

/-- One pin is connected as the blueprint says, or it is barred. -/
lemma resolvePin_ends (realizes : Realizes bp chart w)
    (quiet : w.graph.Quiet) (shown : chart.node place = some id)
    (isForm : w.graph.form? id = some form)
    (isOwner : form.owner = some owner) {pending : Pending} (mem : (pin, pending) ∈ form.pending) :
    (resolvePin env id owner pin pending).Ends w (fun _ w' => ∃ chart' src,
      Advances bp id chart w chart' w' ∧
        w'.graph.form? id = some (form.connect pin src))
      fun _ w' => ∃ chart', Moves bp chart w chart' w' ∧ bp.Barred w'.store place pin := by
  obtain ⟨form', isForm', fits⟩ := realizes.placed shown
  cases isForm.symm.trans isForm'
  obtain ⟨target, isTarget, awaits⟩ := fits.waits _ mem
  obtain ⟨owner', site, isOwner'⟩ := fits.owner
  cases isOwner.symm.trans isOwner'
  -- what is found is connected
  have connects : ∀ find : Edit (Option Handle), Expand.Supplies bp chart w place.path target find →
      ((find >>= fun src => Edit.modifyGraph (·.connect id pin src)).mapFailure (·.atPin pin)).Ends
        w
        (fun _ w' => ∃ chart' src, Advances bp id chart w chart' w' ∧
          w'.graph.form? id = some (form.connect pin src))
        fun _ w' => ∃ chart', Moves bp chart w chart' w' ∧ bp.Barred w'.store place pin := by
    intro find ends
    refine .mapFailure (.bind (ends.imp ?_ ?_))
    · rintro src w' ⟨chart', moves, fine, serves, leads⟩
      have isForm' := moves.grows.kept isForm
      have connected :=
        Advances.connect moves.realizes (moves.grows.node shown) isForm' mem isTarget
          fine serves leads
      refine .of_run rfl ⟨chart', w'.graph.live? src, (moves.advances id).trans connected, ?_⟩
      rw [form?_connect, if_pos rfl, isForm']
      rfl
    · rintro d w' ⟨chart', moves, never⟩
      refine ⟨chart', moves, fun target' isTarget' => ?_⟩
      cases isTarget.symm.trans isTarget'
      exact never
  rw [resolvePin]
  cases target with
  | link name =>
    obtain rfl : pending = .link name := awaits
    rw [lib]
    refine connects _ ((Expand.link_ends realizes site name).imp ?_ ?_)
    · rintro n w' ⟨chart', moves, -, fine, leads⟩
      exact ⟨chart', moves, fine, trivial, leads⟩
    · rintro d w' ⟨chart', moves, never⟩
      exact ⟨chart', moves, never⟩
  | nested block output =>
    obtain rfl : pending = .nestedOutput block output := awaits
    rw [lib]
    obtain ⟨path, role⟩ := place
    obtain rfl : role = .nested block output := role_of_nested isTarget
    exact connects _ (Expand.nestedOutput_ends realizes quiet site shown)
  | outer | role => exact awaits.elim

/-- All pins are connected as the blueprint says, but for those that are barred. -/
lemma resolvePins_advances (entries : List (Nat × Pending)) (realizes : Realizes bp chart w)
    (quiet : w.graph.Quiet) (shown : chart.node place = some id)
    (isForm : w.graph.form? id = some form)
    (isOwner : form.owner = some owner) (once : (entries.map Prod.fst).Nodup)
    (among : ∀ entry ∈ entries, entry ∈ form.pending) :
    ∃ chart' form', Advances bp id chart w chart' (resolvePins env id owner entries w).2 ∧
      (resolvePins env id owner entries w).2.graph.form? id = some form' ∧
      (∀ entry ∈ form'.pending, entry.1 ∈ entries.map Prod.fst →
        bp.Barred (resolvePins env id owner entries w).2.store place entry.1) ∧
      ((resolvePins env id owner entries w).1 = .ok () → ∀ entry ∈ form'.pending,
        entry.1 ∉ entries.map Prod.fst) := by
  induction entries generalizing chart w form with
  | nil =>
    exact ⟨chart, form, .refl realizes, isForm, fun _ _ listed => absurd listed not_mem_nil,
      fun _ _ _ => not_mem_nil⟩
  | cons entry entries ih =>
    obtain ⟨pin, pending⟩ := entry
    rw [map_cons, nodup_cons] at once
    obtain ⟨unlisted, once⟩ := once
    have ends := resolvePin_ends lib realizes quiet shown isForm isOwner (among _ mem_cons_self)
    rw [resolvePins_cons]
    rcases outcome : (resolvePin env id owner pin pending).run w with ⟨d | ⟨⟩, between⟩
    · obtain ⟨chart', moves, barred⟩ := ends.of_error outcome
      obtain ⟨chart'', form', advances, isForm', rest, -⟩ :=
        ih moves.realizes (moves.grows.quiet quiet)
        (moves.grows.node shown) (moves.grows.kept isForm) isOwner once fun entry mem =>
          among entry (mem_cons_of_mem _ mem)
      refine ⟨chart'', form', (moves.advances id).trans advances, isForm',
        fun entry mem listed => ?_,
        fun finished => by cases finished⟩
      rcases mem_cons.mp listed with isPin | later
      · rw [isPin]
        exact barred.mono advances.store
      · exact rest entry mem later
    · obtain ⟨chart', src, advances', isForm'⟩ := ends.of_ok outcome
      obtain ⟨chart'', form', advances, isForm'', rest, all⟩ :=
        ih advances'.realizes (advances'.quiet quiet)
        (advances'.node shown) isForm' isOwner once fun entry mem =>
          mem_pending_connect.mpr ⟨among entry (mem_cons_of_mem _ mem), fun isPin =>
            unlisted (isPin ▸ mem_map.mpr ⟨entry, mem, rfl⟩)⟩
      have left : ∀ entry ∈ form'.pending, entry.1 ≠ pin := by
        intro entry mem
        obtain ⟨form'', isForm''', later⟩ := advances.self isForm'
        cases isForm''.symm.trans isForm'''
        exact (mem_pending_connect.mp (later.pending entry mem)).2
      refine ⟨chart'', form', advances'.trans advances, isForm'', fun entry mem listed => ?_,
        fun finished entry mem listed => ?_⟩
      · exact rest entry mem ((mem_cons.mp listed).resolve_left (left entry mem))
      · exact all finished entry mem ((mem_cons.mp listed).resolve_left (left entry mem))

/-- What a node goes on waiting for is barred. -/
lemma resolvePending_advances (realizes : Realizes bp chart w)
    (quiet : w.graph.Quiet) (shown : chart.node place = some id) (live : w.graph.node? id = some n)
    (once : (n.pending.map Prod.fst).Nodup) :
    ∃ chart' form', Advances bp id chart w chart' (resolvePending env id w).2 ∧
      (resolvePending env id w).2.graph.form? id = some form' ∧
      (∀ entry ∈ form'.pending, bp.Barred (resolvePending env id w).2.store place entry.1) ∧
      ((resolvePending env id w).1 = .ok () → form'.pending = []) := by
  have isForm := form?_of_node? live
  obtain ⟨form, isForm', fits⟩ := realizes.placed shown
  cases isForm.symm.trans isForm'
  obtain ⟨owner, -, isOwner⟩ := fits.owner
  have isOwner : n.owner = some owner := isOwner
  rw [resolvePending_eq, live]
  dsimp only
  rw [isOwner]
  cases waiting : n.pending with
  | nil =>
    refine ⟨chart, n.form, .refl realizes, isForm, fun entry mem => ?_, fun _ => waiting⟩
    rw [show n.form.pending = [] from waiting] at mem
    cases mem
  | cons first rest =>
    dsimp only
    rw [← waiting]
    obtain ⟨chart', form', advances, isForm', barred, finished⟩ :=
      resolvePins_advances lib n.pending realizes
      quiet shown isForm isOwner once fun _ mem => mem
    have among : ∀ entry ∈ form'.pending, entry.1 ∈ n.pending.map Prod.fst := by
      intro entry mem
      obtain ⟨form'', isForm'', later⟩ := advances.self isForm
      cases isForm'.symm.trans isForm''
      exact mem_map.mpr ⟨entry, later.pending entry mem, rfl⟩
    refine ⟨chart', form', advances, isForm', fun entry mem => barred entry mem (among entry mem),
      fun done => eq_nil_iff_forall_not_mem.mpr fun entry mem =>
      finished done entry mem (among entry mem)⟩

end Workspace

end Blockflow
