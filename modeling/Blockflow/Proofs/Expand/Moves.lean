import Blockflow.Proofs.Expand.Charts

/-!
# Moving from chart to chart

Expansion only adds: nodes and instances that are on the chart stay where they are, and every new
node is on the larger chart. There is one exception. A pack for a variadic input is given up when
one of the links that it gathers cannot be resolved; it stays in the graph, and no node reads it.
-/

namespace Blockflow

open Chart Graph List

namespace Form

/-- The pins that wait read nothing. -/
def Unread (form : Form) : Prop := ∀ entry ∈ form.pending, form.inputs[entry.1]? = some none

lemma Unread.of_idle {form : Form} (idle : form.pending = []) : form.Unread := by
  intro entry mem
  rw [idle] at mem
  cases mem

lemma Wired.unread {owner : Handle} {b : Behavior} {pins : List PinSource}
    {form : Form} (wired : form.Wired owner made b pins) : form.Unread := by
  intro entry mem
  obtain ⟨name, isLink, -, -⟩ := (wired.pending entry).mp mem
  rw [wired.inputs, getElem?_map, isLink]
  rfl

/-- A pack that waits for nothing. -/
structure GivenUp (form : Form) : Prop where
  behavior : form.behavior = .pack
  pending : form.pending = []

end Form

/-- Some of the pins that waited were connected. -/
structure Form.Later (form form' : Form) : Prop where
  pending : ∀ entry ∈ form'.pending, entry ∈ form.pending
  unread : form.Unread → form'.Unread
  idle : form.pending = [] → form' = form
  shrinks : form' = form ∨ form'.pending.length < form.pending.length

namespace Form.Later

variable {form form' form'' : Form}

lemma refl (form : Form) : form.Later form :=
  ⟨fun _ mem => mem, fun unread => unread, fun _ => rfl, .inl rfl⟩

lemma trans (first : form.Later form') (second : form'.Later form'') : form.Later form'' where
  pending entry mem := first.pending entry (second.pending entry mem)
  unread holds := second.unread (first.unread holds)
  idle none := by
    obtain rfl := first.idle none
    exact second.idle none
  shrinks := by
    rcases first.shrinks with rfl | fewer
    · exact second.shrinks
    · rcases second.shrinks with rfl | fewer'
      · exact .inr fewer
      · exact .inr (Nat.lt_trans fewer' fewer)

lemma connect {pending : Pending} (mem : (pin, pending) ∈ form.pending)
    (inside : pin < form.inputs.length) (src : Option Handle) :
    form.Later (form.connect pin src) where
  pending entry mem := (mem_pending_connect.mp mem).1
  unread holds entry mem := by
    obtain ⟨was, differs⟩ := mem_pending_connect.mp mem
    rw [inputs_connect inside, getElem?_set_ne (Ne.symm differs)]
    exact holds entry was
  idle none := by
    rw [none] at mem
    cases mem
  shrinks := by
    refine .inr (length_filter_lt_length_iff_exists.mpr ⟨_, mem, ?_⟩)
    simp

end Form.Later

/-- A change of an expansion that asks for no nodes of it and leaves alone whether it is being
resolved. -/
structure Expansion.Mild (f : Expansion → Expansion) : Prop where
  careless : ∀ e, { f e with members := #[] } = f { e with members := #[] }
  expanding : ∀ e, (f e).expanding = e.expanding

variable {P : Native → Prop} {bp : Blueprint P} {chart chart' chart'' : Chart}
  {w w' w'' : Workspace}

namespace Chart

/-- A pack that was given up, and what it reads. -/
structure Stray (chart : Chart) (form : Form) : Prop extends form.GivenUp where
  inputs : ∀ src, some src ∈ form.inputs → ∃ place, chart.node place = some src

lemma Stray.mono (stray : chart.Stray form)
    (grows : ∀ {place id}, chart.node place = some id → chart'.node place = some id) :
    chart'.Stray form :=
  { stray with
    inputs := fun src mem => by
      obtain ⟨place, found⟩ := stray.inputs src mem
      exact ⟨place, grows found⟩ }

/-- A node is on the chart or was given up, and its pins that wait read nothing. -/
abbrev Covers (chart : Chart) (id : Handle) (form : Form) : Prop :=
  form.Unread ∧ ((∃ place, chart.node place = some id) ∨ chart.Stray form)

lemma Covers.later {id : Handle} (covers : chart.Covers id form) (later : form.Later form')
    (grows : ∀ {place id}, chart.node place = some id → chart'.node place = some id) :
    chart'.Covers id form' := by
  obtain ⟨unread, ⟨place, shown⟩ | stray⟩ := covers
  · exact ⟨later.unread unread, .inl ⟨place, grows shown⟩⟩
  · cases later.idle stray.pending
    exact ⟨unread, .inr (stray.mono grows)⟩

/-- Every node is on the chart or was given up, pins that wait read nothing, and all that is read is
on the chart. -/
def Accounts (chart : Chart) (g : Graph) :
    Prop := ∀ id form, g.form? id = some form → chart.Covers id form

lemma Accounts.of_forms (accounts : chart.Accounts g) (forms : ∀ id, g'.form? id = g.form? id) :
    chart.Accounts g' :=
  fun id form found => accounts id form ((forms id).symm.trans found)

/-- Nothing was put on the chart further in than the instance at a way. -/
def Local (path : Way) (chart chart' : Chart) : Prop :=
  ∀ place, path.depth < place.path.depth → chart'.node place = chart.node place

namespace Local

variable {path : Way}

lemma refl (path : Way) (chart : Chart) : Local path chart chart := fun _ _ => rfl

lemma trans (first : Local path chart chart') (second : Local path chart' chart'') :
    Local path chart chart'' :=
  fun place deeper => (second place deeper).trans (first place deeper)

lemma add (path : Way) (chart : Chart) (roles : List Role) (nodes : List Handle) :
    Local path chart (chart.add path roles nodes) := by
  intro place deeper
  refine add_other (.inl fun eq => ?_)
  rw [eq] at deeper
  exact Nat.lt_irrefl _ deeper

lemma inner (first : Local path chart chart') : Local (path.inner block) chart chart' :=
  fun place deeper => first place (Nat.lt_of_succ_lt deeper)

end Local

lemma Grows.of_adds {new : List Handle} (more : w.store.Extends w'.store)
    (adds : Adds new w.graph w'.graph)
    (tidy : ∀ heap : Heap, heap.Fits w.store → ∃ later, heap.Within later ∧ later.Fits w'.store ∧
      ∀ id ∈ new, ∀ form v, w'.graph.form? id = some form → form.behavior = .const v → v.In later) :
    Grows chart w chart w' where
  node found := found
  site found := found
  roots _ := rfl
  store := more
  kept := adds.form
  expanding found isExpanding := ⟨_, (adds.plain _).symm.trans found, isExpanding⟩
  new := .inl
  tidy heap fits constants := by
    obtain ⟨later, within, fits', holds⟩ := tidy heap fits
    refine ⟨later, within, fits', fun id form v found computes => ?_⟩
    by_cases isNew : id ∈ new
    · exact holds id isNew form v found computes
    · exact (constants id form v ((adds.kept id isNew).symm.trans found) computes).mono within

/-- Where the store stays and no constant is added, constants need no new room. -/
lemma tidy_of_no_constant {g : Graph} {new : List Handle}
    (computes : ∀ id ∈ new, ∀ form v, g.form? id = some form → form.behavior ≠ .const v)
    (heap : Heap) (fits : heap.Fits store) : ∃ later, heap.Within later ∧ later.Fits store ∧
      ∀ id ∈ new, ∀ form v, g.form? id = some form → form.behavior = .const v → v.In later :=
  ⟨heap, .refl _, fits, fun id isNew form v found eq => absurd eq (computes id isNew form v found)⟩

/-- The graph grew as the blueprint says. -/
structure Moves (bp : Blueprint P) (chart : Chart) (w : Workspace) (chart' : Chart)
    (w' : Workspace) :
    Prop where
  grows : chart.Grows w chart' w'
  realizes : Realizes bp chart' w'
  fresh : ∀ {id form}, w'.graph.form? id = some form → w.graph.form? id = none →
    chart'.Covers id form

namespace Moves

variable {path : Way} {id : Handle} {roles : List Role} {nodes : List Handle}

lemma refl (realizes : Realizes bp chart w) : Moves bp chart w chart w :=
  ⟨.refl _ _, realizes, fun found absent => by cases absent.symm.trans found⟩

lemma trans (first : Moves bp chart w chart' w') (second : Moves bp chart' w' chart'' w'') :
    Moves bp chart w chart'' w'' where
  grows := first.grows.trans second.grows
  realizes := second.realizes
  fresh := by
    intro id form found absent
    cases between : w'.graph.form? id with
    | none => exact second.fresh found between
    | some form' =>
      obtain rfl := Option.some.inj (found.symm.trans (second.grows.kept between))
      exact (first.fresh between absent).later (.refl _) second.grows.node

lemma of_store (realizes : Realizes bp chart w) (more : w.store.Extends store)
    (leaves : ∀ heap : Heap, heap.Fits w.store → heap.Leaves store) :
    Moves bp chart w chart { w with store } where
  grows :=
    { Grows.refl chart w with
      store := more
      tidy := fun heap fits constants => by
        obtain ⟨later, within, fits'⟩ := leaves heap fits
        exact ⟨later, within, fits', fun id form v found computes =>
          (constants id form v found computes).mono within⟩ }
  realizes := realizes.store more
  fresh found absent := by cases absent.symm.trans found

/-- New nodes take up roles of an instance, which is told of them. -/
lemma of_add {f : Expansion → Expansion} (mild : Expansion.Mild f) (grows : chart.Grows w chart' w')
    (absent : ∀ n ∈ nodes, w.graph.form? n = none)
    (fresh : ∀ {other form}, w'.graph.form? other = some form → w.graph.form? other = none →
      form.Unread ∧ (other ∈ nodes ∨ (∃ place, chart'.node place = some other) ∨ chart'.Stray form))
    (shown : ∀ n ∈ nodes, ∃ place, (chart'.add path roles nodes).node place = some n)
    (realizes : Realizes bp (chart'.add path roles nodes)
      { w' with graph := w'.graph.modifyExpansion id f }) :
    Moves bp chart w (chart'.add path roles nodes)
      { w' with graph := w'.graph.modifyExpansion id f } where
  grows :=
    { grows with
      node := fun found => add_grows (grows.node found)
      site := grows.site
      expanding := fun {other e'} found isExpanding => by
        rw [plain?_modifyExpansion _ _ _ mild.careless] at found
        split at found
        next eq =>
          obtain ⟨e, was, rfl⟩ := Option.map_eq_some_iff.mp found
          exact grows.expanding (eq ▸ was) ((mild.expanding e).symm.trans isExpanding)
        next => exact grows.expanding found isExpanding
      new := fun found => by
        rcases add_cases found with was | ⟨-, -, i, -, isNode⟩
        · exact grows.new was
        · exact .inr (absent _ (mem_of_getElem? isNode)) }
  realizes := realizes
  fresh found absent' := by
    obtain ⟨unread, isNew | ⟨place, shown'⟩ | stray⟩ := fresh found absent'
    · exact ⟨unread, .inl (shown _ isNew)⟩
    · exact ⟨unread, .inl ⟨place, add_grows shown'⟩⟩
    · exact ⟨unread, .inr (stray.mono add_grows)⟩

/-- The nodes of a block are made and take up their roles. -/
lemma of_block (realizes : Realizes bp chart w)
    (site : chart.site path = some id) (free : BlockFits bp chart w.store path block .unmade)
    (inside : ∀ layer, bp.layer? path = some layer → block < layer.circuit.blocks.length)
    (length : roles.length = nodes.length) (nodup : nodes.Nodup) (rolesOnce : roles.Nodup)
    (ofBlock : ∀ role ∈ roles, role.block? = some block) (more : w.store.Extends w'.store)
    (adds : Adds nodes w.graph w'.graph)
    (tidy : ∀ heap : Heap, heap.Fits w.store → ∃ later, heap.Within later ∧ later.Fits w'.store ∧
      ∀ id ∈ nodes, ∀ form v, w'.graph.form? id = some form → form.behavior = .const v → v.In later)
    (fits : BlockFits bp (chart.add path roles nodes) w'.store path block state)
    (placed : ∀ {i : Nat} {role n}, roles[i]? = some role → nodes[i]? = some n →
      ∃ form, w'.graph.form? n = some form ∧ form.Unread ∧
        NodeFits bp (chart.add path roles nodes) w'.store ⟨path, role⟩ form) :
    Moves bp chart w (chart.add path roles nodes)
      { w' with graph := w'.graph.modifyExpansion id (·.setBlock block state) } := by
  -- every node has a role, under which the chart shows it
  have role : ∀ {i : Nat} {n}, nodes[i]? = some n → ∃ role, roles[i]? = some role := by
    intro i n isNode
    exact ⟨_, getElem?_eq_getElem (length ▸ (lt_of_getElem? isNode))⟩
  have form : ∀ n ∈ nodes, ∃ role form, w'.graph.form? n = some form ∧ form.Unread ∧
      NodeFits bp (chart.add path roles nodes) w'.store ⟨path, role⟩ form := by
    intro n mem
    obtain ⟨i, isNode⟩ := mem_iff_getElem?.mp mem
    obtain ⟨role, isRole⟩ := role isNode
    exact ⟨role, placed isRole isNode⟩
  refine of_add ⟨fun _ => rfl, fun _ => rfl⟩ (.of_adds more adds tidy) adds.fresh
    (fun {other form'} found absent => ?_) (fun n mem => ?_)
    (((realizes.adds adds).store more).makeBlock site roles nodes state nodup
      (fun n mem => realizes.unshown (adds.fresh n mem)) ofBlock inside fits
      fun i role n isRole isNode => ?_)
  · by_cases isNew : other ∈ nodes
    · obtain ⟨_, form'', isForm, unread, -⟩ := form other isNew
      cases found.symm.trans isForm
      exact ⟨unread, .inl isNew⟩
    · cases absent.symm.trans ((adds.kept other isNew).symm.trans found)
  · obtain ⟨i, isNode⟩ := mem_iff_getElem?.mp mem
    obtain ⟨role, isRole⟩ := role isNode
    exact ⟨⟨path, role⟩,
      add_role i rolesOnce (free.2 role (ofBlock role (mem_of_getElem? isRole))) isRole isNode⟩
  · obtain ⟨form', isForm, -, fits'⟩ := placed isRole isNode
    exact ⟨form', isForm, fits'⟩

lemma connect (moves : Moves bp chart w chart' w') (absent : w.graph.form? pack = none)
    (unshown : ∀ place, chart'.node place ≠ some pack) (isForm : w'.graph.form? pack = some form)
    (live : w'.graph.live? src = src) (stray : chart'.Stray (form.connect pin src)) :
    Moves bp chart w chart' { w' with graph := w'.graph.connect pack pin src } := by
  have forms := form?_connect_live _ _ pin isForm live
  have expansions := expansions_connect w'.graph pack pin src
  have keeps := Keeps.connect w'.graph pack pin src
  refine ⟨{ moves.grows with
    tidy := fun heap fits constants => ?_
    kept := fun {other form'} was => ?_
    expanding := fun {other e'} found => ?_ }, ?_, fun {other form'} found absent' => ?_⟩
  · obtain ⟨later, within, fits', constants'⟩ := moves.grows.tidy heap fits constants
    refine ⟨later, within, fits', fun other form' v found computes => ?_⟩
    rw [forms] at found
    split at found
    · cases found
      cases stray.behavior.symm.trans computes
    · exact constants' other form' v found computes
  · rw [forms, if_neg]
    · exact moves.grows.kept was
    · rintro rfl
      cases absent.symm.trans was
  · rw [plain?_of_expansions expansions] at found
    exact moves.grows.expanding found
  · exact moves.realizes.rewire (keeps.wellFormed moves.realizes.nodes) expansions forms
      fun place found => absurd found (unshown place)
  · rw [forms] at found
    split at found
    · cases found
      exact ⟨.of_idle stray.pending, .inr stray⟩
    · exact moves.fresh found absent'

end Moves

end Chart

end Blockflow
