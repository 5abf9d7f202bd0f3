import Blockflow.Proofs.Expand.Settling

/-!
# The order in which nodes show values

A node shows a value only if the nodes that it needs show values. So the nodes that ever showed a
value can be listed in the order in which they first did, and each of them needs earlier ones only.
The list only grows: a node that lost its value keeps its rank, since what it reads does not change
any more.
-/

namespace Blockflow

open Chart Graph List Option

namespace Graph

variable {g : Graph} {ms : Methods} {id : Handle} {n : Node} {pin : Nat} {v : Value}

lemma read_of_inputValue? (read : g.inputValue? n pin = some v) :
    ∃ src, n.source? pin = some src ∧ (g.output? src).isSome := by
  obtain ⟨src, isSource, shown⟩ := bind_eq_some_iff.mp read
  exact ⟨src, isSource, isSome_iff_exists.mpr ⟨v, shown⟩⟩

lemma read_of_inputValues? (read : g.inputValues? n = some vs) (inside : pin < n.inputs.length) :
    ∃ src, n.source? pin = some src ∧ (g.output? src).isSome := by
  rw [inputValues?_eq] at read
  have inside' : pin < (g.readings n).length := by rwa [readings, length_map]
  obtain ⟨v, isValue⟩ : ∃ v, (g.readings n)[pin]? = some (some v) := by
    clear inside
    generalize g.readings n = outs at read inside'
    induction outs generalizing pin vs with
    | nil => cases inside'
    | cons output outs ih =>
      rw [mapM_cons] at read
      obtain ⟨v, isFirst, others⟩ := bind_eq_some_iff.mp read
      obtain ⟨rest, isRest, -⟩ := bind_eq_some_iff.mp others
      cases pin with
      | zero => exact ⟨v, congrArg some isFirst⟩
      | succ pin => exact ih isRest (Nat.lt_of_succ_lt_succ inside')
  have read : g.inputValue? n pin = some v := by
    rw [inputValue?_eq, isValue]
    rfl
  exact read_of_inputValue? read

/-- A node that shows a value reads values at the pins that need them. -/
lemma evaluate_needs (ran : (g.evaluate ms id n).run s = (.ok (some v), t))
    (needed : pin ∈ n.behavior.needs n.inputs.length) :
    ∃ src, n.source? pin = some src ∧ (g.output? src).isSome := by
  rw [evaluate] at ran
  have passed : ∀ {output : Option Value}, (pure output : Action (Option Value)).run s =
      (.ok (some v), t) →
      output = some v := by
    intro output ran
    exact Except.ok.inj (congrArg Prod.fst ran)
  have all : ∀ {vs}, g.inputValues? n = some vs → pin ∈ range n.inputs.length →
      ∃ src, n.source? pin = some src ∧ (g.output? src).isSome := fun read inside =>
    read_of_inputValues? read (mem_range.mp inside)
  cases computes : n.behavior with
  | const | param | call =>
    rw [computes] at needed
    cases needed
  | loopBegin | loopEnd | pass | nested | switch =>
    rw [computes] at ran needed
    obtain rfl := mem_singleton.mp needed
    exact read_of_inputValue? (passed ran)
  | unpack i =>
    rw [computes] at ran needed
    obtain rfl := mem_singleton.mp needed
    dsimp only at ran
    split at ran
    next read => exact read_of_inputValue? read
    next => cases passed ran
  | pack | virtual | op =>
    rw [computes] at ran needed
    dsimp only at ran
    split at ran
    next read => exact all read needed
    next => cases passed ran

/-- A node needs the value of another one. -/
def Needs (g : Graph) (id src : Handle) : Prop :=
  ∃ n pin, g.node? id = some n ∧ pin ∈ n.behavior.needs n.inputs.length ∧ n.source? pin = some src

end Graph

variable {known : Heap} {bp : Blueprint (Native.Reliable known)} {chart chart' : Chart}
  {w w' : Workspace}
  {env : Environment} {order : List Handle}

/-- The nodes of the chart that ever showed a value, in the order in which they first did: each
needs earlier ones only, and waits for nothing. -/
structure Ranked (chart : Chart) (order : List Handle) (w : Workspace) : Prop where
  once : order.Nodup
  shown : ∀ {place id n}, chart.node place = some id → w.graph.node? id = some n → n.output.isSome →
    id ∈ order
  placed : ∀ {id}, id ∈ order → ∃ place, chart.node place = some id
  founded : ∀ {before id after}, order = before ++ id :: after →
    ∃ form, w.graph.form? id = some form ∧
    form.pending = [] ∧ ∀ pin ∈ form.behavior.needs form.inputs.length, ∃ src,
      form.inputs[pin]? = some (some src) ∧ src ∈ before

namespace Ranked

variable {id src : Handle} {place : Place} {ms : Methods} {ready : Workspace} {n : Node}
  {result : Except Diagnostic (Option Value)}

variable (ranked : Ranked chart order w)
include ranked

/-- The nodes that an evaluated node reads have a rank if they show a value. -/
lemma source_ranked (turn : Turn bp ms id chart w chart' ready n result w')
    (shown : chart'.node place = some id)
    (idle : n.pending = []) (isSource : n.source? pin = some src)
    (isShown : (ready.graph.output? src).isSome) : src ∈ order := by
  have read := join_eq_some_iff.mp isSource
  obtain ⟨form, isForm, fits⟩ := turn.advances.realizes.placed shown
  cases isForm.symm.trans (form?_of_node? turn.live)
  obtain ⟨place', leads⟩ := fits.source_placed read fun pending mem => by
    rw [show n.form.pending = [] from idle] at mem
    cases mem
  obtain ⟨v, isValue⟩ := isSome_iff_exists.mp isShown
  obtain ⟨provider, live, output⟩ := bind_eq_some_iff.mp isValue
  obtain ⟨before, was, eq⟩ := turn.retains.shown live output
  exact ranked.shown (turn.advances.before leads (form?_of_node? was)) was (eq ▸ rfl)

/-- A turn ranks the node that was evaluated, if it has no rank and shows a value now. -/
lemma turn (turn : Turn bp ms id chart w chart' ready n result w') :
    Ranked chart' order w' ∨ id ∉ order ∧ Ranked chart' (order ++ [id]) w' := by
  -- the nodes with a rank are as they were
  have founded : ∀ {before other after}, order = before ++ other :: after →
      ∃ form, w'.graph.form? other = some form ∧
      form.pending = [] ∧ ∀ pin ∈ form.behavior.needs form.inputs.length, ∃ src,
        form.inputs[pin]? = some (some src) ∧ src ∈ before := by
    intro before other after isOrder
    obtain ⟨form, isForm, idle, needs⟩ := ranked.founded isOrder
    obtain ⟨form', isForm', later⟩ := turn.advances.later isForm
    cases later.idle idle
    exact ⟨form, (turn.form? other).trans isForm', idle, needs⟩
  have placed : ∀ {other}, other ∈ order → ∃ place, chart'.node place = some other := by
    intro other mem
    obtain ⟨place, shown⟩ := ranked.placed mem
    exact ⟨place, turn.advances.node shown⟩
  have others : ∀ {place other after}, chart'.node place = some other →
      w'.graph.node? other = some after →
      after.output.isSome → other ≠ id → other ∈ order := by
    intro place other after shown live isShown differs
    rcases turn.output live with ⟨before, was, output, -⟩ | ⟨-, silent, -⟩
    · rw [output, if_neg differs] at isShown
      exact ranked.shown (turn.advances.before shown (form?_of_node? was)) was isShown
    · rw [silent] at isShown
      cases isShown
  by_cases ranks : id ∈ order
  · refine .inl ⟨ranked.once, fun {place other after} shown live isShown => ?_, placed, founded⟩
    by_cases eq : other = id
    · rw [eq]
      exact ranks
    · exact others shown live isShown eq
  · by_cases new : ∃ place after, chart'.node place = some id ∧ w'.graph.node? id = some after ∧
        after.output.isSome
    · obtain ⟨place, after, shown, live, isShown⟩ := new
      -- the node showed nothing before, so this is what was computed
      obtain ⟨v, rfl⟩ : ∃ v, result = .ok (some v) := by
        rcases turn.output live with ⟨before, was, output, -⟩ | ⟨-, silent, -⟩
        · have silent : before.output = none := by
            cases isOutput : before.output with
            | none => rfl
            | some =>
              exact absurd (ranked.shown (turn.advances.before shown (form?_of_node? was)) was
                (by rw [isOutput]; rfl)) ranks
          rw [output, if_pos rfl, silent, refresh] at isShown
          split at isShown
          · cases isShown
          · obtain ⟨v, eq⟩ := isSome_iff_exists.mp isShown
            cases result with
            | ok made => exact ⟨v, congrArg _ eq⟩
            | error => cases eq
        · rw [silent] at isShown
          cases isShown
      obtain ⟨idle, ran⟩ | ⟨-, -, d, failed⟩ := turn.outcome
      · refine .inr ⟨ranks, ?_, fun {place other after} shown live isShown => ?_,
          fun {other} mem => ?_,
          fun {before other after} isOrder => ?_⟩
        · exact nodup_append.mpr ⟨ranked.once, nodup_singleton id, fun other mem _ isId eq =>
            ranks (mem_singleton.mp isId ▸ eq ▸ mem)⟩
        · by_cases eq : other = id
          · exact mem_append_right _ (mem_singleton.mpr eq)
          · exact mem_append_left _ (others shown live isShown eq)
        · rcases mem_append.mp mem with old | isId
          · exact placed old
          · rw [mem_singleton.mp isId]
            exact ⟨place, shown⟩
        · rcases eq_nil_or_concat after with rfl | ⟨rest, last, rfl⟩
          · obtain ⟨rfl, eq⟩ := append_inj' isOrder rfl
            cases singleton_inj.mp eq
            refine ⟨n.form, (turn.form? id).trans (form?_of_node? turn.live), idle,
              fun pin needed => ?_⟩
            obtain ⟨src, isSource, shows'⟩ := evaluate_needs ran needed
            exact ⟨src, join_eq_some_iff.mp isSource,
              source_ranked ranked turn shown idle isSource shows'⟩
          · rw [concat_eq_append, ← cons_append, ← append_assoc] at isOrder
            obtain ⟨isOrder, -⟩ := append_inj' isOrder rfl
            exact founded isOrder
      · cases failed
    · refine .inl ⟨ranked.once, fun {place other after} shown live isShown => ?_, placed, founded⟩
      by_cases eq : other = id
      · subst eq
        exact absurd ⟨place, after, shown, live, isShown⟩ new
      · exact others shown live isShown eq

lemma of_keeps (keeps : Keeps w.graph w'.graph)
    (forms : ∀ id, w'.graph.form? id = w.graph.form? id) : Ranked chart order w' where
  once := ranked.once
  shown found live isShown := by
    obtain ⟨before, was, kept⟩ := keeps.earlier live
    exact ranked.shown found was (kept.output ▸ isShown)
  placed := ranked.placed
  founded isOrder := by
    obtain ⟨form, isForm, rest⟩ := ranked.founded isOrder
    exact ⟨form, (forms _).trans isForm, rest⟩

lemma needs_earlier (isRanked : id ∈ order) (needs : w.graph.Needs id src) :
    src ∈ order ∧ order.idxOf src < order.idxOf id := by
  obtain ⟨before, after, isOrder⟩ := append_of_mem isRanked
  obtain ⟨form, isForm, -, founded⟩ := ranked.founded isOrder
  obtain ⟨n, pin, live, needed, reads⟩ := needs
  cases isForm.symm.trans (form?_of_node? live)
  obtain ⟨src', reads', earlier⟩ := founded pin needed
  cases (join_eq_some_iff.mp reads).symm.trans reads'
  have once := ranked.once
  rw [isOrder] at once ⊢
  have apart : id ∉ before := fun mem => (nodup_append.mp once).2.2 id mem id mem_cons_self rfl
  refine ⟨mem_append_left _ earlier, ?_⟩
  rw [idxOf_append_of_mem earlier, idxOf_append_of_notMem apart, idxOf_cons_self]
  exact idxOf_lt_length_of_mem earlier

/-- What a node with a rank needs goes back to nodes that need nothing. -/
lemma accessible (isRanked : id ∈ order) : Acc (fun src id => w.graph.Needs id src) id := by
  -- by induction on the rank
  induction rank : order.idxOf id using Nat.strongRecOn generalizing id with
  | ind _ ih =>
    refine ⟨id, fun src needs => ?_⟩
    obtain ⟨isRanked', lower⟩ := ranked.needs_earlier isRanked needs
    exact ih _ (rank ▸ lower) isRanked' rfl

end Ranked

end Blockflow
