import Blockflow.Proofs.Expand.Forest

/-!
# Clearing expansions

Tearing an expansion down frees it, everything nested in it and all their nodes, and nothing else.
The number of expansions bounds how deep they are nested, so no level is left out. The forest around
stays one: what was nested elsewhere is where it was, and the block of the call site has no
expansion or one that is not there any more.
-/

namespace Blockflow.Graph

open List Expansion

variable {Known : String → Prop} {a b c g : Graph} {id x : Handle} {e : Expansion}

/-! ## What is nested in an expansion -/

/-- An expansion is another one or nested in it. -/
def Within (g : Graph) (id x : Handle) : Prop := ∃ e, g.expansion? x = some e ∧ id ∈ e.line x

namespace Forest

variable (forest : g.Forest Known)
include forest

omit forest in
lemma within_self (found : g.expansion? id = some e) : g.Within id id :=
  ⟨e, found, mem_cons_self⟩

omit forest in
lemma within_site (found : g.expansion? x = some e) (isParents : e.parents = site :: rest) :
    g.Within site.expansion x :=
  ⟨e, found, by rw [line, isParents]; exact mem_cons_of_mem _ mem_cons_self⟩

lemma within_live (within : g.Within id x) : ∃ e, g.expansion? id = some e := by
  obtain ⟨e, found, mem⟩ := within
  obtain ⟨e', found', -⟩ := forest.live_of_mem found mem
  exact ⟨e', found'⟩

lemma within_trans (first : g.Within id x) (second : g.Within x y) : g.Within id y := by
  obtain ⟨e, found, mem⟩ := first
  obtain ⟨e', found', mem'⟩ := second
  obtain ⟨e'', found'', suffix⟩ := forest.live_of_mem found' mem'
  cases found.symm.trans found''
  exact ⟨e', found', suffix.subset mem⟩

variable (found : g.expansion? id = some e)
include found

/-- What is nested in an expansion is nested in the expansion of one of its blocks. -/
lemma within_iff : g.Within id x ↔ x = id ∨ ∃ child ∈ e.children, g.Within child x := by
  constructor
  · rintro ⟨e', found', mem⟩
    obtain ⟨before, after, isLine⟩ := append_of_mem mem
    rcases eq_nil_or_concat' before with rfl | ⟨before, child, rfl⟩
    · exact .inl (cons.inj isLine).1
    · refine .inr ⟨child, ?_, e', found', ?_⟩
      · -- the one before it in the line is nested in it directly
        have suffix : child :: id :: after <:+ e'.line x := ⟨before, by rw [isLine]; simp⟩
        obtain ⟨inner, isInner, line⟩ := forest.line_of_suffix found' suffix
        cases isParents : inner.parents with
        | nil =>
          rw [Expansion.line, isParents] at line
          cases line
        | cons site outer =>
          rw [Expansion.line, isParents] at line
          obtain ⟨around, isAround, -, isChild⟩ := forest.outer isInner isParents
          obtain rfl : site.expansion = id := (cons.inj (cons.inj line).2).1
          cases found.symm.trans isAround
          exact mem_children.mpr ⟨site.block, isChild⟩
      · rw [isLine]
        simp
  · rintro (rfl | ⟨child, isChild, within⟩)
    · exact within_self found
    · obtain ⟨block, isChild⟩ := mem_children.mp isChild
      obtain ⟨inner, isInner⟩ := forest.within_live within
      refine forest.within_trans ⟨inner, isInner, ?_⟩ within
      rw [forest.line_child found isChild isInner]
      exact mem_cons_of_mem _ mem_cons_self

lemma within_child (isChild : child ∈ e.children) (within : g.Within child x) : g.Within id x :=
  (forest.within_iff found).mpr (.inr ⟨child, isChild, within⟩)

lemma child_unique (isChild : child ∈ e.children)
    (isOther : other ∈ e.children) (within : g.Within child x) (within' : g.Within other x) :
    child = other := by
  have line : ∀ {child}, child ∈ e.children → g.Within child x → ∃ e', g.expansion? x = some e' ∧
      child :: e.line id <:+ e'.line x := by
    rintro child isChild ⟨e', found', mem⟩
    obtain ⟨block, isChild⟩ := mem_children.mp isChild
    obtain ⟨inner, isInner, suffix⟩ := forest.live_of_mem found' mem
    exact ⟨e', found', forest.line_child found isChild isInner ▸ suffix⟩
  obtain ⟨e', found', suffix⟩ := line isChild within
  obtain ⟨e'', found'', suffix'⟩ := line isOther within'
  cases found'.symm.trans found''
  have eq := (suffix_of_suffix_length_le suffix suffix' (by simp)).eq_of_length (by simp)
  exact (cons.inj eq).1

lemma not_within_child (isChild : child ∈ e.children) : ¬g.Within child id := by
  rintro ⟨e', found', mem⟩
  cases found.symm.trans found'
  obtain ⟨block, isChild⟩ := mem_children.mp isChild
  obtain ⟨inner, isInner, suffix⟩ := forest.live_of_mem found mem
  have shorter := suffix.length_le
  rw [forest.line_child found isChild isInner, length_cons] at shorter
  omega

end Forest

/-! ## Taking nodes out -/

/-- Nodes are taken out; the others stay with the expansions that they were made for. -/
structure Drops (Gone : Handle → Prop) (a b : Graph) : Prop where
  wellFormed : a.nodes.WellFormed → b.nodes.WellFormed
  issued : ∀ {id}, a.nodes.Issued id → b.nodes.Issued id
  expansions : b.expansions = a.expansions
  gone : ∀ {id}, Gone id → b.node? id = none
  earlier : ∀ {id n'}, b.node? id = some n' → ∃ n, a.node? id = some n ∧ n'.owner = n.owner
  later : ∀ {id n}, a.node? id = some n → ¬Gone id → ∃ n', b.node? id = some n' ∧ n'.owner = n.owner

namespace Drops

variable {Gone Gone' : Handle → Prop}

lemma congr (drops : Drops Gone a b) (same : ∀ id, Gone' id ↔ Gone id) : Drops Gone' a b :=
  { drops with
    gone := fun gone => drops.gone ((same _).mp gone)
    later := fun found stays => drops.later found fun gone => stays ((same _).mpr gone) }

lemma of_owners (owners : SameOwners a b) (expansions : b.expansions = a.expansions) :
    Drops (fun _ => False) a b :=
  ⟨owners.wellFormed, owners.issued, expansions, fun gone => gone.elim, owners.earlier,
    fun found _ => owners.later found⟩

lemma trans (first : Drops Gone a b) (second : Drops Gone' b c) :
    Drops (fun id => Gone id ∨ Gone' id) a c where
  wellFormed wf := second.wellFormed (first.wellFormed wf)
  issued issued := second.issued (first.issued issued)
  expansions := second.expansions.trans first.expansions
  gone {id} gone := by
    rw [Option.eq_none_iff_forall_ne_some]
    intro n found
    obtain ⟨n', found', -⟩ := second.earlier found
    rcases gone with gone | gone
    · cases (first.gone gone).symm.trans found'
    · cases (second.gone gone).symm.trans found
  earlier found := by
    obtain ⟨n', found', eq'⟩ := second.earlier found
    obtain ⟨n, was, eq⟩ := first.earlier found'
    exact ⟨n, was, eq'.trans eq⟩
  later found stays := by
    obtain ⟨n', found', eq⟩ := first.later found fun gone => stays (.inl gone)
    obtain ⟨n'', found'', eq'⟩ := second.later found' fun gone => stays (.inr gone)
    exact ⟨n'', found'', eq'.trans eq⟩

end Drops

lemma unlink_drops (g : Graph) (id : Handle) : Drops (· = id) g (g.unlink id) := by
  cases live : g.node? id with
  | none =>
    rw [Graph.unlink, live]
    refine ⟨fun wf => wf, fun issued => issued, rfl, ?_, fun {_ n} found => ⟨n, found, rfl⟩,
      fun {_ n} found _ => ⟨n, found, rfl⟩⟩
    rintro _ rfl
    exact live
  | some n =>
    have detached := keeps_detachInputs g id n.inputs
    have redirected := keeps_redirect (g.detachInputs id n.inputs) id n.consumers (replacement? n)
    have owners := (detached.trans redirected).sameOwners
    rw [unlink_eq live]
    refine ⟨fun wf => (owners.wellFormed wf).free id, fun issued => (owners.issued issued).free id,
      ((NodeEdit.detachInputs g id n.inputs).trans (.redirect _ _ _ _)).expansions, ?_, ?_, ?_⟩
    · rintro _ rfl
      rw [node?_without, if_pos rfl]
    · intro other n' found
      rw [node?_without] at found
      split at found
      · cases found
      · exact owners.earlier found
    · intro other before was stays
      obtain ⟨n', found, eq⟩ := owners.later was
      exact ⟨n', by rw [node?_without, if_neg stays, found], eq⟩

lemma unlinkAll_drops (g : Graph) (ids : List Handle) : Drops (· ∈ ids) g (g.unlinkAll ids) := by
  induction ids generalizing g with
  | nil => exact .congr (.of_owners (Keeps.refl g).sameOwners rfl) fun id => by simp
  | cons id ids ih => exact ((unlink_drops g id).trans (ih _)).congr fun _ => mem_cons

lemma Forest.drops (forest : a.Forest Known) (drops : Drops Gone a b) : b.Forest Known :=
  forest.of_nodes (drops.wellFormed forest.nodes) drops.issued drops.expansions drops.earlier

/-! ## Tearing down -/

/-- The expansions `Out` are freed, and the nodes that were made for the expansions `Emptied`; the
other expansions change as `change` tells. -/
structure Clears (change : Handle → Expansion → Expansion) (Out Emptied : Handle → Prop)
    (a b : Graph) : Prop
    extends Leaves change Out a b where
  nodes : b.nodes.WellFormed
  nodeIssued : ∀ {id}, a.nodes.Issued id → b.nodes.Issued id
  earlier : ∀ {id n'}, b.node? id = some n' → ∃ n, a.node? id = some n ∧ n'.owner = n.owner ∧
    ∀ owner, n.owner = some owner → ¬Emptied owner
  later : ∀ {id n}, a.node? id = some n → (∀ owner, n.owner = some owner → ¬Emptied owner) →
    ∃ n', b.node? id = some n' ∧ n'.owner = n.owner

namespace Clears

variable {change : Handle → Expansion → Expansion}
  {Out Emptied Out' Emptied' Gone : Handle → Prop} {g : Graph}

lemma congr (clears : Clears change Out Emptied a b) (out : ∀ id, Out' id ↔ Out id)
    (emptied : ∀ id, Emptied' id ↔ Emptied id) : Clears change Out' Emptied' a b := by
  have eq : Out' = Out := funext fun id => propext (out id)
  have eq' : Emptied' = Emptied := funext fun id => propext (emptied id)
  rw [eq, eq']
  exact clears

lemma refl (nodes : a.nodes.WellFormed) (expansions : a.expansions.WellFormed) :
    Clears (fun _ e => e) (fun _ => False) (fun _ => False) a a :=
  ⟨.of_expansions expansions rfl, nodes, fun issued => issued, fun {_ n} found =>
    ⟨n, found, rfl, fun _ _ => not_false⟩,
    fun {_ n} found _ => ⟨n, found, rfl⟩⟩

lemma free (clears : Clears change Out Emptied a g) (id : Handle) :
    Clears change (fun x => Out x ∨ x = id) Emptied a
      { g with expansions := g.expansions.free id } := by
  have freed : ∀ x, Graph.expansion? { g with expansions := g.expansions.free id } x =
      if x = id then none else g.expansion? x := Arena.get?_free g.expansions id
  refine { clears with
    expansions := clears.expansions.free id
    issued := fun issued => (clears.issued issued).free id
    gone := fun {x} out => ?_
    kept := fun {x} stays => ?_ }
  · rw [freed]
    split
    · rfl
    next differs => exact clears.gone (out.resolve_right differs)
  · rw [freed, if_neg fun eq => stays (.inr eq)]
    exact clears.kept fun out => stays (.inl out)

lemma drop (clears : Clears change Out Emptied a g) (drops : Drops Gone g b) (id : Handle)
    (own : ∀ {n node}, a.node? n = some node → (Gone n ↔ node.owner = some id)) :
    Clears change Out (fun x => Emptied x ∨ x = id) a b where
  nodes := drops.wellFormed clears.nodes
  nodeIssued issued := drops.issued (clears.nodeIssued issued)
  expansions := drops.expansions ▸ clears.expansions
  issued issued := drops.expansions ▸ clears.issued issued
  gone out := (expansion?_of_expansions drops.expansions _).trans (clears.gone out)
  kept stays := (expansion?_of_expansions drops.expansions _).trans (clears.kept stays)
  earlier {n node''} found := by
    obtain ⟨node', found', eq'⟩ := drops.earlier found
    obtain ⟨node, was, eq, unemptied⟩ := clears.earlier found'
    refine ⟨node, was, eq'.trans eq, fun owner isOwner emptied => ?_⟩
    rcases emptied with emptied | rfl
    · exact unemptied owner isOwner emptied
    · cases (drops.gone ((own was).mpr isOwner)).symm.trans found
  later {n node} was unemptied := by
    obtain ⟨node', found', eq⟩ :=
      clears.later was fun owner isOwner emptied => unemptied owner isOwner (.inl emptied)
    obtain ⟨node'', found'', eq'⟩ :=
      drops.later found' fun gone => unemptied id ((own was).mp gone) (.inr rfl)
    exact ⟨node'', found'', eq'.trans eq⟩

end Clears

/-- All or nothing of what is nested in an expansion is gone. -/
def Whole (g : Graph) (Out Emptied : Handle → Prop) (id : Handle) : Prop :=
  (∀ x, g.Within id x → Out x ∧ Emptied x) ∨ ∀ x, g.Within id x → ¬Out x

namespace Forest

variable {change : Handle → Expansion → Expansion} {Out Emptied Base Bare : Handle → Prop}
  {g : Graph}

section

variable (forest : a.Forest Known)
include forest

/-- One expansion after another is cleared: they share nothing, so each is met whole. -/
lemma foldl_clears (found : a.expansion? id = some e) (clears : Clears change Base Bare a g)
    (tear : Graph → Handle → Graph)
    (apart : ∀ x, (∃ child ∈ e.children, a.Within child x) → ¬Base x)
    (each : ∀ {g Out Emptied}, ∀ child ∈ e.children, Clears change Out Emptied a g →
      a.Whole Out Emptied child →
      Clears change (fun x => Out x ∨ a.Within child x) (fun x => Emptied x ∨ a.Within child x) a
        (tear g child)) :
    Clears change (fun x => Base x ∨ ∃ child ∈ e.children, a.Within child x)
      (fun x => Bare x ∨ ∃ child ∈ e.children, a.Within child x) a (e.children.foldl tear g) := by
  have onwards : ∀ (todo done : List Handle), done ++ todo = e.children → ∀ {g},
      Clears change (fun x => Base x ∨ ∃ child ∈ done, a.Within child x)
        (fun x => Bare x ∨ ∃ child ∈ done, a.Within child x) a g →
      Clears change (fun x => Base x ∨ ∃ child ∈ e.children, a.Within child x)
        (fun x => Bare x ∨ ∃ child ∈ e.children, a.Within child x) a (todo.foldl tear g) := by
    intro todo
    induction todo with
    | nil =>
      intro done isAll g clears
      rw [append_nil] at isAll
      rw [← isAll]
      exact clears
    | cons child todo ih =>
      intro done isAll g clears
      have isChild : child ∈ e.children := by rw [← isAll]; simp
      have isDone : ∀ other ∈ done, other ∈ e.children := fun other mem => by
        rw [← isAll]; simp [mem]
      have whole : a.Whole (fun x => Base x ∨ ∃ child ∈ done, a.Within child x)
          (fun x => Bare x ∨ ∃ child ∈ done, a.Within child x) child := by
        by_cases repeated : child ∈ done
        · exact .inl fun x within =>
            ⟨.inr ⟨child, repeated, within⟩, .inr ⟨child, repeated, within⟩⟩
        · refine .inr fun x within => ?_
          rintro (base | ⟨other, mem, within'⟩)
          · exact apart x ⟨child, isChild, within⟩ base
          · have eq := forest.child_unique found isChild (isDone other mem) within within'
            exact repeated (eq ▸ mem)
      refine ih (done ++ [child]) (by rw [← isAll]; simp)
        ((each child isChild clears whole).congr ?_ ?_) <;>
      · intro x
        simp only [mem_append, mem_singleton, or_assoc]
        refine or_congr_right ⟨?_, ?_⟩
        · rintro ⟨other, mem | rfl, within⟩
          · exact .inl ⟨other, mem, within⟩
          · exact .inr within
        · rintro (⟨other, mem, within⟩ | within)
          · exact ⟨other, .inl mem, within⟩
          · exact ⟨child, .inr rfl, within⟩
  exact onwards e.children [] rfl (clears.congr (fun x => by simp) fun x => by simp)

/-- What belongs to an expansion is what its list of nodes says. -/
lemma mem_members_iff (found : a.expansion? id = some e) (live : a.node? n = some node) :
    n ∈ e.members.toList ↔ node.owner = some id := by
  rw [Array.mem_toList_iff]
  exact ⟨fun mem => forest.housed.owns found mem (form?_of_node? live),
    fun isOwner => forest.housed.listed (form?_of_node? live) isOwner found⟩

/-- With enough depth, an expansion is torn down with all that is nested in it. -/
lemma teardownTo_clears (depth : Nat) {id : Handle} {Out Emptied : Handle → Prop} {g : Graph}
    (clears : Clears change Out Emptied a g)
    (untouched : ∀ x, a.Within id x → ∀ e, change x e = e) (whole : a.Whole Out Emptied id)
    (deep : (∀ x, a.Within id x → ¬Out x) → ∀ {x e e'}, a.expansion? x = some e →
      a.expansion? id = some e' →
      id ∈ e.line x → (e.line x).length < (e'.line id).length + depth) :
    Clears change (fun x => Out x ∨ a.Within id x) (fun x => Emptied x ∨ a.Within id x) a
      (g.teardownTo depth id) := by
  -- an expansion that is gone already is left alone
  have idle : (∀ x, a.Within id x → Out x ∧ Emptied x) → g.expansion? id = none →
      Clears change (fun x => Out x ∨ a.Within id x) (fun x => Emptied x ∨ a.Within id x) a
        (g.teardownTo depth id) := by
    intro all gone
    have eq : g.teardownTo depth id = g := by
      cases depth with
      | zero => rfl
      | succ depth => rw [teardownTo, gone]
    rw [eq]
    exact clears.congr (fun x => or_iff_left_of_imp fun within => (all x within).1)
      fun x => or_iff_left_of_imp fun within => (all x within).2
  cases live : a.expansion? id with
  | none =>
    have nothing : ∀ x, ¬a.Within id x := by
      intro x within
      obtain ⟨e, found⟩ := forest.within_live within
      cases live.symm.trans found
    refine idle (fun x within => absurd within (nothing x)) ?_
    by_cases out : Out id
    · exact clears.gone out
    · rw [clears.kept out, live, Option.map_none]
  | some e =>
    rcases whole with all | none
    · exact idle all (clears.gone (all id (within_self live)).1)
    have found : g.expansion? id = some e := by
      rw [clears.kept (none id (within_self live)), live, Option.map_some,
        untouched id (within_self live)]
    have positive := deep none live live mem_cons_self
    cases depth with
    | zero => omega
    | succ depth =>
      rw [teardownTo, found]
      have inner : ∀ x, (∃ child ∈ e.children, a.Within child x) → a.Within id x := by
        rintro x ⟨child, isChild, within⟩
        exact forest.within_child live isChild within
      have cleared :=
        forest.foldl_clears live (clears.free id) (teardownTo depth) (fun x inside base => ?_)
        fun child isChild clears whole => ?_
      · refine (cleared.drop (unlinkAll_drops _ _) id (forest.mem_members_iff live)).congr
          (fun x => ?_) fun x => ?_
        · rw [forest.within_iff live, or_assoc]
        · rw [forest.within_iff live, or_assoc, or_comm (a := x = id)]
      · rcases base with out | rfl
        · exact none x (inner x inside) out
        · obtain ⟨child, isChild, within⟩ := inside
          exact forest.not_within_child live isChild within
      · refine teardownTo_clears depth clears
          (fun x within => untouched x (forest.within_child live isChild within))
          whole fun _ {x e' inner} isX isInner mem => ?_
        obtain ⟨block, isBlock⟩ := mem_children.mp isChild
        have bound := deep none isX live (by
          obtain ⟨e'', isX', mem'⟩ := forest.within_child live isChild ⟨e', isX, mem⟩
          cases isX.symm.trans isX'
          exact mem')
        rw [forest.line_child live isBlock isInner, length_cons]
        omega

/-- Tearing an expansion down goes deep enough. -/
lemma teardown_clears (clears : Clears change Out Emptied a g)
    (untouched : ∀ x, a.Within id x → ∀ e, change x e = e)
    (whole : a.Whole Out Emptied id) :
    Clears change (fun x => Out x ∨ a.Within id x) (fun x => Emptied x ∨ a.Within id x) a
      (g.teardown id) := by
  refine forest.teardownTo_clears _ clears untouched whole fun none {x e e'} found found' mem => ?_
  obtain ⟨before, after, isLine⟩ := append_of_mem mem
  obtain ⟨e₁, live₁, line⟩ := forest.line_of_suffix found ⟨before, isLine.symm⟩
  cases found'.symm.trans live₁
  -- what comes before it in the line is nested in it, so it is still there
  have live : ∀ other ∈ before, g.expansions.contains other := by
    intro other isBefore
    obtain ⟨first, last, rfl⟩ := append_of_mem isBefore
    obtain ⟨e₂, live₂, line₂⟩ :=
      forest.line_of_suffix found ⟨first, by rw [isLine, append_assoc]; rfl⟩
    have within : a.Within id other := ⟨e₂, live₂, by rw [line₂]; simp⟩
    refine Arena.contains_iff.mpr ⟨e₂, (clears.kept (none other within)).trans ?_⟩
    rw [live₂, Option.map_some, untouched other within]
  have once : before.Nodup := (nodup_append.mp (isLine ▸ forest.line_nodup found)).1
  have bound := clears.expansions.length_le once live
  rw [line, isLine, length_append]
  omega

lemma teardownAll_clears (found : a.expansion? id = some e) :
    Clears (fun _ e => e) (fun x => ∃ child ∈ e.children, a.Within child x)
      (fun x => ∃ child ∈ e.children, a.Within child x) a (a.teardownAll e.children) := by
  refine (forest.foldl_clears found (.refl forest.nodes forest.expansions) teardown
    (fun _ _ base => base)
    fun child _ clears whole => forest.teardown_clears clears (fun _ _ _ => rfl) whole).congr
    (fun x => by simp) fun x => by simp

/-- What is left of a forest is one. -/
lemma clears (clears : Clears change Out Out a b) (housed : b.Housed)
    (remains : ∀ {x e}, a.expansion? x = some e → ¬Out x → a.Remains Out e (change x e))
    (closed : ∀ {x e site rest}, a.expansion? x = some e → e.parents = site :: rest →
      Out site.expansion → Out x) :
    b.Forest Known := by
  refine forest.remain clears.toLeaves clears.nodes housed (fun found isOwner => ?_) remains closed
  obtain ⟨n, was, eq, unemptied⟩ := clears.earlier found
  rw [eq] at isOwner
  exact ⟨forest.owned was isOwner, unemptied _ isOwner⟩

end

end Forest

namespace Clears

variable {change : Handle → Expansion → Expansion} {Out Emptied : Handle → Prop}

lemma modify (nodes : a.nodes.WellFormed) (expansions : a.expansions.WellFormed) (id : Handle)
    (f : Expansion → Expansion) :
    Clears (fun x => if x = id then f else fun e => e) (fun _ => False) (fun _ => False) a
      (a.modifyExpansion id f) :=
  ⟨.modify expansions rfl, nodes, fun issued => issued, fun {_ n} found =>
    ⟨n, found, rfl, fun _ _ => not_false⟩,
    fun {_ n} found _ => ⟨n, found, rfl⟩⟩

lemma housed (clears : Clears change Out Emptied a b) (housed : a.Housed)
    (members : ∀ {x e}, a.expansion? x = some e → ¬Out x → (change x e).members = e.members) :
    b.Housed := by
  refine housed.of_earlier (fun found => ?_) (fun {x e'} found => ?_) clears.nodeIssued
  · obtain ⟨n, live, eq, -⟩ := clears.earlier found
    exact ⟨n, live, eq⟩
  · obtain ⟨stays, e, live, rfl⟩ := clears.was found
    exact ⟨e, live, members live stays⟩

end Clears

end Blockflow.Graph
