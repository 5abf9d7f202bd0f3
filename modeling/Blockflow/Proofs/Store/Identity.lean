import Blockflow.Proofs.Literal.Agreement
import Blockflow.Proofs.Native.Purity

/-!
# What handles and buffers stand for

Types are compared by their handles, and pointers that alias their contents by their buffers. That
this takes no two different values for the same rests on how they come about: a handle is given to
one type, and a buffer is filled once. A heap says what handles and buffers stand for; a computation
is tidy if all that it makes out of a heap is in a larger heap. All literals and all built-in
natives are tidy.
-/

namespace Blockflow

open List Option Effect Store Value TypeTable

/-- What the buffers and the handles stand for that are in use. -/
structure Heap where
  buffers : Nat → Option (List Value)
  types : Nat → Option Ty
  closed : ∀ {id ty}, types id = some ty → ∀ part ∈ ty.shape.parts, types part.id = some part

namespace Heap

variable {heap later last : Heap} {store store' : Store}

/-- The later heap has all that the earlier one has. -/
structure Within (heap later : Heap) : Prop where
  buffers : ∀ {buffer elements}, heap.buffers buffer = some elements →
    later.buffers buffer = some elements
  types : ∀ {id ty}, heap.types id = some ty → later.types id = some ty

/-- The heap has all types of the store, and neither new buffers nor new handles are in use. -/
structure Fits (heap : Heap) (store : Store) : Prop where
  buffers : ∀ {buffer elements}, heap.buffers buffer = some elements → buffer < store.nextBuffer
  types : ∀ {id ty}, heap.types id = some ty → id < store.types.nextId
  primitives : ∀ p, heap.types (store.types.primitive p).id = some (store.types.primitive p)
  interned : ∀ {key ty}, store.types.interned.lookup key = some ty → heap.types ty.id = some ty

/-- The store can be reached from the heap. -/
def Leaves (heap : Heap) (store : Store) : Prop := ∃ later, heap.Within later ∧ later.Fits store

lemma Within.refl (heap : Heap) : heap.Within heap := ⟨fun found => found, fun found => found⟩

lemma Within.trans (first : heap.Within later) (second : later.Within last) : heap.Within last :=
  ⟨fun found => second.buffers (first.buffers found), fun found => second.types (first.types found)⟩

lemma Fits.leaves (fits : heap.Fits store) : heap.Leaves store := ⟨heap, .refl _, fits⟩

lemma Leaves.earlier (leaves : later.Leaves store) (more : heap.Within later) :
    heap.Leaves store := by
  obtain ⟨last, more', fits⟩ := leaves
  exact ⟨last, more.trans more', fits⟩

lemma Fits.mono (fits : heap.Fits store) (types : store'.types = store.types)
    (more : store.nextBuffer ≤ store'.nextBuffer) : heap.Fits store' where
  buffers found := Nat.lt_of_lt_of_le (fits.buffers found) more
  types found := types ▸ fits.types found
  primitives p := types ▸ fits.primitives p
  interned found := fits.interned (types ▸ found)

def fill (heap : Heap) (buffer : Nat) (elements : List Value) : Heap :=
  { heap with buffers := fun other => if other = buffer then some elements else heap.buffers other }

lemma Fits.within_fill (fits : heap.Fits store) (elements : List Value) :
    heap.Within (heap.fill store.nextBuffer elements) where
  buffers {buffer held} found := by
    refine (if_neg ?_).trans found
    rintro rfl
    exact Nat.lt_irrefl _ (fits.buffers found)
  types found := found

lemma Fits.fill (fits : heap.Fits store) (elements : List Value)
    (types : store'.types = store.types)
    (more : store.nextBuffer < store'.nextBuffer) :
    (heap.fill store.nextBuffer elements).Fits store' := by
  refine { fits.mono types (Nat.le_of_lt more) with buffers := fun {buffer held} found => ?_ }
  have found : (if buffer = store.nextBuffer then some elements else heap.buffers buffer) =
      some held := found
  split at found
  next eq => exact eq ▸ more
  next => exact Nat.lt_trans (fits.buffers found) more

/-- The heap knows the type. -/
def Knows (heap : Heap) (ty : Ty) : Prop := heap.types ty.id = some ty

def name (heap : Heap) (ty : Ty) (new : heap.types ty.id = none)
    (parts : ∀ part ∈ ty.shape.parts, heap.Knows part) :
    Heap :=
  { heap with
    types := fun id => if id = ty.id then some ty else heap.types id
    closed := by
      have kept : ∀ {part : Ty}, heap.Knows part →
          (if part.id = ty.id then some ty else heap.types part.id) = some part := by
        intro part known
        rw [if_neg]
        · exact known
        · intro eq
          rw [Knows, eq, new] at known
          cases known
      intro id other found part mem
      split at found
      · cases found
        exact kept (parts part mem)
      · exact kept (heap.closed found part mem) }

end Heap

namespace Value

mutual

/-- The heap knows all types in the value, and the buffers of all aliasing pointers hold what they
show. -/
def In (heap : Heap) : Value → Prop
  | ⟨ty, elements, _, _, buffer⟩ =>
    heap.Knows ty ∧ (ty.isShared → heap.buffers buffer = some elements) ∧ AllIn heap elements

def AllIn (heap : Heap) : List Value → Prop
  | [] => True
  | v :: vs => v.In heap ∧ AllIn heap vs

end

variable {heap later : Heap}

lemma allIn_iff {vs : List Value} : AllIn heap vs ↔ ∀ v ∈ vs, v.In heap := by
  induction vs with
  | nil => simp [AllIn]
  | cons v vs ih => rw [AllIn, ih, forall_mem_cons]

lemma in_iff {v : Value} : v.In heap ↔ heap.Knows v.ty ∧
    (v.ty.isShared → heap.buffers v.buffer = some v.elements) ∧ AllIn heap v.elements := by
  cases v
  rw [In]

mutual

lemma In.mono (more : heap.Within later) {v : Value} (holds : v.In heap) : v.In later := by
  match v with
  | ⟨_, elements, _, _, _⟩ =>
    exact ⟨more.types holds.1, fun isShared => more.buffers (holds.2.1 isShared),
      AllIn.mono more holds.2.2⟩

lemma AllIn.mono (more : heap.Within later) {vs : List Value} (holds : AllIn heap vs) :
    AllIn later vs := by
  match vs with
  | [] => trivial
  | v :: vs => exact ⟨In.mono more holds.1, AllIn.mono more holds.2⟩

end

mutual

/-- Values of one heap that are the same differ at most in their buffers. -/
lemma In.alike {a b : Value} (holds : a.In heap) (holds' : b.In heap) (equal : same a b) :
    a.Alike b := by
  match a, b with
  | ⟨ty, elements, data, scalar, buffer⟩, ⟨ty', elements', data', scalar', buffer'⟩ =>
    rw [same] at equal
    simp only [Bool.and_eq_true, beq_iff_eq] at equal
    obtain ⟨⟨⟨sameId, rfl⟩, rfl⟩, rest⟩ := equal
    obtain rfl : ty = ty' := by
      have isSame : ty.id = ty'.id := beq_iff_eq.mp sameId
      have known : heap.types ty'.id = some ty := isSame ▸ holds.1
      exact some.inj (known.symm.trans holds'.1)
    have alike : AllAlike elements elements' := by
      by_cases isShared : ty.isShared
      · rw [if_pos isShared, beq_iff_eq] at rest
        subst rest
        have held := (holds.2.1 isShared).symm.trans (holds'.2.1 isShared)
        rw [some.inj held]
        rfl
      · rw [if_neg isShared] at rest
        exact AllIn.alike holds.2.2 holds'.2.2 rest
    rw [Alike, bare, bare, bareAll_eq, bareAll_eq,
      show elements.map bare = elements'.map bare from alike]

lemma AllIn.alike {as bs : List Value} (holds : AllIn heap as) (holds' : AllIn heap bs)
    (equal : sameElements as bs) : AllAlike as bs := by
  match as, bs with
  | [], [] => rfl
  | [], _ :: _ => simp [sameElements] at equal
  | _ :: _, [] => simp [sameElements] at equal
  | a :: as, b :: bs =>
    rw [sameElements, Bool.and_eq_true] at equal
    exact .cons (In.alike holds.1 holds'.1 equal.1) (AllIn.alike holds.2 holds'.2 equal.2)

end

lemma In.element {v element : Value} (holds : v.In heap) (found : v.element i = .ok element) :
    element.In heap := by
  rw [Value.element] at found
  split at found
  next isElement =>
    cases found
    exact allIn_iff.mp (in_iff.mp holds).2.2 _ (mem_of_getElem? isElement)
  next => split at found <;> cases found

end Value

namespace Store

variable {α β : Type} {Holds Holds' : Heap → α → Prop} {heap later : Heap}

open Value (In AllIn)

/-- A computation makes all that it makes out of a heap, of new buffers and of new handles. -/
def Tidy (heap : Heap) (Holds : Heap → α → Prop) (action : Action α) : Prop :=
  ∀ current s, heap.Within current → current.Fits s → action.Ends s
    (fun a t => ∃ later, current.Within later ∧ later.Fits t ∧ Holds later a) fun _ t =>
    current.Leaves t

/-- A computation that makes a value. -/
abbrev MakesTidy (heap : Heap) (action : Action Value) :
    Prop := Tidy heap (fun heap v => v.In heap) action

namespace Tidy

variable {action : Action α}

lemma pure {a : α} (holds : ∀ later, heap.Within later → Holds later a) :
    Tidy heap Holds (Pure.pure a : Action α) :=
  fun current _ more fits => ⟨current, Heap.Within.refl _, fits, holds current more⟩

lemma fail (d : Diagnostic) : Tidy heap Holds (fail d : Action α) := fun _ _ _ fits => fits.leaves

lemma bind {next : α → Action β} {Holds' : Heap → β → Prop}
    (first : Tidy heap Holds action)
    (rest : ∀ a later, heap.Within later → Holds later a → Tidy later Holds' (next a)) :
    Tidy heap Holds' (action >>= next) := by
  intro current s more fits
  refine .bind ((first current s more fits).post fun a t ⟨between, more', fits', holds⟩ => ?_)
  refine (rest a between (more.trans more') holds between t (.refl _) fits').imp ?_
    fun _ _ leaves =>
    leaves.earlier more'
  rintro b u ⟨last, more'', fits'', holds'⟩
  exact ⟨last, more'.trans more'', fits'', holds'⟩

lemma after (result : Except Diagnostic β) {next : β → Action α}
    (rest : ∀ b, Tidy heap Holds (next b)) :
    Tidy heap Holds (ofExcept result >>= next) := by
  cases result with
  | ok b => exact rest b
  | error d => exact fail d

lemma imp (tidy : Tidy heap Holds action)
    (weaker : ∀ later a, heap.Within later → Holds later a → Holds' later a) :
    Tidy heap Holds' action :=
  fun current s more fits => (tidy current s more fits).imp
    (fun a _ ⟨last, more', fits', holds⟩ =>
      ⟨last, more', fits', weaker last a (more.trans more') holds⟩)
    fun _ _ leaves => leaves

lemma mapFailure {f : Diagnostic → Diagnostic} (tidy : Tidy heap Holds action) :
    Tidy heap Holds (action.mapFailure f) :=
  fun current s more fits => .mapFailure (tidy current s more fits)

lemma mapM {f : β → Action α}
    (monotone : ∀ {heap later a}, heap.Within later → Holds heap a → Holds later a)
    (tidy : ∀ b later, Tidy later Holds (f b)) (items : List β) :
    Tidy heap (fun heap made => ∀ a ∈ made, Holds heap a) (items.mapM f) := by
  induction items generalizing heap with
  | nil => exact pure fun _ _ _ mem => absurd mem not_mem_nil
  | cons item items ih =>
    rw [mapM_cons]
    refine bind (tidy item heap) fun a between _ holds => bind ih fun made last more holds' => ?_
    refine pure fun final more' => ?_
    rw [forall_mem_cons]
    exact ⟨monotone (more.trans more') holds, fun a mem => monotone more' (holds' a mem)⟩

lemma ofParts {ty : Ty} (known : heap.Knows ty) (scalar : UInt64) (data : List UInt8)
    {elements : List Value}
    (holds : AllIn heap elements) : MakesTidy heap (ofState (ofParts ty scalar data elements)) := by
  intro current s more fits
  have more' := fits.within_fill elements
  refine ⟨current.fill s.nextBuffer elements, more', fits.fill elements rfl (Nat.lt_succ_self _),
    ?_⟩
  exact ⟨(more.trans more').types known, fun _ => if_pos rfl, holds.mono (more.trans more')⟩

lemma intern (shape : Shape Ty) (parts : ∀ part ∈ shape.parts, heap.Knows part) :
    Tidy heap Heap.Knows (ofState (withTypes (·.intern shape))) := by
  intro current s more fits
  show ∃ later, current.Within later ∧ later.Fits { s with types := (s.types.intern shape).2 } ∧
    later.Knows (s.types.intern shape).1
  rw [intern.eq_def]
  split
  next p => exact ⟨current, .refl _, fits, fits.primitives p⟩
  next =>
    dsimp only
    split
    next known => exact ⟨current, .refl _, fits, fits.interned known⟩
    next missing =>
      have fresh : current.types s.types.nextId = none := by
        rw [eq_none_iff_forall_ne_some]
        exact fun ty found => Nat.lt_irrefl _ (fits.types found)
      have more' : ∀ {id ty new}, current.types id = some ty →
          (if id = s.types.nextId then some new else current.types id) = some ty := by
        intro id ty new found
        refine (if_neg ?_).trans found
        rintro rfl
        cases fresh.symm.trans found
      refine ⟨current.name ⟨s.types.nextId, shape, _, _, _⟩ fresh fun part mem =>
        more.types (parts part mem),
        ⟨fun found => found, more'⟩,
        ⟨fits.buffers, fun {id ty} found => ?_, fun p => more' (fits.primitives p),
          fun {key ty} found => ?_⟩, if_pos rfl⟩
      · have found : (if id = s.types.nextId then some _ else current.types id) = some ty := found
        split at found
        next eq => exact eq ▸ Nat.lt_succ_self _
        next => exact Nat.lt_succ_of_lt (fits.types found)
      · rcases lookup_cons_cases found with ⟨-, rfl⟩ | known
        · exact if_pos rfl
        · exact more' (fits.interned known)

/-- A heap knows all types that literals denote in its store. -/
def layering : Layering Heap where
  Later := Heap.Within
  Judges heap Holds action := Tidy heap Holds action
  Good := Heap.Knows
  Raw := Heap.Knows
  trans := .trans
  mono known more := more.types known
  pure := pure
  fail _ := fail _
  bind := bind
  mapFailure _ := mapFailure
  intern shape _ := intern shape
  plain shape _ _ := intern shape
  checked known _ := known

lemma primitive (p : Primitive) : Tidy heap Heap.Knows (ofState (primitive p)) :=
  layering.primitive p

end Tidy

lemma ofState_bind (first : StateM Store α) (next : α → StateM Store β) :
    ofState (first >>= next) = ofState first >>= fun a => ofState (next a) := rfl

lemma scalar_tidy (p : Primitive) (word : UInt64) :
    MakesTidy heap (ofState (do scalar (← primitive p) word)) := by
  rw [ofState_bind]
  exact .bind (.primitive p) fun _ _ _ known => .ofParts known _ _ trivial

lemma int_tidy (n : Int) : MakesTidy heap (ofState (int n)) := scalar_tidy .i64 _

lemma float_tidy (word : UInt64) : MakesTidy heap (ofState (float word)) := scalar_tidy .f64 _

lemma bool_tidy (b : Bool) : MakesTidy heap (ofState (bool b)) := scalar_tidy .bool _

lemma textType_tidy : Tidy heap Heap.Knows (ofState (withTypes (·.text))) := Tidy.layering.text

lemma text_tidy (content : String) : MakesTidy heap (ofState (text content)) := by
  rw [text, ofState_bind]
  exact .bind textType_tidy fun _ _ _ known => .ofParts known _ _ trivial

lemma number_tidy (name : String) :
    Tidy heap (fun _ _ => True) (ofState (withTypes (·.label name))) := by
  intro current s more fits
  have same : (s.types.label name).2.nextId = s.types.nextId ∧ (s.types.label name).2.base =
      s.types.base ∧
      (s.types.label name).2.interned = s.types.interned := by
    rw [TypeTable.label]
    split <;> exact ⟨rfl, rfl, rfl⟩
  refine ⟨current, Heap.Within.refl _,
    ⟨fits.buffers, fun found => ?_, fun p => ?_, fun {key ty} found => ?_⟩, trivial⟩
  · exact Nat.lt_of_lt_of_eq (fits.types found) same.1.symm
  · have isSame : (s.types.label name).2.primitive p = s.types.primitive p := by
      rw [TypeTable.primitive, TypeTable.primitive, same.2.1]
    show current.types ((s.types.label name).2.primitive p).id =
      some ((s.types.label name).2.primitive p)
    rw [isSame]
    exact fits.primitives p
  · have found : (s.types.label name).2.interned.lookup key = some ty := found
    rw [same.2.2] at found
    exact fits.interned found

lemma label_tidy (name : String) : MakesTidy heap (ofState (label name)) := by
  rw [label, ofState_bind]
  refine .bind (number_tidy name) fun id later _ _ => ?_
  rw [ofState_bind]
  exact .bind (.primitive .label) fun _ _ _ known => .ofParts known _ _ trivial

lemma pack_tidy {vs : List Value} (holds : AllIn heap vs) : MakesTidy heap (ofState (pack vs)) := by
  rw [pack]
  refine .bind (Tidy.intern (.struct (vs.map ty) none) fun part mem => ?_)
    fun ty later more known =>
    .ofParts known _ _ (holds.mono more)
  obtain ⟨v, among, rfl⟩ := mem_map.mp mem
  exact (in_iff.mp (allIn_iff.mp holds v among)).1

lemma times_tidy {ty : Ty} (known : heap.Knows ty)
    (tidy : ∀ heap : Heap, heap.Knows ty → MakesTidy heap (ofState make)) (count : Nat)
    {made : List Value} (holds : AllIn heap made) :
    Tidy heap (fun heap vs => AllIn heap vs) (ofState (times make made count)) := by
  induction count generalizing heap made with
  | zero => exact .pure fun _ more => holds.mono more
  | succ count ih =>
    rw [times, ofState_bind]
    exact .bind (tidy heap known) fun v later more holds' =>
      ih (more.types known) ⟨holds', holds.mono more⟩

mutual

lemma zero_tidy (ty : Ty) (heap : Heap) (known : heap.Knows ty) :
    MakesTidy heap (ofState (zero ty)) := by
  match ty with
  | ⟨_, .struct fields _, _, _, _⟩ =>
    rw [zero, ofState_bind]
    exact .bind (zeros_tidy fields heap (heap.closed known)) fun _ _ more holds =>
      .ofParts (more.types known) _ _ holds
  | ⟨_, .vector element count _, _, _, _⟩ =>
    rw [zero, ofState_bind]
    have isKnown : heap.Knows element := heap.closed known element (mem_singleton_self _)
    have none : AllIn heap [] := trivial
    refine .bind (times_tidy isKnown (fun heap => zero_tidy element heap) count none)
      fun _ _ more holds =>
      .ofParts (more.types known) _ _ ?_
    rw [allIn_iff] at holds ⊢
    exact fun v mem => holds v (mem_reverse.mp mem)
  | ⟨_, .primitive _, _, _, _⟩ | ⟨_, .pointer _ _, _, _, _⟩ | ⟨_, .function _ _, _, _, _⟩ =>
    exact .ofParts known _ _ trivial

lemma zeros_tidy (tys : List Ty) (heap : Heap) (known : ∀ ty ∈ tys, heap.Knows ty) :
    Tidy heap (fun heap vs => AllIn heap vs) (ofState (zeros tys)) := by
  match tys with
  | [] =>
    exact .pure fun _ _ => trivial
  | ty :: tys =>
    rw [zeros, ofState_bind]
    obtain ⟨first, rest⟩ := forall_mem_cons.mp known
    refine .bind (zero_tidy ty heap first) fun v later more holds => ?_
    exact .bind (zeros_tidy tys later fun ty mem => more.types (rest ty mem))
      fun vs last more' holds' =>
      .pure fun _ more'' => ⟨(holds.mono more').mono more'', holds'.mono more''⟩

end

end Store

/-! ## Literals -/

namespace Literal

open Store (Tidy MakesTidy)

variable {heap : Heap}

variable (tag text : String) (heap : Heap)

lemma parseType_tidy : Tidy heap Heap.Knows (parseType text) :=
  parseType_laid Tidy.layering text heap

lemma parseKind_tidy : MakesTidy heap (parseKind tag text) := by
  rw [parseKind.eq_def]
  split
  · exact .after _ fun n => int_tidy n
  · exact .after _ fun x => float_tidy x.toBits
  · exact .after _ fun b => bool_tidy b
  · exact .after _ fun content => text_tidy content
  · exact .after _ fun name => label_tidy name
  · exact .bind (parseType_tidy text heap) fun ty later _ known => zero_tidy ty later known
  · exact .fail _

lemma tryKinds_tidy (failure : Option Diagnostic) (kinds : List String) (heap : Heap) :
    Tidy heap (fun heap found => ∀ v, found = .ok v → v.In heap)
      (ofState (tryKinds text failure kinds)) := by
  induction kinds generalizing failure with
  | nil => exact .pure fun _ _ _ found => by cases found
  | cons tag rest ih =>
    intro current s more fits
    have first := parseKind_tidy tag text heap current s more fits
    have ran : (ofState (tryKinds text failure (tag :: rest))).run s =
        (.ok (tryKinds text failure (tag :: rest) s).1,
          (tryKinds text failure (tag :: rest) s).2) := rfl
    rw [Ends, ran]
    rw [Ends] at first
    rw [tryKinds_cons]
    rcases outcome : (parseKind tag text).run s with ⟨d | v, t⟩ <;> rw [outcome] at first
    · obtain ⟨between, more', fits'⟩ := first
      obtain ⟨last, more'', fits'', holds⟩ := ih (some d) between t (more.trans more') fits'
      exact ⟨last, more'.trans more'', fits'', holds⟩
    · obtain ⟨later, more', fits', holds⟩ := first
      exact ⟨later, more', fits', fun _ eq => by cases eq; exact holds⟩

lemma parseAuto_tidy : MakesTidy heap (parseAuto text) := by
  rw [parseAuto_eq]
  refine .bind (tryKinds_tidy text none kinds heap) fun found later _ holds => ?_
  cases found with
  | ok v => exact .pure fun _ more => (holds v rfl).mono more
  | error failure => exact .fail _

lemma parse_tidy : MakesTidy heap (parse tag text) := by
  rw [parse]
  split
  · exact parseAuto_tidy text heap
  · exact parseKind_tidy tag text heap

end Literal

/-! ## Natives -/

open Store (Tidy MakesTidy)
open Value (AllIn)

/-- A native makes its results out of its inputs, of values that were known before, and of new
buffers and handles. -/
def Native.Tidy (known : Heap) (native : Native) : Prop :=
  ∀ heap vs, known.Within heap → AllIn heap vs → MakesTidy heap (native.call vs)

/-- A method is called on the operands, or on parts of them. -/
lemma Methods.resolve_in {ms : Methods} {names : List String} {vs args : List Value}
    {native : Native} (holds : AllIn heap vs)
    (resolved : ms.resolve names vs = .ok (native, args)) : AllIn heap args := by
  have deep : ∀ {name rest} (first : Value) {found : Native × List Value}, first.In heap →
      AllIn heap rest →
      ms.lookupFrom name rest first = some found → AllIn heap found.2 := by
    intro name rest first
    fun_induction ms.lookupFrom name rest first with
    | case1 =>
      intro found' holds holds' same
      cases same
      exact ⟨holds, holds'⟩
    | case2 =>
      rename_i ih
      intro found holds holds' same
      exact ih holds.2.2.1 holds' same
    | case3 =>
      intro found' _ _ same
      cases same
  obtain ⟨name, operands, same, known⟩ := lookup_of_resolve resolved
  have holds' : AllIn heap operands := by
    rcases same with rfl | isSwapped
    · exact holds
    · rcases vs with _ | ⟨a, _ | ⟨b, rest⟩⟩ <;> cases isSwapped
      exact ⟨holds.2.1, holds.1, holds.2.2⟩
  cases operands with
  | nil => cases known
  | cons first rest => exact deep first holds'.1 holds'.2 known

namespace Native.Tidy

variable {known : Heap}

lemma mono {native : Native} (tidy : native.Tidy known) (more : known.Within later) :
    native.Tidy later := fun heap vs within => tidy heap vs (more.trans within)

lemma of_body {native : Native} (tidy : ∀ args heap, MakesTidy heap (native.body args)) :
    native.Tidy known :=
  fun heap _ _ _ => (tidy _ heap).mapFailure

end Native.Tidy

namespace Operators

variable {known : Heap}

lemma intOr_tidy (heap : Heap) (result : Option Int) (problem : Problem) :
    MakesTidy heap (match result with
      | some n => ofState (int n)
      | none => .refuse problem) := by
  cases result with
  | some n => exact int_tidy n
  | none => exact .fail _

lemma bothWays_tidy (tidy : ∀ heap a b, MakesTidy heap (ofState (result a b))) :
    ∀ native ∈ bothWays name result, native.Tidy known := by
  rw [bothWays, forall_mem_cons, forall_mem_singleton]
  exact ⟨.of_body fun _ heap => .after _ fun a => .after _ fun b => tidy heap a b,
    .of_body fun _ heap => .after _ fun b => .after _ fun a => tidy heap b a⟩

lemma methods_tidy : ∀ natives ∈ [intMethods, floatMethods, boolMethods, textMethods, labelMethods],
    ∀ native ∈ natives, native.Tidy known := by
  simp only [forall_mem_cons]
  refine ⟨?_, ?_, ?_, ?_, ?_, fun _ mem => absurd mem not_mem_nil⟩ <;> intro native mem
  · simp only [intMethods, mem_append, List.mem_map, mem_singleton] at mem
    rcases mem with (⟨⟨name, apply⟩, -, rfl⟩ | ⟨⟨name, compare⟩, -, rfl⟩) | rfl
    · exact .of_body fun _ heap => .after _ fun a => .after _ fun b => intOr_tidy heap (apply a b) _
    · exact .of_body fun _ _ => .after _ fun a => .after _ fun b => bool_tidy _
    · exact .of_body fun _ heap => .after _ fun a => intOr_tidy heap (checked (-a)) _
  · simp only [floatMethods, mem_append, mem_flatMap, mem_singleton] at mem
    rcases mem with (⟨⟨name, apply⟩, -, among⟩ | ⟨⟨name, compare⟩, -, among⟩) | rfl
    · exact bothWays_tidy (fun _ a b => float_tidy _) native among
    · exact bothWays_tidy (fun _ a b => bool_tidy _) native among
    · exact .of_body fun _ _ => .after _ fun a => float_tidy _
  · simp only [boolMethods, mem_append, List.mem_map, mem_singleton] at mem
    rcases mem with ⟨⟨name, apply⟩, -, rfl⟩ | rfl
    · exact .of_body fun _ _ => .after _ fun a => .after _ fun b => bool_tidy _
    · exact .of_body fun _ _ => .after _ fun a => bool_tidy _
  · simp only [textMethods, mem_cons, List.mem_map] at mem
    rcases mem with rfl | ⟨⟨name, compare⟩, -, rfl⟩
    · exact .of_body fun _ _ => .after _ fun a => .after _ fun b => text_tidy _
    · exact .of_body fun _ _ => .after _ fun a => .after _ fun b => bool_tidy _
  · simp only [labelMethods, List.mem_map] at mem
    obtain ⟨⟨name, wanted⟩, -, rfl⟩ := mem
    exact .of_body fun _ _ => .after _ fun a => .after _ fun b => bool_tidy _

lemma natives_tidy : ∀ native ∈ natives, native.Tidy known := by
  rw [natives, forall_mem_cons, forall_mem_singleton]
  refine ⟨.of_body fun _ _ => .after _ fun v => int_tidy _, .of_body fun args heap => ?_⟩
  have printed : Tidy heap (fun _ _ => True)
      (Effect.ofState (Store.print (" ".intercalate (args.values.map Value.text)))) :=
      fun current s _ fits =>
    ⟨current, Heap.Within.refl _, fits.mono rfl (Nat.le_refl _), trivial⟩
  have none : ∀ heap, AllIn heap [] := fun _ => trivial
  exact .bind printed fun _ later _ _ => pack_tidy (none later)

end Operators

/-! ## The first store -/

/-- The heap of the primitive types. -/
def Heap.primitives : Heap where
  buffers _ := none
  types id := Primitive.all[id]?.map ({} : TypeTable).primitive
  closed found part mem := by
    obtain ⟨p, -, rfl⟩ := map_eq_some_iff.mp found
    cases mem

lemma Heap.primitives_fits : Heap.primitives.Fits {} where
  buffers := nofun
  types found := by
    obtain ⟨p, isPrimitive, -⟩ := map_eq_some_iff.mp found
    exact lt_of_getElem? isPrimitive
  primitives p := by cases p <;> rfl
  interned := nofun

/-- There is a heap for the store in which the methods of built-in types were installed. -/
lemma Operators.exists_heap (ms : Methods) : ∃ heap : Heap, heap.Fits (install ms {}).2 := by
  obtain ⟨later, -, fits, -⟩ := textType_tidy Heap.primitives {} (.refl _) Heap.primitives_fits
  exact ⟨later, fits⟩

end Blockflow
