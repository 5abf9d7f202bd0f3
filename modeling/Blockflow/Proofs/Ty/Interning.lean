import Blockflow.Proofs.Store.Identity

/-!
# Types of a table

A table has at most one type for a shape, and types are known by their handles, so a shape can be
read back from the key that it is stored under. `Store.Lays` is kept by all that asks a table for
types, and says of a type literal that the table has its type.
-/

namespace Blockflow

open Layout List TypeTable

/-- Types as tables make them: layers over such types, with the layout and the cells of their
shapes. -/
inductive Ty.Built : Ty → Prop where
  | layer (id : Nat) {shape : Shape Ty} (fits : shape.Fits)
      (parts : ∀ part ∈ shape.parts, Built part) :
    Built ⟨id, shape, (Layout.layout shape).1, (Layout.layout shape).2, Layout.cells shape⟩

lemma Ty.Built.parts {ty : Ty} (built : ty.Built) : ∀ part ∈ ty.shape.parts, part.Built := by
  cases built with
  | layer _ _ parts => exact parts

lemma TypeTable.vectorFits_iff {count : Nat} {simd : Bool} : vectorFits element count simd ↔
    count ≤ maxVectorLength ∧ saturateCells (element.cells * count) < maxValueCells ∧
      (vectorSize? element count simd).isSome := by
  rw [vectorFits, Bool.and_eq_true, Bool.and_eq_true, decide_eq_true_iff,
    decide_eq_true_iff, and_assoc]

lemma Ty.Built.cells_le {ty : Ty} (built : ty.Built) (plain : ty.shape.Plain) :
    ty.cells ≤ maxValueCells := by
  cases built with
  | @layer id shape fits parts =>
    cases shape with
    | vector element count simd =>
      obtain ⟨-, few, -⟩ := vectorFits_iff.mp fits
      exact Nat.le_trans (Nat.min_le_left _ _) few
    | struct fields names =>
      obtain rfl : fields = [] := plain
      exact Nat.le_of_ble_eq_true rfl
    | primitive | pointer | function => exact Nat.le_of_ble_eq_true rfl

lemma Ty.Built.primitive (table : TypeTable) (p : Primitive) : (table.primitive p).Built :=
  @Built.layer _ (.primitive p) trivial fun _ mem => absurd mem not_mem_nil

namespace TypeTable

variable {table later : TypeTable} {shape : Shape Ty} {ty : Ty}

def find? (table : TypeTable) : Shape Ty → Option Ty
  | .primitive p => some (table.primitive p)
  | shape => table.interned.lookup (shape.map Ty.id)

/-- Keys are the shapes of the types that they lead to, which are built, and no handle is older than
the table. -/
structure Sound (table : TypeTable) : Prop where
  keys : ∀ {key ty}, table.interned.lookup key = some ty →
    key = ty.shape.map Ty.id ∧ table.base ≤ ty.id ∧ ty.Built
  next : table.base ≤ table.nextId

lemma Extends.find? (more : table.Extends later) (found : table.find? shape = some ty) :
    later.find? shape = some ty := by
  cases shape with
  | primitive p => exact (congrArg some (more.primitive_eq p)).trans found
  | _ => exact more.interned found

lemma known_of_find? {heap : Heap} (found : store.types.find? shape = some ty)
    (fits : heap.Fits store) : heap.Knows ty := by
  cases shape with
  | primitive p =>
    cases found
    exact fits.primitives p
  | _ => exact fits.interned found

namespace Sound

lemma key (sound : table.Sound) (found : table.find? shape = some ty) :
    shape.map Ty.id = ty.shape.map Ty.id ∧ table.base ≤ ty.id ∧ ty.Built := by
  cases shape with
  | primitive p =>
    cases found
    exact ⟨rfl, Nat.le_add_right _ _, .primitive table p⟩
  | _ => exact sound.keys found

/-- After a request the table has the type, and the labels that it had. -/
lemma intern (sound : table.Sound) (fits : shape.Fits) (parts : ∀ part ∈ shape.parts, part.Built) :
    (table.intern shape).2.Sound ∧ (table.intern shape).2.find? shape =
      some (table.intern shape).1 ∧
      (table.intern shape).2.labels = table.labels := by
  cases shape with
  | primitive p => exact ⟨sound, rfl, rfl⟩
  | _ =>
    rw [intern]
    · split
      next found => exact ⟨sound, found, rfl⟩
      next =>
        refine ⟨⟨fun {key ty} found => ?_, Nat.le_succ_of_le sound.next⟩, lookup_cons_self, rfl⟩
        rcases lookup_cons_cases found with ⟨eq, rfl⟩ | known
        · exact ⟨eq, sound.next, .layer _ fits parts⟩
        · exact sound.keys known
    all_goals simp

lemma label (sound : table.Sound) (name : String) : (table.label name).2.Sound := by
  rw [TypeTable.label]
  split
  · exact sound
  · exact ⟨sound.keys, sound.next⟩

end Sound

lemma label_facts (nodup : table.labels.Nodup) (name : String) : (table.label name).2.labels.Nodup ∧
    ∀ id other, (table.label name).2.labels[id]? = some other ↔
      table.labels[id]? = some other ∨ id = (table.label name).1 ∧ other = name := by
  rw [label]
  split
  next i found =>
    have isName : table.labels[i]? = some name := by
      obtain ⟨inside, eq, -⟩ := findIdx?_eq_some_iff_getElem.mp found
      rw [getElem?_eq_getElem inside, beq_iff_eq.mp eq]
    refine ⟨nodup, fun id other => ⟨.inl, ?_⟩⟩
    rintro (known | ⟨rfl, rfl⟩)
    · exact known
    · exact isName
  next missing =>
    have new : name ∉ table.labels := idxOf?_eq_none_iff.mp missing
    refine ⟨nodup_append.mpr ⟨nodup, pairwise_singleton _ _, ?_⟩, fun id other => ?_⟩
    · rintro known mem _ isNew rfl
      exact new (mem_singleton.mp isNew ▸ mem)
    · rw [getElem?_append]
      split
      next inside => simp [Nat.ne_of_lt inside]
      next outside =>
        grind

end TypeTable

/-- Layers over known types are told apart by the handles of the types. -/
lemma Heap.shape_eq {heap : Heap} {a b : Shape Ty} (known : ∀ part ∈ a.parts, heap.Knows part)
    (known' : ∀ part ∈ b.parts, heap.Knows part) (eq : a.map Ty.id = b.map Ty.id) : a = b := by
  -- the heap gives the types back
  have back : ∀ {shape : Shape Ty}, (∀ part ∈ shape.parts, heap.Knows part) →
      (shape.map Ty.id).map (fun id => (heap.types id).getD default) = shape := by
    intro shape known
    have one : ∀ part ∈ shape.parts, (heap.types part.id).getD default = part := by
      intro part mem
      rw [show heap.types part.id = some part from known part mem, Option.getD_some]
    have all : ∀ parts ⊆ shape.parts,
        (parts.map Ty.id).map (fun id => (heap.types id).getD default) = parts := by
      intro parts among
      rw [map_map]
      exact (map_congr_left fun part mem => one part (among mem)).trans (map_id _)
    cases shape with
    | primitive p => rfl
    | vector element count simd =>
      exact congrArg (Shape.vector · count simd) (one element mem_cons_self)
    | struct fields names => exact congrArg (Shape.struct · names) (all fields (Subset.refl _))
    | pointer target flags =>
      cases target with
      | none => rfl
      | some target =>
        exact congrArg (fun target => Shape.pointer (some target) flags) (one target mem_cons_self)
    | function result params =>
      exact congrArg₂ Shape.function (one result mem_cons_self) (all params (subset_cons_self _ _))
  rw [← back known, eq, back known']

/-! ## Requests -/

namespace Store

variable {α β : Type} {w later last : Heap × Store} {Holds : Heap × Store → α → Prop}
  {Holds' : Heap × Store → β → Prop}

/-- A table and what is known after requests for types. -/
structure Asked (w later : Heap × Store) : Prop where
  within : w.1.Within later.1
  more : w.2.Extends later.2
  labels : later.2.types.labels = w.2.types.labels
  fits : later.1.Fits later.2
  sound : later.2.types.Sound

lemma Asked.trans (first : Asked w later) (second : Asked later last) : Asked w last :=
  ⟨first.within.trans second.within, first.more.trans second.more, second.labels.trans first.labels,
    second.fits,
    second.sound⟩

def Has (w : Heap × Store) (ty : Ty) : Prop :=
  (w.1.Knows ty ∧ ty.Built) ∧ w.2.types.find? ty.shape = some ty

lemma Asked.has (asked : Asked w later) (has : Has w ty) : Has later ty :=
  has.imp (.imp_left asked.within.types) asked.more.find?

/-- A computation that asks the table for types. -/
def Lays (w : Heap × Store) (Holds : Heap × Store → α → Prop) (action : Action α) : Prop :=
  Asked w w → action.Ends w.2 (fun a t => ∃ heap, Asked w (heap, t) ∧ Holds (heap, t) a) fun _ t =>
    ∃ heap, Asked w (heap, t)

namespace Lays

lemma bind {next : α → Action β} (first : Lays w Holds action)
    (rest : ∀ a later, Asked w later → Holds later a → Lays later Holds' (next a)) :
    Lays w Holds' (action >>= next) := by
  intro start
  refine .bind ((first start).post ?_)
  rintro a t ⟨heap, asked, holds⟩
  refine (rest a (heap, t) asked holds ⟨.refl _, .refl _, rfl, asked.fits, asked.sound⟩).imp ?_ ?_
  · rintro b u ⟨heap', asked', holds'⟩
    exact ⟨heap', asked.trans asked', holds'⟩
  · rintro d u ⟨heap', asked'⟩
    exact ⟨heap', asked.trans asked'⟩

lemma intern {shape : Shape Ty} (fits : shape.Fits)
    (parts : ∀ part ∈ shape.parts, w.1.Knows part ∧ part.Built) :
    Lays w (fun later ty => ty.shape = shape ∧ Has later ty)
      (Effect.ofState (withTypes (·.intern shape))) := by
  intro start
  obtain ⟨heap, within, fit, known⟩ :=
    Tidy.intern shape (fun part mem => (parts part mem).1) w.1 w.2 (.refl _) start.fits
  obtain ⟨sound, found, labels⟩ := start.sound.intern fits fun part mem => (parts part mem).2
  have key := sound.key found
  have isShape :=
    heap.shape_eq (heap.closed known) (fun part mem => within.types (parts part mem).1) key.1.symm
  refine ⟨heap, ⟨within, Extends.intern _ shape, labels, fit, sound⟩, isShape, ⟨known, key.2.2⟩, ?_⟩
  exact (congrArg (TypeTable.find? _) isShape).trans found

/-- The table has all types that literals denote. -/
def layering : Layering (Heap × Store) where
  Later := Asked
  Judges := Lays
  Good w ty := Has w ty ∧ ty.cells ≤ maxValueCells
  Raw := Has
  trans := .trans
  mono good asked := good.imp_left asked.has
  pure holds start := ⟨_, start, holds _ start⟩
  fail _ start := ⟨_, start⟩
  bind := bind
  mapFailure _ lays start := .mapFailure (lays start)
  intern shape fits parts start := by
    refine (intern fits (fun part mem => (parts part mem).1.1) start).post ?_
    rintro ty t ⟨heap, asked, -, has⟩
    exact ⟨heap, asked, has⟩
  plain shape fits plain parts start := by
    refine (intern fits (fun part mem => (parts part mem).1.1) start).post ?_
    rintro ty t ⟨heap, asked, rfl, has⟩
    exact ⟨heap, asked, has, has.1.2.cells_le plain⟩
  checked := And.intro

end Lays

end Store

end Blockflow
