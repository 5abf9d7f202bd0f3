import Blockflow.Proofs.Ty.Handles
import Mathlib.Data.Nat.Log

/-!
# Sizes

`Ty.extent` is the size and alignment of a type over unbounded numbers. A table computes sizes that
stay at the end of their range; they are the exact ones up to that end, and alignments are exact
always, so a part that does not fit does not disturb a type that does.
-/

namespace Blockflow

open Layout List TypeTable

namespace Layout

/-- The next multiple of an alignment. -/
def roundUp (n align : Nat) : Nat := (n + align - 1) / align * align

/-- SIMD vectors fill a power of two. -/
def padded (simd : Bool) (size : Nat) : Nat :=
  if simd && size != 0 then 1 <<< Nat.clog 2 size else size

def vectorExtent (element : Nat × Nat) (count : Nat) (simd : Bool) : Nat × Nat :=
  let size := padded simd (element.1 * count)
  (size, if simd then max size 1 else element.2)

/-- Where fields of these sizes and alignments end that are placed one after another from an offset
on. -/
def stop (offset : Nat) (fields : List (Nat × Nat)) : Nat :=
  fields.foldl (fun offset field => roundUp offset field.2 + field.1) offset

/-- Where each of the fields starts and ends. -/
def spans : Nat → List (Nat × Nat) → List (Nat × Nat)
  | _, [] => []
  | offset, (size, align) :: fields =>
    let start := roundUp offset align
    (start, start + size) :: spans (start + size) fields

/-- The largest alignment. -/
def widest (align : Nat) (fields : List (Nat × Nat)) : Nat :=
  fields.foldl (fun align field => max align field.2) align

def structExtent (fields : List (Nat × Nat)) : Nat × Nat :=
  (roundUp (stop 0 fields) (widest 1 fields), widest 1 fields)

end Layout

mutual

/-- Size and alignment over unbounded numbers. -/
def Ty.extent : Ty → Nat × Nat
  | ⟨_, .primitive p, _, _, _⟩ => (p.size, p.size)
  | ⟨_, .vector element count simd, _, _, _⟩ => vectorExtent element.extent count simd
  | ⟨_, .struct fields _, _, _, _⟩ => structExtent (Ty.extents fields)
  | ⟨_, .pointer _ _, _, _, _⟩ | ⟨_, .function _ _, _, _, _⟩ => (8, 8)

def Ty.extents : List Ty → List (Nat × Nat)
  | [] => []
  | ty :: tys => ty.extent :: Ty.extents tys

end

mutual

/-- How many values an instance has, with itself and all nested ones. -/
def Ty.values : Ty → Nat
  | ⟨_, .struct fields _, _, _, _⟩ => Ty.valuesOf fields + 1
  | ⟨_, .vector element count _, _, _, _⟩ => element.values * count + 1
  | _ => 1

def Ty.valuesOf : List Ty → Nat
  | [] => 0
  | ty :: tys => ty.values + Ty.valuesOf tys

end

lemma Ty.extent_struct {ty : Ty} {names : Option (List String)}
    (isStruct : ty.shape = .struct fields names) :
    ty.extent = structExtent (fields.map Ty.extent) := by
  obtain ⟨_, _, _, _, _⟩ := ty
  cases isStruct
  rw [Ty.extent]
  congr 1
  induction fields with
  | nil => rfl
  | cons field fields ih => rw [Ty.extents, map_cons, ih]

namespace Layout

lemma saturateCells_mul (n count : Nat) :
    saturateCells (saturateCells n * count) = saturateCells (n * count) := by
  rcases Nat.le_total n maxCells with small | large
  · rw [show saturateCells n = n from Nat.min_eq_left small]
  · cases count with
    | zero => rfl
    | succ count =>
      rw [Nat.mul_succ, Nat.mul_succ]
      simp only [saturateCells]
      omega

lemma le_roundUp (n : Nat) (positive : 0 < align) : n ≤ roundUp n align := by
  have below := Nat.lt_div_mul_add positive (a := n + align - 1)
  rw [roundUp]
  omega

/-- Saturation commutes with alignment. -/
lemma alignUp_saturate (n : Nat) (positive : 0 < align) :
    alignUp (saturate n) align = saturate (roundUp n align) := by
  have above := le_roundUp n positive
  have above' := le_roundUp maxSize positive
  show saturate (roundUp (saturate n) (max align 1)) = _
  rw [Nat.max_eq_left positive]
  rcases Nat.le_total n maxSize with small | large
  · rw [show saturate n = n from Nat.min_eq_left small]
  · rw [show saturate n = maxSize from Nat.min_eq_right large, saturate, saturate,
      Nat.min_eq_right above',
      Nat.min_eq_right (Nat.le_trans large above)]

lemma nextPowerOfTwo_eq (positive : n ≠ 0) : nextPowerOfTwo n = 1 <<< Nat.clog 2 n := by
  rw [nextPowerOfTwo]
  split
  next small =>
    obtain rfl : n = 1 := by omega
    rfl
  next large =>
    have below := Nat.log2_self_le (n := n - 1) (by omega)
    have above := Nat.lt_log2_self (n := n - 1)
    have eq : Nat.clog 2 n = (n - 1).log2 + 1 := by
      refine Nat.le_antisymm (Nat.clog_le_of_le_pow (by omega)) ?_
      exact (Nat.lt_clog_iff_pow_lt (by decide)).mpr (by omega)
    rw [eq]

lemma le_padded (simd : Bool) (size : Nat) : size ≤ padded simd size := by
  rw [padded]
  split
  · exact Nat.one_shiftLeft _ ▸ Nat.le_pow_clog (by decide) size
  · exact Nat.le_refl _

lemma padded_power (size : Nat) :
    (max (padded true size) 1).isPowerOfTwo ∧ max (padded true size) 1 ∣ padded true size := by
  rw [padded]
  split
  · rw [Nat.one_shiftLeft, Nat.max_eq_left (Nat.two_pow_pos _)]
    exact ⟨⟨_, rfl⟩, Nat.dvd_refl _⟩
  next none =>
    obtain rfl : size = 0 := by simpa using none
    exact ⟨⟨0, rfl⟩, Nat.dvd_zero _⟩

/-- The check of the saturated size is exact, but for single elements, which are only refused if
SIMD is asked for. -/
lemma vectorSize?_eq (saturated : element.size = saturate exact) (count : Nat)
    (simd : Bool) : vectorSize? element count simd =
      if padded simd (exact * count) ≤ maxSize ∨ count = 1 ∧ simd = false then
        some (saturate (padded simd (exact * count))) else none := by
  have checks : vectorSize? element count simd = if padded simd (element.size * count) ≤
      maxSize then
      some (padded simd (element.size * count)) else none := by
    have rounds : (if (simd && element.size * count != 0) then nextPowerOfTwo (element.size * count)
        else element.size * count) = padded simd (element.size * count) := by
      rw [padded]
      split
      next pads => rw [nextPowerOfTwo_eq (by simp_all)]
      next => rfl
    have least := le_padded simd (element.size * count)
    rw [vectorSize?, rounds]
    simp only [Bool.and_eq_true, decide_eq_true_eq]
    exact if_congr ⟨And.right, fun fits => ⟨Nat.le_trans least fits, fits⟩⟩ rfl rfl
  have least := le_padded simd (exact * count)
  rw [checks, saturated]
  rcases Nat.lt_or_ge maxSize exact with large | small
  · rw [show saturate exact = maxSize from Nat.min_eq_right (Nat.le_of_lt large)]
    rcases Nat.lt_trichotomy count 1 with none | rfl | several
    · obtain rfl : count = 0 := by omega
      have empty : padded simd 0 = 0 := by cases simd <;> rfl
      rw [Nat.mul_zero, Nat.mul_zero, empty, if_pos (Nat.zero_le _)]
      rfl
    · rw [Nat.mul_one] at least
      rw [Nat.mul_one, Nat.mul_one]
      cases simd with
      | false =>
        show (if maxSize ≤ maxSize then some maxSize else none) = _
        rw [if_pos (Nat.le_refl _), if_pos (.inr ⟨rfl, rfl⟩)]
        exact congrArg some (Nat.min_eq_right (Nat.le_of_lt large)).symm
      | true =>
        -- the end of the range is no power of two
        rw [if_neg (by decide), if_neg (not_or.mpr ⟨by omega, by simp⟩)]
    · have more : maxSize * 2 ≤ maxSize * count := Nat.mul_le_mul_left _ several
      have most : maxSize * count ≤ exact * count := Nat.mul_le_mul_right _ (Nat.le_of_lt large)
      have least' := le_padded simd (maxSize * count)
      have positive : 0 < maxSize := by decide
      rw [if_neg (by omega), if_neg (by omega)]
  · rw [show saturate exact = exact from Nat.min_eq_left small]
    have single : count = 1 ∧ simd = false → padded simd (exact * count) ≤ maxSize := by
      rintro ⟨rfl, rfl⟩
      rwa [Nat.mul_one]
    split
    next fits => rw [if_pos (.inl fits), saturate, Nat.min_eq_left fits]
    next large => rw [if_neg (not_or.mpr ⟨large, fun one => large (single one)⟩)]

end Layout

/-- What is kept of the layout of a type, and what holds of the exact one. -/
structure Ty.Laid (ty : Ty) : Prop where
  size : ty.size = saturate ty.extent.1
  align : ty.align = ty.extent.2
  power : ty.extent.2.isPowerOfTwo
  multiple : ty.extent.2 ∣ ty.extent.1

namespace Layout

variable {element : Ty} {fields : List Ty} {id count cells : Nat} {simd : Bool}

lemma laid_vector (laid : element.Laid) (fits : vectorFits element count simd) : Ty.Laid
    ⟨id, .vector element count simd, (layout (.vector element count simd)).1,
      (layout (.vector element count simd)).2, cells⟩ := by
  obtain ⟨-, -, accepted⟩ := vectorFits_iff.mp fits
  rw [vectorSize?_eq laid.size] at accepted
  split at accepted
  next fits' =>
    have kept : (vectorSize? element count simd).getD maxSize =
        saturate (padded simd (element.extent.1 * count)) := by
      rw [vectorSize?_eq laid.size, if_pos fits', Option.getD_some]
    rw [layout, kept]
    cases simd with
    | false => exact ⟨rfl, laid.align, laid.power, Nat.dvd_mul_right_of_dvd laid.multiple count⟩
    | true =>
      have small : saturate (padded true (element.extent.1 * count)) =
          padded true (element.extent.1 * count) :=
        Nat.min_eq_left (fits'.resolve_right (by simp))
      obtain ⟨power, divides⟩ := padded_power (element.extent.1 * count)
      exact ⟨rfl, congrArg (max · 1) small, power, divides⟩
  next => cases accepted

lemma add_saturate (a b : Nat) : saturate (saturate a + saturate b) = saturate (a + b) := by
  simp only [saturate]
  omega

/-- Fields are placed as they are over unbounded numbers, up to the end of the range. -/
lemma place_fields (laid : ∀ field ∈ fields, field.Laid) (offset : Nat)
    (power : align.isPowerOfTwo) :
    fields.foldl (fun placed field => (saturate (alignUp placed.1 field.align + field.size),
      max placed.2 field.align))
        (saturate offset, align) =
      (saturate (stop offset (fields.map Ty.extent)), widest align (fields.map Ty.extent)) ∧
    (widest align (fields.map Ty.extent)).isPowerOfTwo := by
  induction fields generalizing offset align with
  | nil => exact ⟨rfl, power⟩
  | cons field fields ih =>
    obtain ⟨first, rest⟩ := forall_mem_cons.mp laid
    have power' : (max align field.extent.2).isPowerOfTwo := by
      rcases Nat.le_total align field.extent.2 with more | less
      · exact (Nat.max_eq_right more).symm ▸ first.power
      · exact (Nat.max_eq_left less).symm ▸ power
    obtain ⟨placed, powers⟩ := ih rest (roundUp offset field.extent.2 + field.extent.1) power'
    refine ⟨Eq.trans ?_ placed, powers⟩
    rw [foldl_cons, first.align, first.size,
      alignUp_saturate offset (Nat.pos_of_isPowerOfTwo first.power), add_saturate]

lemma laid_struct (laid : ∀ field ∈ fields, field.Laid) :
    Ty.Laid ⟨id, .struct fields names, (structLayout fields).1,
      (structLayout fields).2, cells⟩ := by
  obtain ⟨placed, power⟩ := place_fields laid 0 Nat.isPowerOfTwo_one
  have layout := congrArg (fun placed => (alignUp placed.1 placed.2, placed.2)) placed
  rw [show structLayout fields = _ from layout, alignUp_saturate _ (Nat.pos_of_isPowerOfTwo power)]
  constructor
  all_goals rw [Ty.extent_struct rfl]
  · rfl
  · rfl
  · exact power
  · exact Nat.dvd_mul_left _ _

/-- Fields lie one behind the other at multiples of their alignments. -/
lemma spans_facts (laid : ∀ field ∈ fields, field.Laid) (offset : Nat)
    (fits : stop offset (fields.map Ty.extent) ≤ maxSize) :
    Forall₂ (fun field span => field.align ∣ span.1 ∧ span.2 = span.1 + field.size ∧
        span.2 ≤ stop offset (fields.map Ty.extent)) fields (spans offset (fields.map Ty.extent)) ∧
      (spans offset (fields.map Ty.extent)).Pairwise (fun a b => a.2 ≤ b.1) ∧
      (∀ span ∈ spans offset (fields.map Ty.extent), offset ≤ span.1) ∧
      offset ≤ stop offset (fields.map Ty.extent) := by
  induction fields generalizing offset with
  | nil => exact ⟨.nil, .nil, fun _ mem => absurd mem not_mem_nil, Nat.le_refl _⟩
  | cons field fields ih =>
    obtain ⟨first, rest⟩ := forall_mem_cons.mp laid
    have whole : stop offset ((field :: fields).map Ty.extent) =
        stop (roundUp offset field.extent.2 + field.extent.1) (fields.map Ty.extent) := rfl
    rw [whole] at fits ⊢
    obtain ⟨placed, apart, behind, last⟩ := ih rest _ fits
    have begins := le_roundUp offset (Nat.pos_of_isPowerOfTwo first.power)
    have small : field.size = field.extent.1 := first.size.trans (Nat.min_eq_left (by omega))
    refine ⟨.cons ⟨?_, ?_, last⟩ placed, pairwise_cons.mpr ⟨behind, apart⟩,
      forall_mem_cons.mpr ⟨begins, ?_⟩, by omega⟩
    · rw [first.align]
      exact Nat.dvd_mul_left _ _
    · exact congrArg _ small.symm
    · intro span mem
      have further := behind span mem
      omega

end Layout

lemma Ty.Built.laid {ty : Ty} (built : ty.Built) : ty.Laid := by
  induction built with
  | @layer id shape fits parts ih =>
    cases shape with
    | primitive p =>
      exact ⟨by cases p <;> rfl, rfl, ⟨p.size.log2, by cases p <;> rfl⟩, Nat.dvd_refl _⟩
    | vector element count simd => exact laid_vector (ih element mem_cons_self) fits
    | struct fields names => exact laid_struct ih
    | pointer | function => exact ⟨rfl, rfl, ⟨3, rfl⟩, Nat.dvd_refl _⟩

lemma Ty.Built.cells_eq {ty : Ty} (built : ty.Built) : ty.cells = saturateCells ty.values := by
  induction built with
  | @layer id shape fits parts ih =>
    cases shape with
    | vector element count simd =>
      have product := saturateCells_mul element.values count
      rw [Ty.values]
      show saturateCells (saturateCells (element.cells * count) + 1) = _
      rw [ih element mem_cons_self, product]
      simp only [saturateCells]
      omega
    | struct fields names =>
      have total : ∀ n, fields.foldl (fun total field => saturateCells (total + field.cells))
          (saturateCells n) =
          saturateCells (n + Ty.valuesOf fields) := by
        clear fits parts
        induction fields with
        | nil => exact fun _ => rfl
        | cons field fields ihf =>
          intro n
          have step : saturateCells (saturateCells n + field.cells) =
              saturateCells (n + field.values) := by
            rw [ih field mem_cons_self]
            simp only [saturateCells]
            omega
          rw [foldl_cons, step, ihf fun part mem => ih part (mem_cons_of_mem _ mem), Ty.valuesOf,
            Nat.add_assoc]
      rw [Ty.values, Nat.add_comm]
      exact total 1
    | primitive | pointer | function => rfl

variable {kept : Ty → Prop} {start store : Store} {events : List TypeEvent} {ty : Ty}

lemma TypeLog.built (log : TypeLog kept start store events) (past : Past kept start)
    (held : Held kept events ty) :
    ty.Built := by
  obtain ⟨_, before⟩ := past.accounts
  obtain ⟨_, accounts⟩ := log.accounts before
  exact (accounts.known held).2

/-- A type whose size over unbounded numbers fits in 32 bits has that size and alignment, whatever
its parts are. The alignment is a power of two that divides the size, and fields have places of
their own. -/
theorem layout_exact_if_fits (past : Past kept start) (log : TypeLog kept start store events)
    (held : Held kept events ty) (fits : ty.extent.1 < 1 <<< 32) :
    (ty.size, ty.align) = ty.extent ∧ ty.align.isPowerOfTwo ∧ ty.align ∣ ty.size ∧
      ∀ fields names, ty.shape = .struct fields names →
        Forall₂ (fun field span => field.align ∣ span.1 ∧ span.2 = span.1 + field.size ∧
          span.2 ≤ ty.size)
            fields (spans 0 (fields.map Ty.extent)) ∧
          (spans 0 (fields.map Ty.extent)).Pairwise fun a b => a.2 ≤ b.1 := by
  have built := log.built past held
  obtain ⟨size, align, power, multiple⟩ := built.laid
  have exact : ty.size = ty.extent.1 := size.trans (Nat.min_eq_left (Nat.le_sub_one_of_lt fits))
  refine ⟨Prod.ext exact align, align ▸ power, by
    rwa [align, exact], fun fields names isStruct => ?_⟩
  have extent := Ty.extent_struct isStruct
  have parts : ∀ field ∈ fields, field.Laid :=
    fun field member => (built.parts field (isStruct ▸ member)).laid
  rw [extent] at power exact
  have last : stop 0 (fields.map Ty.extent) ≤ ty.size :=
    exact ▸ le_roundUp _ (Nat.pos_of_isPowerOfTwo power)
  have small : ty.size ≤ maxSize := size ▸ Nat.min_le_right _ _
  obtain ⟨placed, apart, -⟩ := spans_facts parts 0 (Nat.le_trans last small)
  exact ⟨placed.imp fun field span holds => holds.imp_right (.imp_right (Nat.le_trans · last)),
    apart⟩

theorem padded_struct_laid_exactly :
    ∃ ty : Ty, ty.extent = (16, 8) ∧ (ty.size, ty.align) = ty.extent := by
  obtain ⟨ty, _, _, extent, log⟩ : ∃ (ty : Ty) (store : Store) (kind : Shape Ty),
      ty.extent = (16, 8) ∧
      TypeLog (fun _ => False) {} store [.made kind ty] := by
    refine ⟨_, _, _, ?_, TypeLog.start.answered (.struct [primitive {} .i8, primitive {} .i64])
      (fun part member => .inr ?_) rfl⟩
    · decide
    · rcases mem_cons.mp member with rfl | member
      · exact ⟨.i8, rfl⟩
      · exact ⟨.i64, mem_singleton.mp member⟩
  exact ⟨ty, extent,
    (layout_exact_if_fits .new log (.made mem_cons_self) (by rw [extent]; decide)).1⟩

/-- A vector is taken exactly if it is short, has few values and a size that fits in 32 bits; the
size of a single element is checked for SIMD vectors only. Otherwise the definition is reported, and
the table stays as it is. -/
theorem vector_taken_iff (past : Past kept start) (log : TypeLog kept start store events)
    (held : Held kept events ty)
    (count : Nat) (simd : Bool) :
    ((∃ vector, (store.types.vectorOf ty count simd).1 = .ok vector) ↔
      count ≤ 1 <<< 16 ∧ ty.values * count + 1 ≤ 1 <<< 20 ∧
        ((vectorExtent ty.extent count simd).1 < 1 <<< 32 ∨ count = 1 ∧ simd = false)) ∧
    ∀ d, (store.types.vectorOf ty count simd).1 = .error d →
      d.kind = .definition ∧ (store.types.vectorOf ty count simd).2 = store.types := by
  have built := log.built past held
  have cells : saturateCells (ty.cells * count) < maxValueCells ↔
      ty.values * count + 1 ≤ 1 <<< 20 := by
    have room : maxValueCells ≤ maxCells := by decide
    rw [built.cells_eq, saturateCells_mul, saturateCells]
    change _ < maxValueCells ↔ _ < maxValueCells
    omega
  have size : (vectorSize? ty count simd).isSome ↔
      (vectorExtent ty.extent count simd).1 < 1 <<< 32 ∨ count = 1 ∧ simd = false := by
    rw [vectorSize?_eq built.laid.size, ← Nat.le_sub_one_iff_lt (by decide)]
    split
    next fits => exact iff_of_true rfl fits
    next large => exact iff_of_false Bool.noConfusion large
  have fits := vectorFits_iff.trans (and_congr_right fun _ => and_congr cells size)
  rw [show count ≤ 1 <<< 16 ∧ _ ↔ _ from fits.symm, vectorOf]
  split
  next taken => exact ⟨iff_of_true ⟨_, rfl⟩ taken, fun d failed => by cases failed⟩
  next refused =>
    refine ⟨iff_of_false ?_ refused, fun d failed => ?_⟩
    · rintro ⟨_, found⟩
      cases found
    · cases failed
      exact ⟨rfl, rfl⟩

theorem pair_of_numbers_taken :
    ∃ vector, (vectorOf {} (primitive {} .i64) 2 true).1 = .ok vector := by
  have log : TypeLog (fun _ => False) {} {} [.made (.primitive .i64) (primitive {} .i64)] :=
    TypeLog.start.answered (.primitive .i64) (fun _ member => absurd member not_mem_nil) rfl
  exact (vector_taken_iff .new log (.made mem_cons_self) 2 true).1.mpr ⟨by decide, by
    decide, .inl (by decide)⟩

end Blockflow
