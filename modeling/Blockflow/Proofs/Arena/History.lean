import Blockflow.Proofs.Arena

/-!
# Histories of an arena

Whatever is done to an arena, its content can be read off the record of what was done: a handle
stands for a value from the moment it is given out until it is freed for the first time, and no
handle is given out twice. The vacant slots are a stack of the slots that were freed and not taken
again.
-/

namespace Blockflow.Arena

open List Option

variable {α : Type}

/-- Something done to an arena, with the answer. -/
inductive Event (α : Type) where
  | alloc (v : α) (id : Handle)
  | free (id : Handle) (v : Option α)
  | change (id : Handle) (f : α → α)

namespace Event

def issued? : Event α → Option Handle
  | .alloc _ id => some id
  | _ => none

/-- The slot that becomes vacant. -/
def vacated? : Event α → Option Nat
  | .free id (some _) => some id.index
  | _ => none

/-- What becomes of the value of a handle that is not freed. -/
def update (id : Handle) : Event α → α → α
  | .change other f, v => if other = id then f v else v
  | _, v => v

end Event

/-- The arenas that an empty one can become, with all that was done, latest first. -/
inductive Arises : List (Event α) → Arena α → Prop where
  | empty : Arises [] empty
  | alloc {history : List (Event α)} {arena : Arena α} (past : Arises history arena) (v : α) :
      Arises (.alloc v (arena.alloc v).1 :: history) (arena.alloc v).2
  | free {history : List (Event α)} {arena : Arena α} (past : Arises history arena) (id : Handle) :
      Arises (.free id (arena.get? id) :: history) (arena.free id)
  | change {history : List (Event α)} {arena : Arena α} (past : Arises history arena)
      (id : Handle) (f : α → α) :
      Arises (.change id f :: history) (arena.modify id f)

/-- The handle was given out and not freed since, and this is what became of its value. -/
def Held (history : List (Event α)) (id : Handle) (v : α) : Prop :=
  ∃ later first earlier, history = later ++ .alloc first id :: earlier ∧
    (∀ answer, .free id answer ∉ later) ∧
    later.foldr (Event.update id) first = v

def issued (history : List (Event α)) : List Handle := history.filterMap Event.issued?

/-- How often a slot became vacant. -/
def timesFreed (history : List (Event α)) (i : Nat) :
    Nat := (history.filterMap Event.vacated?).count i

/-- The slots that were freed and not taken again, if the slot that was freed last is taken
first. -/
def freeStack : List (Event α) → List Nat
  | [] => []
  | .alloc .. :: past => (freeStack past).tail
  | .free id (some _) :: past => id.index :: freeStack past
  | _ :: past => freeStack past

variable {history : List (Event α)} {arena : Arena α} {id : Handle} {v : α}

lemma Held.mem_issued (held : Held history id v) : id ∈ issued history := by
  obtain ⟨later, first, earlier, rfl, -, -⟩ := held
  exact mem_filterMap.mpr ⟨.alloc first id, by simp, rfl⟩

/-- What a history says of a handle before and after one more event. -/
lemma held_cons :
    Held (event :: history) id v ↔ event = .alloc v id ∨ (∀ answer, event ≠ .free id answer) ∧
      ∃ before, Held history id before ∧ event.update id before = v := by
  constructor
  · rintro ⟨later, first, earlier, split, kept, rfl⟩
    cases later with
    | nil =>
      obtain ⟨rfl, -⟩ := cons.inj split
      exact .inl rfl
    | cons last later =>
      obtain ⟨rfl, rfl⟩ := cons.inj split
      refine .inr ⟨fun answer eq => kept answer (eq ▸ mem_cons_self), _,
        ⟨later, first, earlier, rfl, ?_, rfl⟩, rfl⟩
      exact fun answer mem => kept answer (mem_cons_of_mem _ mem)
  · rintro (rfl | ⟨notFree, before, ⟨later, first, earlier, rfl, kept, rfl⟩, rfl⟩)
    · exact ⟨[], v, history, rfl, by simp, rfl⟩
    · refine ⟨event :: later, first, earlier, rfl, fun answer mem => ?_, rfl⟩
      exact (mem_cons.mp mem).elim (fun eq => notFree answer eq.symm) (kept answer)

lemma timesFreed_free (i : Nat) : timesFreed (.free id (some v) :: history) i =
    timesFreed history i + if id.index = i then 1 else 0 := by
  simp [timesFreed, Event.vacated?, count_cons]

lemma free_stale (stale : arena.contains id = false) : arena.free id = arena := by
  rw [free, stale, if_neg Bool.false_ne_true]

/-- An arena is what its history says. -/
structure Recorded (history : List (Event α)) (arena : Arena α) : Prop where
  wf : arena.WellFormed
  counted : occupied arena.slots = arena.size
  complete : ∀ i generation, arena.slots[i]? = some ⟨generation, none⟩ → i ∈ arena.vacant
  stack : arena.vacant = freeStack history
  generation : ∀ i, (arena.slots[i]?.map Slot.generation).getD 0 = timesFreed history i
  issued : ∀ id ∈ issued history, arena.Issued id
  held : ∀ id v, arena.get? id = some v ↔ Held history id v

namespace Recorded

lemma empty : Recorded [] (empty : Arena α) where
  wf := wellFormed_empty
  counted := rfl
  complete i gen found := by simp [Arena.empty] at found
  stack := rfl
  generation i := by simp [Arena.empty, timesFreed]
  issued id mem := by simp [Arena.issued] at mem
  held id v := by simp [Arena.empty, get?, Held]

lemma change (recorded : Recorded history arena) (id : Handle) (f : α → α) :
    Recorded (.change id f :: history) (arena.modify id f) where
  wf := recorded.wf.modify id f
  counted := (occupied_modify_value arena id f).trans recorded.counted
  complete i gen found := by
    cases old : arena.slots[i]? with
    | none => simp [modify, Array.getElem?_modify, old] at found
    | some slot =>
      obtain ⟨before, content⟩ := slot
      refine recorded.complete i before ?_
      simp only [modify, Array.getElem?_modify, old] at found
      cases content with
      | none => exact old
      | some content => split at found <;> simp at found; split at found <;> cases found
  stack := recorded.stack
  generation i := by
    rw [(slots_modify arena id f i).1]
    exact recorded.generation i
  issued other mem := (recorded.issued other mem).modify id f
  held other v := by
    rw [get?_modify, held_cons]
    by_cases eq : other = id
    · subst eq
      simp [recorded.held, Event.update]
    · simp [eq, Ne.symm eq, recorded.held, Event.update]

lemma free (recorded : Recorded history arena) (id : Handle) :
    Recorded (.free id (arena.get? id) :: history) (arena.free id) := by
  have held : ∀ other v, (arena.free id).get? other = some v ↔
      Held (.free id (arena.get? id) :: history) other v := by
    intro other v
    rw [get?_free, held_cons]
    by_cases same : other = id
    · simp [same]
    · simp [same, Ne.symm same, recorded.held, Event.update]
  have issued := fun other mem => (recorded.issued other mem).free id
  have wf := recorded.wf.free id
  cases found : arena.get? id with
  | none =>
    have stale : arena.contains id = false := by rw [contains, found, isSome_none]
    rw [found] at held
    rw [free_stale stale] at held ⊢
    exact { recorded with held }
  | some v =>
    have live : arena.contains id := contains_iff.mpr ⟨v, found⟩
    rw [found] at held
    rw [Arena.free, if_pos live] at held issued wf ⊢
    rw [get?_eq_some] at found
    refine ⟨wf, ?_, fun i gen empty => ?_, congrArg (id.index :: ·) recorded.stack,
      fun i => ?_, issued, held⟩
    · rw [occupied_modify found, recorded.counted]
      rfl
    · by_cases same : i = id.index
      · exact same ▸ mem_cons_self
      · rw [Array.getElem?_modify, if_neg (Ne.symm same)] at empty
        exact mem_cons_of_mem _ (recorded.complete i gen empty)
    · rw [timesFreed_free, ← recorded.generation, Array.getElem?_modify]
      by_cases same : id.index = i
      · simp [← same, found]
      · simp [same]

lemma alloc (recorded : Recorded history arena) (v : α) :
    Recorded (.alloc v (arena.alloc v).1 :: history) (arena.alloc v).2 := by
  obtain ⟨wf, fresh, content, issued⟩ := alloc_facts recorded.wf v
  have held : ∀ id content, (arena.alloc v).2.get? id = some content ↔
      Held (.alloc v (arena.alloc v).1 :: history) id content := by
    intro id stored
    rw [content, held_cons]
    by_cases eq : id = (arena.alloc v).1
    · -- Nothing is held under a handle that was not given out before.
      have unknown : ∀ before, ¬Held history id before := fun before held =>
        fresh (eq ▸ recorded.issued id held.mem_issued)
      simp [eq, eq ▸ unknown]
    · simp [eq, Ne.symm eq, recorded.held, Event.update]
  have known : ∀ id ∈ Arena.issued (.alloc v (arena.alloc v).1 :: history),
      (arena.alloc v).2.Issued id := by
    intro id mem
    rcases mem_cons.mp mem with rfl | old
    · exact .inl (by rw [contains, content, if_pos rfl, isSome_some])
    · exact issued id (recorded.issued id old)
  have stack := recorded.stack
  rw [Arena.alloc] at wf known held ⊢
  cases vacant : arena.vacant with
  | nil =>
    simp only [vacant] at wf known held stack ⊢
    refine ⟨wf, ?_, fun i gen empty => ?_, ?_, fun i => ?_, known, held⟩
    · rw [occupied, Array.toList_push, countP_append, ← recorded.counted]
      rfl
    · rw [Array.getElem?_push] at empty
      split at empty
      next => cases empty
      next => exact vacant ▸ recorded.complete i gen empty
    · rw [freeStack, ← stack]
      rfl
    · have before := recorded.generation i
      rw [Array.getElem?_push]
      split
      next new =>
        rw [new, Array.getElem?_size] at before
        exact new ▸ before
      next => exact before
  | cons i rest =>
    obtain ⟨gen, empty⟩ := recorded.wf.empty i (vacant ▸ mem_cons_self)
    simp only [vacant] at wf known held stack ⊢
    refine ⟨wf, ?_, fun place gen empty => ?_, ?_, fun place => ?_, known, held⟩
    · rw [occupied_modify empty, recorded.counted]
      rfl
    · rw [Array.getElem?_modify] at empty
      split at empty
      next eq => simp at empty
      next other =>
        have mem := vacant ▸ recorded.complete place gen empty
        exact (mem_cons.mp mem).resolve_left (Ne.symm other)
    · rw [freeStack, ← stack]
      rfl
    · rw [Array.getElem?_modify]
      split
      next =>
        rw [Option.map_map]
        exact recorded.generation place
      next => exact recorded.generation place

end Recorded

lemma Arises.recorded (arises : Arises history arena) : Recorded history arena := by
  induction arises with
  | empty => exact .empty
  | alloc _ v ih => exact ih.alloc v
  | free _ id ih => exact ih.free id
  | change _ id f ih => exact ih.change id f

lemma pairwise_toList (arena : Arena α) :
    arena.toList.Pairwise fun a b => a.1.index < b.1.index := by
  have order : (arena.slots.toList.zipIdx.map Prod.snd).Pairwise (· < ·) := by
    rw [zipIdx_map_snd]
    exact pairwise_lt_range'
  refine pairwise_filterMap.mpr ((pairwise_map.mp order).imp fun {a b} before => ?_)
  intro first isFirst second isSecond
  obtain ⟨_, -, rfl⟩ := map_eq_some_iff.mp isFirst
  obtain ⟨_, -, rfl⟩ := map_eq_some_iff.mp isSecond
  exact before

lemma modify_stale (stale : arena.contains id = false) (f : α → α) : arena.modify id f = arena := by
  have eq : arena.slots.modify id.index (fun slot =>
      if slot.generation = id.generation then { slot with value := slot.value.map f } else slot) =
        arena.slots := by
    refine Array.ext_getElem? fun i => ?_
    rw [Array.getElem?_modify]
    split
    next place =>
      cases found : arena.slots[i]? with
      | none => rfl
      | some slot =>
        simp only [contains, get?, place, found] at stale
        rw [map_some]
        split
        next current =>
          rw [if_pos current, isSome_eq_false_iff, isNone_iff_eq_none] at stale
          rw [stale, map_none, ← stale]
        next => rfl
    next => rfl
  rw [modify, eq]

lemma Recorded.mem_vacant (recorded : Recorded history arena) : i ∈ arena.vacant ↔
    i < arena.slots.size ∧ ∀ gen, arena.contains ⟨i, gen⟩ = false := by
  constructor
  · intro mem
    obtain ⟨gen, empty⟩ := recorded.wf.empty i mem
    refine ⟨(Array.getElem?_eq_some_iff.mp empty).1, fun other => ?_⟩
    simp [contains, get?, empty]
  · rintro ⟨inside, vacant⟩
    cases slot : arena.slots[i] with
    | mk gen content =>
      have found : arena.slots[i]? = some ⟨gen, content⟩ := slot ▸ Array.getElem?_eq_getElem inside
      cases content with
      | none => exact recorded.complete i gen found
      | some v =>
        have live := vacant gen
        simp [contains, get?, found] at live

/-- Whatever was done to an arena, a new handle is none of those given out before, and a handle
stands for a value exactly from then on until it is freed for the first time: the one that was
stored under it last. Other handles can be freed or written through without effect. The values are
counted and listed in the order of their slots. The vacant slots form a stack, and a new value takes
the top of it or else a new slot. The last part bounds handles by the number of slots and of times
that a slot is freed, so words suffice for them as long as they do for those. -/
theorem handles_stand_from_alloc_to_free (arises : Arises history arena) :
    (∀ v, (arena.alloc v).1 ∉ issued history) ∧
    (∀ id v, arena.get? id = some v ↔ Held history id v) ∧
    (∀ id, arena.contains id = true ↔ ∃ v, Held history id v) ∧
    (∀ id, arena.contains id = false → arena.free id = arena ∧ ∀ f, arena.modify id f = arena) ∧
    arena.size = arena.toList.length ∧ (∀ id v, (id, v) ∈ arena.toList ↔ Held history id v) ∧
    (arena.toList.Pairwise fun a b => a.1.index < b.1.index) ∧
    arena.vacant = freeStack history ∧ arena.vacant.Nodup ∧
    (∀ i, i ∈ arena.vacant ↔ i < arena.slots.size ∧ ∀ gen, arena.contains ⟨i, gen⟩ = false) ∧
    (∀ v, (arena.alloc v).1.index = arena.vacant.headD arena.slots.size) ∧
    ∀ id ∈ issued history, id.index < arena.slots.size ∧
    id.generation ≤ timesFreed history id.index := by
  have recorded := arises.recorded
  refine ⟨fun v member => ?_, recorded.held, fun id => ?_,
    fun id stale => ⟨free_stale stale, modify_stale stale⟩,
    ?_, fun id v => mem_toList.trans (recorded.held id v), pairwise_toList arena, recorded.stack,
    recorded.wf.nodup, fun i => recorded.mem_vacant, fun v => ?_, fun id member => ?_⟩
  · exact (alloc_facts recorded.wf v).2.1 (recorded.issued _ member)
  · simp only [contains_iff, recorded.held]
  · rw [length_toList, recorded.counted]
  · rw [alloc]
    cases arena.vacant <;> rfl
  · rw [← recorded.generation]
    rcases recorded.issued id member with live | ⟨slot, found, stale⟩
    · obtain ⟨v, found⟩ := contains_iff.mp live
      rw [get?_eq_some] at found
      exact ⟨(Array.getElem?_eq_some_iff.mp found).1, by rw [found]; exact Nat.le_refl _⟩
    · exact ⟨(Array.getElem?_eq_some_iff.mp found).1, by rw [found]; exact Nat.le_of_lt stale⟩

/-- A slot that is used again leaves the old handle stale. -/
theorem reused_slot_keeps_handle_stale : ∃ history arena, Arises history arena ∧
    issued history = [⟨0, 1⟩, ⟨1, 0⟩, ⟨0, 0⟩] ∧ arena.get? ⟨0, 0⟩ = none ∧ Held history ⟨0, 1⟩ "c" ∧
    (arena.alloc "d").1 ∉ issued history ∧ arena.toList.length = 2 := by
  have arises := ((((@Arises.empty String).alloc "a").alloc "b").free ⟨0, 0⟩).alloc "c"
  obtain ⟨fresh, held, -, -, length, -⟩ := handles_stand_from_alloc_to_free arises
  exact ⟨_, _, arises, rfl, rfl, (held ⟨0, 1⟩ "c").mp rfl, fresh "d", length.symm⟩

end Blockflow.Arena
