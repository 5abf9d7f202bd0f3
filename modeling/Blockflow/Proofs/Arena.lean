import Blockflow.Arena
import Mathlib.Data.List.Basic
import Mathlib.Data.List.Perm.Subperm
import Mathlib.Tactic.ByContra

/-!
# Handles of an arena

Each operation is described by what `get?` answers afterwards. A handle is issued if it stands for a
value or did so before; a new handle was never issued, so a stale one stays stale.
-/

namespace Blockflow.Arena

open List Option Array

variable {α : Type} {arena : Arena α} {id other : Handle} {v : α}

lemma get?_eq_some :
    arena.get? id = some v ↔ arena.slots[id.index]? = some ⟨id.generation, some v⟩ := by
  rw [get?]
  cases found : arena.slots[id.index]? with
  | none => simp
  | some slot =>
    obtain ⟨gen, content⟩ := slot
    by_cases eq : gen = id.generation <;> simp [eq]

lemma contains_iff : arena.contains id ↔ ∃ v, arena.get? id = some v := isSome_iff_exists

/-- How many slots have a value. -/
def occupied (slots : Array (Slot α)) : Nat := slots.toList.countP (·.value.isSome)

lemma occupied_modify {slots : Array (Slot α)} {slot : Slot α} (found : slots[i]? = some slot)
    (f : Slot α → Slot α) : occupied (slots.modify i f) =
      (occupied slots - if slot.value.isSome then 1 else 0) + if (f slot).value.isSome then
      1 else 0 := by
  have found' : slots.toList[i]? = some slot := by simpa using found
  obtain ⟨inside, rfl⟩ := List.getElem?_eq_some_iff.mp found'
  have set : slots.toList.modify i f = slots.toList.set i (f slots.toList[i]) := by
    rw [modify_eq_set_getElem?, found']
    rfl
  rw [occupied, Array.toList_modify, set, List.countP_set inside]
  rfl

/-- Vacant slots exist, are empty and are listed once, and all values are counted. -/
structure WellFormed (arena : Arena α) : Prop where
  empty : ∀ i ∈ arena.vacant, ∃ gen, arena.slots[i]? = some ⟨gen, none⟩
  nodup : arena.vacant.Nodup
  counted : occupied arena.slots ≤ arena.size

/-- The handle stands for a value or did so before. -/
def Issued (arena : Arena α) (id : Handle) : Prop :=
  arena.contains id ∨ ∃ slot, arena.slots[id.index]? = some slot ∧ id.generation < slot.generation

lemma wellFormed_empty :
    (empty : Arena α).WellFormed := ⟨by simp [empty], by simp [empty], by simp [empty, occupied]⟩

/-! ## Changing a value -/

section

variable (arena : Arena α) (id : Handle) (f : α → α) (other : Handle)

lemma get?_modify : (arena.modify id f).get? other =
      if other = id then (arena.get? id).map f else arena.get? other := by
  obtain ⟨i, gen⟩ := id
  obtain ⟨i', gen'⟩ := other
  simp only [get?, modify, Array.getElem?_modify]
  by_cases place : i = i'
  · subst place
    cases found : arena.slots[i]? with
    | none => simp
    | some slot =>
      by_cases current : slot.generation = gen
      · by_cases eq : gen = gen' <;> simp [current, eq, eq_comm]
      · by_cases eq : gen = gen'
        · simp [eq, eq ▸ current]
        · simp [current, Ne.symm eq]
  · simp [place, Ne.symm place]

lemma contains_modify : (arena.modify id f).contains other = arena.contains other := by
  rw [contains, get?_modify]
  by_cases eq : other = id
  · rw [if_pos eq, isSome_map, contains, eq]
  · rw [if_neg eq, contains]

lemma slots_modify (i : Nat) :
    ((arena.modify id f).slots[i]?).map Slot.generation = (arena.slots[i]?).map Slot.generation ∧
      ∀ gen, arena.slots[i]? = some ⟨gen, none⟩ →
        (arena.modify id f).slots[i]? = some ⟨gen, none⟩ := by
  simp only [modify, Array.getElem?_modify]
  by_cases place : id.index = i
  · cases found : arena.slots[i]? with
    | none => simp
    | some slot =>
      obtain ⟨gen, content⟩ := slot
      by_cases current : gen = id.generation <;> simp [place, current]
  · simp [place]

lemma occupied_modify_value : occupied (arena.modify id f).slots = occupied arena.slots := by
  rw [modify]
  cases found : arena.slots[id.index]? with
  | none =>
    have found' : arena.slots.toList[id.index]? = none := by simpa using found
    rw [occupied, toList_modify, modify_eq_set_getElem?, found']
    rfl
  | some slot =>
    have eq : (if slot.generation = id.generation then { slot with value := slot.value.map f } else
        slot).value.isSome =
        slot.value.isSome := by
      split
      · exact isSome_map ..
      · rfl
    rw [occupied_modify found, eq]
    split
    next isSome =>
      have some : 0 < occupied arena.slots :=
        countP_pos_iff.mpr ⟨slot, mem_of_getElem? (by simpa using found), isSome⟩
      omega
    next => omega

end

lemma WellFormed.modify (wf : arena.WellFormed) (id : Handle) (f : α → α) :
    (arena.modify id f).WellFormed := by
  refine ⟨fun i mem => ?_, wf.nodup, occupied_modify_value arena id f ▸ wf.counted⟩
  obtain ⟨gen, found⟩ := wf.empty i mem
  exact ⟨gen, (slots_modify arena id f i).2 gen found⟩

lemma Issued.modify (issued : arena.Issued other) (id : Handle) (f : α → α) :
    (arena.modify id f).Issued other := by
  rcases issued with live | ⟨slot, found, stale⟩
  · exact .inl (by rwa [contains_modify])
  · have eq := (slots_modify arena id f other.index).1
    rw [found] at eq
    obtain ⟨slot', found', gen⟩ := map_eq_some_iff.mp eq
    exact .inr ⟨slot', found', gen ▸ stale⟩

/-! ## Taking a value out -/

lemma get?_free (arena : Arena α) (id other : Handle) :
    (arena.free id).get? other = if other = id then none else arena.get? other := by
  rw [free]
  split
  next live =>
    obtain ⟨v, found⟩ := contains_iff.mp live
    rw [get?_eq_some] at found
    obtain ⟨i, gen⟩ := id
    obtain ⟨i', gen'⟩ := other
    simp only [get?, Array.getElem?_modify]
    by_cases place : i = i'
    · subst place
      simp only [found]
      by_cases eq : gen = gen' <;> simp [eq, eq_comm]
    · simp [place, Ne.symm place]
  next stale =>
    by_cases eq : other = id
    · rw [eq]
      simpa [contains] using stale
    · rw [if_neg eq]

lemma WellFormed.free (wf : arena.WellFormed) (id : Handle) : (arena.free id).WellFormed := by
  rw [Arena.free]
  split
  next live =>
    obtain ⟨v, found⟩ := contains_iff.mp live
    rw [get?_eq_some] at found
    refine ⟨fun i mem => ?_, nodup_cons.mpr ⟨fun mem => ?_, wf.nodup⟩, ?_⟩
    · by_cases same : i = id.index
      · exact ⟨id.generation + 1, by simp [Array.getElem?_modify, same, found]⟩
      · have rest : i ∈ arena.vacant := (mem_cons.mp mem).resolve_left same
        obtain ⟨gen, empty⟩ := wf.empty i rest
        exact ⟨gen, by simp [Array.getElem?_modify, Ne.symm same, empty]⟩
    · obtain ⟨gen, empty⟩ := wf.empty id.index mem
      rw [found] at empty
      cases empty
    · have counted := wf.counted
      rw [occupied_modify found]
      exact Nat.sub_le_sub_right counted 1
  next => exact wf

lemma Issued.free (issued : arena.Issued other) (id : Handle) : (arena.free id).Issued other := by
  by_cases same : other = id
  · subst same
    rw [Arena.free]
    split
    next live =>
      obtain ⟨v, found⟩ := contains_iff.mp live
      rw [get?_eq_some] at found
      exact .inr ⟨⟨other.generation + 1, none⟩, by
        simp [Array.getElem?_modify, found], Nat.lt_succ_self _⟩
    next => exact issued
  · rcases issued with live | ⟨slot, found, stale⟩
    · exact .inl (by rwa [contains, get?_free, if_neg same])
    · rw [Arena.free]
      split
      next =>
        by_cases place : id.index = other.index
        · exact .inr ⟨⟨slot.generation + 1, none⟩, by simp [Array.getElem?_modify, place, found],
            Nat.lt_succ_of_lt stale⟩
        · exact .inr ⟨slot, by simp [Array.getElem?_modify, place, found], stale⟩
      next => exact .inr ⟨slot, found, stale⟩

/-! ## New values -/

/-- A new handle was never issued, and stands for the new value alone. -/
lemma alloc_facts (wf : arena.WellFormed) (v : α) :
    (arena.alloc v).2.WellFormed ∧ ¬arena.Issued (arena.alloc v).1 ∧
      (∀ other, (arena.alloc v).2.get? other =
        if other = (arena.alloc v).1 then some v else arena.get? other) ∧
      ∀ other, arena.Issued other → (arena.alloc v).2.Issued other := by
  rw [alloc]
  cases vacant : arena.vacant with
  | nil =>
    have old : ∀ (i : Nat) (slot : Slot α), arena.slots[i]? = some slot →
        (arena.slots.push ⟨0, some v⟩)[i]? = some slot := by
      intro i slot found
      have inside : i < arena.slots.size := (Array.getElem?_eq_some_iff.mp found).1
      simp [getElem?_push, Nat.ne_of_lt inside, found]
    have counted : occupied (arena.slots.push ⟨0, some v⟩) ≤ arena.size + 1 := by
      have counted := wf.counted
      rw [occupied, Array.toList_push, List.countP_append]
      exact Nat.add_le_add_right counted 1
    refine ⟨⟨by simp, by simp, counted⟩, ?_, ?_, ?_⟩
    · rintro (live | ⟨slot, found, -⟩)
      · simp [contains, get?] at live
      · simp at found
    · rintro ⟨i, gen⟩
      by_cases last : i = arena.slots.size
      · subst last
        by_cases first : gen = 0 <;> simp [get?, first, eq_comm]
      · simp [get?, getElem?_push, last]
    · rintro other (live | ⟨slot, found, stale⟩)
      · obtain ⟨content, found⟩ := contains_iff.mp live
        rw [get?_eq_some] at found
        exact .inl (contains_iff.mpr ⟨content, get?_eq_some.mpr (old _ _ found)⟩)
      · exact .inr ⟨slot, old _ _ found, stale⟩
  | cons i rest =>
    obtain ⟨gen, empty⟩ := wf.empty i (vacant ▸ mem_cons_self)
    have others : i ∉ rest ∧ rest.Nodup := nodup_cons.mp (vacant ▸ wf.nodup)
    simp only [empty, map_some, getD_some]
    refine ⟨⟨fun place mem => ?_, others.2, ?_⟩, ?_, ?_, ?_⟩
    · have different : i ≠ place := by
        rintro rfl
        exact others.1 mem
      obtain ⟨old, found⟩ := wf.empty place (vacant ▸ mem_cons_of_mem _ mem)
      exact ⟨old, by simp [Array.getElem?_modify, different, found]⟩
    · rw [occupied_modify empty]
      exact Nat.add_le_add_right wf.counted 1
    · rintro (live | ⟨slot, found, stale⟩)
      · simp [contains, get?, empty] at live
      · rw [empty] at found
        cases found
        exact Nat.lt_irrefl _ stale
    · rintro ⟨place, issue⟩
      by_cases same : i = place
      · subst same
        by_cases current : gen = issue <;>
          simp [get?, Array.getElem?_modify, empty, current, eq_comm]
      · simp [get?, Array.getElem?_modify, same, Ne.symm same]
    · rintro other (live | ⟨slot, found, stale⟩)
      · obtain ⟨content, found⟩ := contains_iff.mp live
        rw [get?_eq_some] at found
        have different : i ≠ other.index := by
          rintro rfl
          rw [empty] at found
          cases found
        refine .inl (contains_iff.mpr ⟨content, get?_eq_some.mpr ?_⟩)
        simp [Array.getElem?_modify, different, found]
      · by_cases same : i = other.index
        · rw [← same, empty] at found
          cases found
          exact .inr ⟨⟨gen, some v⟩, by simp [Array.getElem?_modify, ← same, empty], stale⟩
        · exact .inr ⟨slot, by simp [Array.getElem?_modify, same, found], stale⟩

/-! ## All values -/

lemma mem_toList : (id, v) ∈ arena.toList ↔ arena.get? id = some v := by
  obtain ⟨i, gen⟩ := id
  rw [get?_eq_some, toList, List.mem_filterMap]
  constructor
  · rintro ⟨⟨slot, place⟩, mem, found⟩
    obtain ⟨content, stored, equal⟩ := map_eq_some_iff.mp found
    cases equal
    have listed := mem_zipIdx' mem
    rw [Array.getElem?_eq_some_iff]
    refine ⟨by simpa using listed.1, ?_⟩
    have eq := listed.2
    simp only [getElem_toList] at eq
    rw [← eq, ← stored]
  · intro found
    refine ⟨(⟨gen, some v⟩, i), ?_, by simp⟩
    rw [List.mk_mem_zipIdx_iff_getElem?]
    simpa using found

lemma length_toList : arena.toList.length = occupied arena.slots := by
  rw [toList, length_filterMap_eq_countP, occupied]
  simp only [isSome_map]
  generalize arena.slots.toList = slots
  generalize 0 = start
  induction slots generalizing start with
  | nil => rfl
  | cons slot slots ih => rw [zipIdx_cons, countP_cons, countP_cons, ih]

lemma WellFormed.length_le (wf : arena.WellFormed) {ids : List Handle} (once : ids.Nodup)
    (live : ∀ id ∈ ids, arena.contains id) : ids.length ≤ arena.size := by
  have listed : ids ⊆ arena.toList.map Prod.fst := by
    intro id mem
    obtain ⟨v, found⟩ := contains_iff.mp (live id mem)
    exact mem_map.mpr ⟨(id, v), mem_toList.mpr found, rfl⟩
  calc ids.length ≤ (arena.toList.map Prod.fst).length := (once.subperm listed).length_le
    _ = occupied arena.slots := by rw [length_map, length_toList]
    _ ≤ arena.size := wf.counted

end Blockflow.Arena
