import Blockflow.Program.Slots
import Blockflow.Proofs.Lookup
import Mathlib.Logic.Relation

/-!
# Forgetting programs

A circuit that is forgotten takes with it every circuit that was built from it, directly or through
others. The rounds that `Slots.invalidate` allows itself are enough for that.
-/

namespace Blockflow.Slots

open List

/-- The circuit has a slot. -/
def Known (slots : Slots) (name : String) : Prop := ∃ slot, slots.names.lookup name = some slot

/-- The program of a known circuit calls another one, or was expanded from it. -/
def BuiltFrom (slots : Slots) (reader name : String) : Prop :=
  ∃ slot, slots.names.lookup reader = some slot ∧ slots.dependsOn slot name

variable {slots slots' : Slots} {name other reader : String} {stale : List String}

lemma BuiltFrom.known (built : slots.BuiltFrom reader name) : slots.Known reader := by
  obtain ⟨slot, found, -⟩ := built
  exact ⟨slot, found⟩

lemma dependsOn_iff : slots.dependsOn slot name ↔
    ∃ prog, slots.program? slot = some prog ∧ (name ∈ prog.callees ∨ name ∈ prog.inlined) := by
  rw [dependsOn]
  cases slots.program? slot <;> simp

/-- What is left of the slots: fewer names, and the same programs. -/
structure Left (slots slots' : Slots) : Prop where
  programs : slots'.programs = slots.programs
  names : ∀ {name slot}, slots'.names.lookup name = some slot → slots.names.lookup name = some slot
  kept : ∀ {name slot}, slots.names.lookup name = some slot → slots'.Known name →
    slots'.names.lookup name = some slot

namespace Left

lemma refl (slots : Slots) : Left slots slots := ⟨rfl, id, fun found _ => found⟩

lemma trans {slots'' : Slots} (first : Left slots slots') (second : Left slots' slots'') :
    Left slots slots'' where
  programs := second.programs.trans first.programs
  names found := first.names (second.names found)
  kept found known := by
    obtain ⟨slot, found'⟩ := known
    exact second.kept (first.kept found ⟨slot, second.names found'⟩) ⟨slot, found'⟩

lemma known (left : Left slots slots') (known : slots'.Known name) : slots.Known name := by
  obtain ⟨slot, found⟩ := known
  exact ⟨slot, left.names found⟩

lemma dependsOn (left : Left slots slots') (slot : Nat) (name : String) :
    slots'.dependsOn slot name = slots.dependsOn slot name := by
  rw [Slots.dependsOn, Slots.dependsOn, program?, program?, left.programs]

end Left

variable {original : Slots}

lemma erase_left (slots : Slots) (name : String) : Left slots (slots.erase name) where
  programs := rfl
  names {other slot} found := by
    rw [erase, lookup_filter_ne] at found
    split at found
    · cases found
    · exact found
  kept {other slot} found known := by
    obtain ⟨slot', found'⟩ := known
    rw [erase, lookup_filter_ne] at found' ⊢
    split at found'
    · cases found'
    next other => rw [if_neg other, found]

lemma erase_known (slots : Slots) (name : String) : ¬(slots.erase name).Known name := by
  rintro ⟨slot, found⟩
  rw [erase, lookup_filter_ne, if_pos rfl] at found
  cases found

/-- Everything built from a circuit that is no longer known is to be forgotten too. -/
def Covered (original slots : Slots) (stale : List String) : Prop :=
  ∀ name reader, original.Known name → ¬slots.Known name → slots.BuiltFrom reader name →
    reader ∈ stale

lemma Covered.drop (covered : Covered original slots (name :: stale))
    (unknown : ¬slots.Known name) : Covered original slots stale := by
  intro other reader was gone built
  rcases mem_cons.mp (covered other reader was gone built) with rfl | mem
  · exact absurd built.known unknown
  · exact mem

lemma Covered.erase (covered : Covered original slots (name :: stale)) :
    Covered original (slots.erase name)
      (((slots.erase name).names.filter fun (_, slot) => (slots.erase name).dependsOn slot name).map
        (·.1)
        ++ stale) := by
  intro other reader was gone built
  rw [mem_append]
  by_cases same : other = name
  · obtain ⟨slot, found, depends⟩ := built
    subst same
    exact .inl (mem_map.mpr ⟨(reader, slot), mem_filter.mpr ⟨lookup_mem found, depends⟩, rfl⟩)
  · have left := erase_left slots name
    have gone' : ¬slots.Known other := by
      rintro ⟨slot, found⟩
      exact gone ⟨slot, by rw [Slots.erase, lookup_filter_ne, if_neg same, found]⟩
    obtain ⟨slot, found, depends⟩ := built
    have built' : slots.BuiltFrom reader other :=
      ⟨slot, left.names found, (left.dependsOn slot other).symm.trans depends⟩
    rcases mem_cons.mp (covered other reader was gone' built') with rfl | mem
    · exact absurd ⟨slot, found⟩ (erase_known slots reader)
    · exact .inr mem

lemma length_erase_lt (known : slots.Known name) :
    (slots.erase name).names.length < slots.names.length := by
  obtain ⟨slot, found⟩ := known
  exact length_filter_lt_length_iff_exists.mpr ⟨(name, slot), lookup_mem found, by simp⟩

/-- The rounds that are left never run out: a round forgets a circuit, which makes room for all
circuits that it may put on the list, or it shortens the list. -/
lemma eraseStale_closed {count fuel : Nat} (small : slots.names.length ≤ count)
    (enough : slots.names.length * (count + 1) + stale.length ≤ fuel)
    (covered : Covered original slots stale) :
    Left slots (slots.eraseStale fuel stale) ∧ Covered original (slots.eraseStale fuel stale) [] ∧
      ∀ name ∈ stale, ¬(slots.eraseStale fuel stale).Known name := by
  induction fuel generalizing slots stale with
  | zero =>
    have empty : stale = [] := length_eq_zero_iff.mp (by omega)
    subst empty
    exact ⟨.refl _, covered, by simp⟩
  | succ fuel ih =>
    cases stale with
    | nil => exact ⟨.refl _, covered, by simp⟩
    | cons name stale =>
      rw [length_cons] at enough
      rw [eraseStale]
      split
      next unknown =>
        have gone : ¬slots.Known name := by
          rintro ⟨slot, found⟩
          rw [found] at unknown
          cases unknown
        obtain ⟨left, closed, forgotten⟩ := ih small (by omega) (covered.drop gone)
        refine ⟨left, closed, fun other mem => ?_⟩
        rcases mem_cons.mp mem with rfl | mem
        · exact fun known => gone (left.known known)
        · exact forgotten other mem
      next known =>
        have isKnown : slots.Known name := Option.isSome_iff_exists.mp (by simpa using known)
        have shorter := length_erase_lt isKnown
        have listed : (((slots.erase name).names.filter fun (_, slot) =>
            (slots.erase name).dependsOn slot name).map (·.1)).length ≤
              (slots.erase name).names.length := by
          rw [length_map]
          exact length_filter_le _ _
        -- the forgotten circuit leaves count + 1 rounds for the new entries
        have room : (slots.erase name).names.length * (count + 1) + (count + 1) ≤
            slots.names.length * (count + 1) := by
          rw [← Nat.succ_mul]
          exact Nat.mul_le_mul_right _ shorter
        obtain ⟨left, closed, forgotten⟩ :=
          ih (by omega) (by rw [length_append]; omega) covered.erase
        refine ⟨(erase_left slots name).trans left, closed, fun other mem => ?_⟩
        rcases mem_cons.mp mem with rfl | mem
        · exact fun known => erase_known slots other (left.known known)
        · exact forgotten other (mem_append_right _ mem)

lemma invalidate_facts (slots : Slots) (name : String) :
    Left slots (slots.invalidate name) ∧ Covered slots (slots.invalidate name) [] ∧
      ¬(slots.invalidate name).Known name := by
  have covered : Covered slots slots [name] := fun _ _ was gone => absurd was gone
  have enough : slots.names.length * (slots.names.length + 1) + [name].length ≤
      (slots.names.length + 1) * (slots.names.length + 1) := by
    rw [Nat.succ_mul, length_singleton]
    omega
  obtain ⟨left, closed, forgotten⟩ := eraseStale_closed (Nat.le_refl _) enough covered
  exact ⟨left, closed, forgotten name mem_cons_self⟩

lemma invalidate_left (slots : Slots) (name : String) : Left slots (slots.invalidate name) :=
  (invalidate_facts slots name).1

lemma invalidate_forgets (slots : Slots) (name : String) : ¬(slots.invalidate name).Known name :=
  (invalidate_facts slots name).2.2

/-- What is still known was built from circuits that are still known, as far as these had slots. -/
lemma BuiltFrom.known_of_invalidate (built : (slots.invalidate name).BuiltFrom reader other)
    (was : slots.Known other) : (slots.invalidate name).Known other := by
  by_contra gone
  exact not_mem_nil ((invalidate_facts slots name).2.1 other reader was gone built)

end Blockflow.Slots
