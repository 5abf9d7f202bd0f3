import Mathlib.Data.List.Forall2

/-!
# Association lists

How `lookup` sees the ways in which association lists change.
-/

namespace Blockflow

open List

variable {α β : Type} [DecidableEq α] {key other : α} {v result : β} {entries : List (α × β)}

lemma lt_of_getElem? {items : List β} (found : items[i]? = some v) : i < items.length :=
  (List.getElem?_eq_some_iff.mp found).1

lemma forall₂_getElem? {froms : List γ} {items : List β} {i : Nat}
    (pointwise : Forall₂ R froms items) (found : items[i]? = some v) :
    ∃ src, froms[i]? = some src ∧ R src v := by
  obtain ⟨inside, rfl⟩ := List.getElem?_eq_some_iff.mp found
  have inside' : i < froms.length := pointwise.length_eq ▸ inside
  exact ⟨_, getElem?_eq_getElem inside', pointwise.get inside' inside⟩

lemma lookup_cons (key other : α) (v : β) (entries : List (α × β)) :
    ((key, v) :: entries).lookup other =
      if other = key then some v else entries.lookup other := by
  by_cases eq : other = key
  · simp [eq]
  · have different : (other == key) = false := by simpa using eq
    rw [if_neg eq, List.lookup_cons, different]

lemma lookup_cons_cases (found : ((key, v) :: entries).lookup other = some result) :
    other = key ∧ v = result ∨ entries.lookup other = some result := by
  rw [lookup_cons] at found
  split at found
  next eq => exact .inl ⟨eq, Option.some.inj found⟩
  next => exact .inr found

lemma lookup_cons_of_none (missing : entries.lookup key = none)
    (found : entries.lookup other = some result) :
    ((key, v) :: entries).lookup other = some result := by
  rw [lookup_cons, if_neg]
  · exact found
  · rintro rfl
    cases missing.symm.trans found

lemma lookup_snoc_cases (found : (entries ++ [(key, v)]).lookup other = some result) :
    entries.lookup other = some result ∨ entries.lookup other = none ∧ other = key ∧
    v = result := by
  rw [lookup_append] at found
  rcases Option.or_eq_some_iff.mp found with earlier | ⟨unknown, last⟩
  · exact .inl earlier
  · rcases lookup_cons_cases last with new | none
    · exact .inr ⟨unknown, new⟩
    · cases none

lemma lookup_mem (found : entries.lookup key = some v) : (key, v) ∈ entries := by
  obtain ⟨before, after, split, -⟩ := lookup_eq_some_iff.mp found
  simp [split]

lemma lookup_of_mem (nodup : (entries.map Prod.fst).Nodup) (mem : (key, v) ∈ entries) :
    entries.lookup key = some v := by
  induction entries with
  | nil => simp at mem
  | cons entry entries ih =>
    rw [map_cons, nodup_cons] at nodup
    rcases mem_cons.mp mem with rfl | mem
    · exact lookup_cons_self
    · have different : key ≠ entry.1 := by
        rintro rfl
        exact nodup.1 (mem_map.mpr ⟨_, mem, rfl⟩)
      rw [lookup_cons, if_neg different]
      exact ih nodup.2 mem

lemma lookup_filter_ne (key other : α) (entries : List (α × β)) :
    (entries.filter (·.1 != key)).lookup other =
      if other = key then none else entries.lookup other := by
  induction entries with
  | nil => simp
  | cons entry entries ih =>
    by_cases eq : entry.1 = key
    · have dropped : (entry.1 != key) = false := by simp [eq]
      rw [filter_cons, dropped, if_neg (by simp), ih]
      by_cases found : other = key
      · simp [found]
      · rw [if_neg found, if_neg found, lookup_cons, if_neg (eq ▸ found)]
    · have kept : (entry.1 != key) := by simp [eq]
      rw [filter_cons, kept, if_pos rfl, lookup_cons, ih, lookup_cons]
      by_cases found : other = key
      · simp [found, Ne.symm eq]
      · simp [found]

end Blockflow
