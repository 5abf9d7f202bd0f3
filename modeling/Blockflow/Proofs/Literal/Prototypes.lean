import Blockflow.Proofs.Ty.Sizes

/-!
# Prototypes

A type literal stands for the zero value of its type, which has as many values as the type has
cells. Vectors are checked before and structs after they are made, so that no literal makes a value
of more than `maxValueCells` values.
-/

namespace Blockflow

open List Effect Layout Store

mutual

/-- How many values there are in a value, with itself and all nested ones. -/
def Value.count : Value → Nat
  | ⟨_, elements, _, _, _⟩ => Value.countAll elements + 1

def Value.countAll : List Value → Nat
  | [] => 0
  | v :: vs => v.count + Value.countAll vs

end

lemma countAll_const (same : ∀ v ∈ vs, v.count = n) : Value.countAll vs = n * vs.length := by
  induction vs with
  | nil => rfl
  | cons v vs ih =>
    obtain ⟨first, rest⟩ := forall_mem_cons.mp same
    rw [Value.countAll, first, ih rest, length_cons, Nat.mul_succ, Nat.add_comm]

lemma times_facts (same : ∀ s, (make s).1.count = n) (before : ∀ v ∈ made, v.count = n)
    (count : Nat) (s : Store) :
    (∀ v ∈ (times make made count s).1, v.count = n) ∧ (times make made count s).1.length =
      made.length + count := by
  induction count generalizing made s with
  | zero => exact ⟨before, rfl⟩
  | succ count ih =>
    obtain ⟨all, length⟩ := ih (forall_mem_cons.mpr ⟨same s, before⟩) (make s).2
    exact ⟨all, length.trans (by rw [length_cons]; omega)⟩

mutual

lemma count_zero (ty : Ty) (s : Store) : (zero ty s).1.count = ty.values := by
  match ty with
  | ⟨_, .struct fields _, _, _, _⟩ =>
    exact congrArg (· + 1) (countAll_zeros fields s)
  | ⟨_, .vector element count _, _, _, _⟩ =>
    obtain ⟨all, length⟩ :=
      times_facts (count_zero element) (fun _ mem => absurd mem not_mem_nil) count s
    have total : Value.countAll (times (zero element) [] count s).1.reverse =
        element.values * count := by
      rw [countAll_const fun v mem => all v (mem_reverse.mp mem), length_reverse,
        length, length_nil,
        Nat.zero_add]
    exact congrArg (· + 1) total
  | ⟨_, .primitive _, _, _, _⟩ | ⟨_, .pointer _ _, _, _, _⟩ | ⟨_, .function _ _, _, _, _⟩ =>
    rfl

lemma countAll_zeros (tys : List Ty) (s : Store) :
    Value.countAll (zeros tys s).1 = Ty.valuesOf tys := by
  match tys with
  | [] =>
    rfl
  | ty :: tys =>
    show (zero ty s).1.count + Value.countAll (zeros tys (zero ty s).2).1 = _
    rw [count_zero ty s, countAll_zeros tys, Ty.valuesOf]

end

namespace Literal

variable {heap : Heap} {s : Store} (text : String)

lemma parseKind_small (tag : String) (start : Asked (heap, s) (heap, s)) :
    (parseKind tag text).Ends s (fun v _ => v.count ≤ maxValueCells) fun _ t =>
      ∃ heap, Asked (heap, t) (heap, t) := by
  have single : ∀ {α : Type} (result : Except Diagnostic α) (make : α → StateM Store Value),
      (∀ a s, (make a s).1.count = 1) → (ofExcept result >>= fun a => ofState (make a)).Ends s
        (fun v _ => v.count ≤ maxValueCells) fun _ t => ∃ heap, Asked (heap, t) (heap, t) := by
    intro α result make one
    cases result with
    | ok a =>
      show (make a s).1.count ≤ maxValueCells
      rw [one]
      decide
    | error d => exact ⟨heap, start⟩
  rw [parseKind.eq_def]
  split
  · exact single _ _ fun _ _ => rfl
  · exact single _ (fun x : Float => float x.toBits) fun _ _ => rfl
  · exact single _ _ fun _ _ => rfl
  · exact single _ _ fun _ _ => rfl
  · exact single _ _ fun _ _ => rfl
  · refine .bind ((parseType_laid Lays.layering text (heap, s) start).imp ?_ ?_)
    · rintro ty t ⟨heap, -, ⟨⟨-, built⟩, -⟩, few⟩
      have exact := built.cells_eq
      have room : maxValueCells < maxCells := by decide
      show (zero ty t).1.count ≤ _
      rw [count_zero]
      rw [saturateCells] at exact
      omega
    · rintro d t ⟨heap, asked⟩
      exact ⟨heap, .refl _, .refl _, rfl, asked.fits, asked.sound⟩
  · exact ⟨heap, start⟩

lemma tryKinds_small (kinds : List String) (failure : Option Diagnostic)
    (start : Asked (heap, s) (heap, s)) :
    ∀ v, (tryKinds text failure kinds s).1 = .ok v → v.count ≤ maxValueCells := by
  induction kinds generalizing failure heap s with
  | nil => exact fun _ found => by cases found
  | cons tag rest ih =>
    have ends := parseKind_small text tag start
    rw [tryKinds_cons]
    rcases outcome : (parseKind tag text).run s with ⟨d | v, t⟩
    · obtain ⟨_, next⟩ := ends.of_error outcome
      exact ih (some d) next
    · intro other found
      cases found
      exact ends.of_ok outcome

/-- No literal makes a value of too many values. -/
lemma parse_small (tag : String) (start : Asked (heap, s) (heap, s))
    (ran : (parse tag text).run s = (.ok v, t)) : v.count ≤ maxValueCells := by
  rw [parse] at ran
  split at ran
  · rw [parseAuto_eq] at ran
    obtain ⟨found, u, tried, ran⟩ := run_bind_eq_ok.mp ran
    cases found with
    | error failure => cases ran
    | ok other =>
      cases ran
      exact tryKinds_small text kinds none start v (Except.ok.inj (congrArg Prod.fst tried))
  · exact (parseKind_small text tag start).of_ok ran

end Literal

/-- The zero value of a type has as many values as the type has cells, unless the count left its
range; and a value that a literal stands for has at most `maxValueCells`. -/
theorem prototypes_bounded {kept : Ty → Prop} {start store : Store} {events : List TypeEvent}
    (past : Past kept start)
    (log : TypeLog kept start store events) :
    (∀ ty s, Held kept events ty → ty.cells < maxCells → (zero ty s).1.count = ty.cells) ∧
      ∀ tag text value later, (Literal.parse tag text).run store = (.ok value, later) →
      value.count ≤ 1 <<< 20 := by
  obtain ⟨_, before⟩ := past.accounts
  obtain ⟨heap, accounts⟩ := log.accounts before
  refine ⟨fun ty s held inside => ?_, fun tag text value later ran =>
    Literal.parse_small text tag accounts.asked ran⟩
  have exact := (accounts.known held).2.cells_eq
  rw [saturateCells] at exact
  rw [count_zero]
  omega

/-- What an action answers that answers a value with a property. -/
lemma answers_of_any {outcome : Except Diagnostic α × Store}
    (any : outcome.1.toOption.any p = true) :
    ∃ v later, outcome = (.ok v, later) ∧ p v = true := by
  obtain ⟨d | v, later⟩ := outcome
  · cases any
  · exact ⟨v, later, rfl, any⟩

/-- A literal for a nested vector, and its type. -/
theorem nested_prototype_bounded : ∃ ty store value later,
    (Literal.parseType "[[i8; 2]; 3]").run {} = (.ok ty, store) ∧ (zero ty store).1.count = 10 ∧
      (Literal.parse "type" "[[i8; 2]; 3]").run {} = (.ok value, later) ∧
      value.count ≤ 1 <<< 20 := by
  obtain ⟨ty, store, named, few⟩ : ∃ ty store,
      (Literal.parseType "[[i8; 2]; 3]").run {} = (.ok ty, store) ∧ (ty.cells == 10) = true :=
    answers_of_any (by decide +kernel)
  obtain ⟨value, later, ran, -⟩ : ∃ value later,
      (Literal.parse "type" "[[i8; 2]; 3]").run {} = (.ok value, later) ∧
      (fun _ => true) value = true :=
    answers_of_any (by decide +kernel)
  have log : TypeLog (fun _ => False) {} store [.made ty.shape ty] := TypeLog.start.read _ named
  have cells : ty.cells = 10 := by simpa using few
  have exact :=
    (prototypes_bounded .new log).1 ty store (.made mem_cons_self) (by rw [cells]; decide)
  exact ⟨ty, store, value, later, named, exact.trans cells, ran,
    (prototypes_bounded .new .start).2 _ _ _ _ ran⟩

end Blockflow
