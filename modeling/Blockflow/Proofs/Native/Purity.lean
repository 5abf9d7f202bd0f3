import Blockflow.Native.Operators
import Blockflow.Proofs.Store.Agreement
import Mathlib.Data.Option.Basic

/-!
# Pure natives

A native is pure if its outcome depends on its inputs only: called again in any later store, on
inputs that differ at most in their buffers, it ends the same way. All built-in operators and
natives are pure.
-/

namespace Blockflow

open Value List Operators Native Effect

open Value (Alike AllAlike)

/-- The outcome and whether the native takes operands depend on nothing but the inputs, and on those
without their buffers. -/
structure Native.Pure (native : Native) : Prop where
  call : ∀ {vs vs' : List Value}, AllAlike vs vs' →
    Store.Agree Alike (native.call vs) (native.call vs')
  accepts : ∀ vs : List Value, native.accepts (vs.map bare) = native.accepts vs

def Methods.All (P : Native → Prop) (ms : Methods) : Prop :=
  ∀ entry ∈ ms.tables, ∀ method ∈ entry.2, P method.2

abbrev Methods.Pure (ms : Methods) : Prop := ms.All Native.Pure

/-- What is found takes the operands, the first of them taken apart if it can be. -/
lemma Methods.lookupFrom_facts {ms : Methods} {name : String} {rest : List Value} {first : Value}
    {found : Native × List Value} (isFound : ms.lookupFrom name rest first = some found) :
    ∃ ty operand, ms.find? ty name = some found.1 ∧ found.2 = operand :: rest ∧
      found.1.arity.accepts found.2.length ∧ found.1.accepts found.2 ∧
      (first.ty.wrapped? = none → operand = first) := by
  match first with
  | ⟨ty, elements, data, scalar, buffer⟩ =>
    rw [lookupFrom.eq_def] at isFound
    dsimp only at isFound
    split at isFound
    next native known =>
      cases isFound
      obtain ⟨known, takes⟩ := Option.filter_eq_some_iff.mp known
      obtain ⟨arity, accepts⟩ := Bool.and_eq_true_iff.mp takes
      exact ⟨ty, _, known, rfl, arity, accepts, fun _ => rfl⟩
    next =>
      cases wrapped : ty.wrapped? with
      | none =>
        rw [wrapped] at isFound
        cases isFound
      | some _ =>
        rw [wrapped] at isFound
        match elements with
        | [] => cases isFound
        | inner :: others =>
          obtain ⟨ty, operand, known, isList, arity, accepts, -⟩ := lookupFrom_facts isFound
          exact ⟨ty, operand, known, isList, arity, accepts, fun none => by cases none⟩

/-- A method that implements an operator is found for the operands, or for the swapped ones. -/
lemma Methods.lookup_of_resolve {ms : Methods} {vs : List Value}
    {found : Native × List Value} (resolved : ms.resolve names vs = .ok found) :
    ∃ name args, (args = vs ∨ swapped? vs = some args) ∧ ms.lookup name args = some found := by
  rw [resolve] at resolved
  split at resolved
  next direct =>
    cases resolved
    rcases (Option.orElse_eq_some ..).mp direct with first | ⟨-, reversed⟩
    · obtain ⟨name, -, known⟩ := exists_of_findSome?_eq_some first
      exact ⟨name, vs, .inl rfl, known⟩
    · obtain ⟨args, isSwapped, second⟩ := Option.bind_eq_some_iff.mp reversed
      obtain ⟨name, -, known⟩ := exists_of_findSome?_eq_some second
      exact ⟨_, args, .inr isSwapped, known⟩
  next => cases resolved

namespace Methods.All

variable {P : Native → Prop} {ms : Methods} {name : String} {native : Native}
  {found : Native × List Value}

lemma find? (all : ms.All P) {ty : Ty} (found : ms.find? ty name = some native) : P native := by
  rw [Methods.find?, Methods.table] at found
  cases known : ms.tables.lookup ty.id with
  | none =>
    rw [known] at found
    cases found
  | some table =>
    rw [known] at found
    exact all _ (lookup_mem known) _ (lookup_mem found)

lemma lookup (all : ms.All P) (isFound : ms.lookup name vs = some found) : P found.1 := by
  cases vs with
  | nil => cases isFound
  | cons first rest =>
    obtain ⟨ty, operand, known, -⟩ := lookupFrom_facts isFound
    exact all.find? known

lemma resolve (all : ms.All P) (resolved : ms.resolve names vs = .ok found) : P found.1 := by
  obtain ⟨name, args, -, known⟩ := lookup_of_resolve resolved
  exact all.lookup known

lemma define (all : ms.All P) (ty : Ty) (name : String) (holds : P native) :
    (ms.define ty name native).All P := by
  intro entry mem method among
  rcases mem_cons.mp mem with rfl | mem
  · rcases mem_cons.mp among with rfl | among
    · exact holds
    · have known := (mem_filter.mp among).1
      rw [Methods.table] at known
      cases found : ms.tables.lookup ty.id with
      | none =>
        rw [found] at known
        cases known
      | some table =>
        rw [found] at known
        exact all _ (lookup_mem found) method known
  · exact all entry (mem_filter.mp mem).1 method among

lemma defineAll (all : ms.All P) (ty : Ty) {natives : List Native}
    (hold : ∀ native ∈ natives, P native) :
    (defineAll ms ty natives).All P := by
  induction natives generalizing ms with
  | nil => exact all
  | cons native natives ih =>
    exact ih (all.define ty native.name (hold native mem_cons_self)) fun other mem =>
      hold other (mem_cons_of_mem _ mem)

/-- What holds of the methods of built-in types holds of all methods, once they are installed. -/
lemma install (all : ms.All P) (store : Store)
    (hold : ∀ natives ∈ [intMethods, floatMethods, boolMethods, textMethods,
      labelMethods], ∀ native ∈ natives, P native) : (install ms store).1.All P := by
  simp only [forall_mem_cons] at hold
  obtain ⟨ints, floats, bools, texts, labels, -⟩ := hold
  exact ((((all.defineAll _ ints).defineAll _ floats).defineAll _ bools).defineAll _
    texts).defineAll _ labels

end Methods.All

namespace Methods.Pure

variable {ms : Methods} {vs vs' : List Value}

lemma impartial (arePure : ms.Pure) : ms.Impartial :=
  fun _ _ _ found => (arePure.find? found).accepts

/-- The same native is found for operands that differ at most in their buffers. -/
lemma resolve_same (arePure : ms.Pure) (names : List String) (alike : AllAlike vs vs') :
    SameOutcome (fun found found' : Native × List Value => found'.1 = found.1 ∧ found.1.Pure ∧
      AllAlike found.2 found'.2)
      (ms.resolve names vs) (ms.resolve names vs') := by
  refine .of_ok (fun found resolved => ?_) fun found resolved => ?_
  · obtain ⟨args, resolved', alike'⟩ := resolve_alike arePure.impartial alike resolved
    exact ⟨_, resolved', rfl, arePure.resolve resolved, alike'⟩
  · obtain ⟨args, resolved', -⟩ := resolve_alike arePure.impartial alike.symm resolved
    exact ⟨_, resolved'⟩

/-- An operator ends the same way on operands that differ at most in their buffers. -/
lemma dispatch (arePure : ms.Pure) (names : List String) (alike : AllAlike vs vs') :
    Store.Agree Alike (ms.dispatch names vs) (ms.dispatch names vs') := by
  rw [Methods.dispatch]
  refine .afterSame (arePure.resolve_same names alike) ?_
  rintro ⟨native, args⟩ ⟨_, args'⟩ ⟨rfl, isPure, alike'⟩
  exact isPure.call alike'

end Methods.Pure

/-! ## Inputs without buffers -/

namespace Arguments

variable (name : String) (vs : List Value) (i : Nat)

lemma get_bare :
    (⟨name, vs.map bare⟩ : Arguments).get i = ((⟨name, vs⟩ : Arguments).get i).map bare := by
  rw [get, get, getElem?_map]
  cases vs[i]? <;> rfl

lemma expect_bare (what : String) {read : Value → Option α}
    (same : ∀ v : Value, read v.bare = read v) :
    (⟨name, vs.map bare⟩ : Arguments).expect what read i =
      (⟨name, vs⟩ : Arguments).expect what read i := by
  rw [expect, expect, get_bare]
  cases (⟨name, vs⟩ : Arguments).get i with
  | error d => rfl
  | ok v =>
    simp only [Except.map, Bind.bind, Except.bind, same, ty_bare]

end Arguments

/-! ## Built-in natives -/

namespace Native.Pure

lemma of_body {native : Native} (respects : ∀ vs : List Value,
      native.body ⟨native.name, vs.map bare⟩ = native.body ⟨native.name, vs⟩)
    (steady : ∀ args, Store.Agree Alike (native.body args) (native.body args))
    (accepts : ∀ vs : List Value, native.accepts (vs.map bare) = native.accepts vs) :
    native.Pure where
  call {vs vs'} alike := by
    have eq : native.body ⟨native.name, vs'⟩ = native.body ⟨native.name, vs⟩ := by
      rw [← respects vs', ← respects vs, show vs.map bare = vs'.map bare from alike]
    rw [Native.call, Native.call, eq]
    exact (steady _).mapFailure failure
  accepts := accepts

variable {α β : Type} {name : String} {count : Nat} {accepts : List Value → Bool}

/-- A reading of the inputs that does not depend on buffers. -/
def Respects (read : Arguments → Except Diagnostic α) : Prop :=
  ∀ name (vs : List Value), read ⟨name, vs.map bare⟩ = read ⟨name, vs⟩

lemma of_read {read : Arguments → Except Diagnostic α} {next : α → Action Value}
    (respects : Respects read)
    (steady : ∀ a, Store.Agree Alike (next a) (next a)) :
    (ofArity name count fun args => do next (← read args)).Pure :=
  of_body (fun vs => by
    simp only [ofArity, respects name vs]) (fun args => .after (read args) steady) fun _ => rfl

lemma of_reads {next : α → β → Action Value} (respects : Respects first)
    (respects' : Respects second)
    (steady : ∀ a b, Store.Agree Alike (next a b) (next a b))
    (impartial : ∀ vs : List Value, accepts (vs.map bare) = accepts vs) :
    ((ofArity name count fun args => do
      next (← first args) (← second args)).accepting accepts).Pure :=
  of_body (fun vs => by simp only [accepting, ofArity, respects name vs, respects' name vs])
    (fun args => .after (first args) fun a => .after (second args) (steady a)) impartial

end Native.Pure

namespace Operators

open Native.Pure (of_read of_reads Respects)

variable (p : Primitive) (vs : List Value) (i : Nat)

lemma isPrimitive_bare (v : Value) : v.bare.isPrimitive p = v.isPrimitive p := by
  rw [isPrimitive, isPrimitive, ty_bare]

lemma allAre_bare : allAre p (vs.map bare) = allAre p vs := by
  simp [allAre, all_map, Function.comp_def, isPrimitive_bare]

lemma floatFirst_bare : floatFirst (vs.map bare) = floatFirst vs := by
  match vs with
  | [] | [_] | [_, _] | _ :: _ :: _ :: _ => simp [floatFirst, isNumber, isPrimitive_bare]

lemma allTexts_bare : allTexts (vs.map bare) = allTexts vs := by
  simp [allTexts, all_map, Function.comp_def, text?_bare]

lemma int_respects : Respects (·.int i) := fun name vs =>
  Arguments.expect_bare name vs i _ int?_bare

lemma float_respects : Respects (·.float i) := fun name vs =>
  Arguments.expect_bare name vs i _ fun v => by rw [floatWord?_bare, int?_bare]

lemma bool_respects : Respects (·.bool i) := fun name vs =>
  Arguments.expect_bare name vs i _ bool?_bare

lemma text_respects : Respects (·.text i) := fun name vs =>
  Arguments.expect_bare name vs i _ text?_bare

lemma intOr_agree (result : Option Int) (problem : Problem) : Store.Agree Alike (match result with
      | some n => ofState (Store.int n)
      | none => .refuse problem) (match result with
      | some n => ofState (Store.int n)
      | none => .refuse problem) := by
  cases result with
  | some n => exact Store.int_agree n
  | none => exact .fail _ _

lemma intMethods_pure : ∀ native ∈ intMethods, native.Pure := by
  intro native mem
  simp only [intMethods, mem_append, mem_map, mem_singleton] at mem
  rcases mem with (⟨⟨name, apply⟩, -, rfl⟩ | ⟨⟨name, compare⟩, -, rfl⟩) | rfl
  · exact of_reads (int_respects 0) (int_respects 1) (fun a b => intOr_agree (apply a b) _)
      (allAre_bare .i64)
  · exact of_reads (int_respects 0) (int_respects 1) (fun a b => Store.bool_agree _)
      (allAre_bare .i64)
  · exact of_read (int_respects 0) fun a => intOr_agree (checked (-a)) _

lemma bothWays_pure {name : String}
    (steady : ∀ a b, Store.Agree Alike (ofState (result a b)) (ofState (result a b))) :
    ∀ native ∈ bothWays name result, native.Pure := by
  rw [bothWays, forall_mem_cons, forall_mem_singleton]
  exact ⟨of_reads (float_respects 0) (float_respects 1) steady floatFirst_bare,
    of_reads (float_respects 1) (float_respects 0) steady floatFirst_bare⟩

lemma floatMethods_pure : ∀ native ∈ floatMethods, native.Pure := by
  intro native mem
  simp only [floatMethods, mem_append, mem_flatMap, mem_singleton] at mem
  rcases mem with (⟨⟨name, apply⟩, -, among⟩ | ⟨⟨name, compare⟩, -, among⟩) | rfl
  · exact bothWays_pure (fun a b => Store.float_agree _) native among
  · exact bothWays_pure (fun a b => Store.bool_agree _) native among
  · exact of_read (float_respects 0) fun _ => Store.float_agree _

lemma boolMethods_pure : ∀ native ∈ boolMethods, native.Pure := by
  intro native mem
  simp only [boolMethods, mem_append, mem_map, mem_singleton] at mem
  rcases mem with ⟨⟨name, apply⟩, -, rfl⟩ | rfl
  · exact of_reads (bool_respects 0) (bool_respects 1) (fun a b => Store.bool_agree _)
      (allAre_bare .bool)
  · exact of_read (bool_respects 0) fun _ => Store.bool_agree _

lemma textMethods_pure : ∀ native ∈ textMethods, native.Pure := by
  intro native mem
  simp only [textMethods, mem_cons, mem_map] at mem
  rcases mem with rfl | ⟨⟨name, compare⟩, -, rfl⟩
  · exact of_reads (text_respects 0) (text_respects 1) (fun a b => Store.text_agree _) allTexts_bare
  · exact of_reads (text_respects 0) (text_respects 1) (fun a b => Store.bool_agree _) allTexts_bare

lemma labelMethods_pure : ∀ native ∈ labelMethods, native.Pure := by
  intro native mem
  simp only [labelMethods, mem_map] at mem
  obtain ⟨⟨name, wanted⟩, -, rfl⟩ := mem
  refine .of_body (fun vs => ?_) (fun args => .after _ fun a => .after _ fun b =>
    Store.bool_agree _)
    (allAre_bare .label)
  simp only [accepting, ofArity, Arguments.get_bare]
  cases (⟨name, vs⟩ : Arguments).get 0 with
  | error d => rfl
  | ok a =>
    cases (⟨name, vs⟩ : Arguments).get 1 with
    | error d => rfl
    | ok b =>
      show (do
        let eq := a.bare.scalar == b.bare.scalar
        ofState (Store.bool (eq == wanted)) : Action Value) = _
      rw [scalar_bare, scalar_bare]
      rfl

lemma natives_pure : ∀ native ∈ natives, native.Pure := by
  rw [natives, forall_mem_cons, forall_mem_singleton]
  refine ⟨.of_body (fun vs => ?_) (fun args => .after _ fun v => Store.int_agree _) fun _ => rfl,
    .of_body (fun vs => ?_) (fun args => ?_) fun _ => rfl⟩
  · simp only [len, ofArity, Arguments.get_bare]
    cases (⟨"len", vs⟩ : Arguments).get 0 with
    | error d => rfl
    | ok v =>
      have given : ∀ (v : Value) (next : Value → Action Value),
          (liftM (Except.ok v : Except Diagnostic Value) >>= next) = next v := fun _ _ => rfl
      dsimp only [Except.map]
      rw [given, given, text?_bare, elements_bare, length_map]
  · simp [print, Function.comp_def, text_bare]
  · exact .bind (R := fun _ _ => True) (.ofState (.of_types fun _ => rfl) (.of_types fun _ => rfl)
      fun _ _ _ => trivial)
      (fun _ _ _ => Store.pack_agree rfl) (fun _ => .pack []) fun _ => .pack []

lemma methods_pure : ∀ natives ∈ [intMethods, floatMethods, boolMethods, textMethods, labelMethods],
    ∀ native ∈ natives, native.Pure := by
  simp only [forall_mem_cons]
  exact ⟨intMethods_pure, floatMethods_pure, boolMethods_pure, textMethods_pure,
    labelMethods_pure, nofun⟩

lemma install_pure (arePure : ms.Pure) (store : Store) :
    (install ms store).1.Pure := arePure.install store methods_pure

end Operators

end Blockflow
