import Blockflow.Proofs.Store.Extension
import Blockflow.Proofs.Value.Bare

/-!
# Computations that agree in every later store

A computation may be run again in any store that extends what it left behind. What it makes then
differs at most in its buffers, since types and labels keep their handles and numbers.
-/

namespace Blockflow

open Effect Value TypeTable

/-- Both succeed, with related results, or both fail. -/
inductive SameOutcome {α β : Type} (R : α → β → Prop) :
    Except Diagnostic α → Except Diagnostic β → Prop where
  | ok {a : α} {b : β} (related : R a b) : SameOutcome R (.ok a) (.ok b)
  | error (d d' : Diagnostic) : SameOutcome R (.error d) (.error d')

lemma SameOutcome.of_ok {result : Except Diagnostic α} {result' : Except Diagnostic β}
    (forth : ∀ a, result = .ok a → ∃ b, result' = .ok b ∧ R a b)
    (back : ∀ b, result' = .ok b → ∃ a, result = .ok a) :
    SameOutcome R result result' := by
  cases result with
  | ok a =>
    obtain ⟨b, rfl, related⟩ := forth a rfl
    exact .ok related
  | error d =>
    cases result' with
    | error d' => exact .error d d'
    | ok b =>
      obtain ⟨a, eq⟩ := back b rfl
      cases eq

namespace TypeTable.Extends

variable {table later : TypeTable}

lemma primitive_eq (more : table.Extends later) (p : Primitive) :
    later.primitive p = table.primitive p := by
  rw [primitive, primitive, more.base]

lemma intern_eq (more : (table.intern shape).2.Extends later) :
    (later.intern shape).1 = (table.intern shape).1 := by
  cases shape with
  | primitive p => exact more.primitive_eq p
  | _ =>
    rw [intern.eq_def] at more ⊢
    rw [intern.eq_def table]
    dsimp only at more ⊢
    split at more
    next known => rw [more.interned known]
    next => rw [more.interned (by rw [lookup_cons, if_pos rfl])]

end TypeTable.Extends

namespace Store

variable {α β γ δ : Type} {R : α → β → Prop}

/-- The second computation, in any store that extends what the first one leaves, ends like the
first. -/
structure Agree (R : α → β → Prop) (first : Action α) (second : Action β) : Prop where
  grows : Grows first
  grows' : Grows second
  agree : ∀ s t, (first.run s).2.Extends t → SameOutcome R (first.run s).1 (second.run t).1

namespace Agree

variable {S : γ → δ → Prop} {first : Action α} {second : Action β} {next : γ → Action α}

lemma ofExcept (same : SameOutcome R result result') :
    Agree R (ofExcept result) (ofExcept result') :=
  ⟨.ofExcept _, .ofExcept _, fun _ _ _ => same⟩

lemma same (result : Except Diagnostic α) :
    Agree Eq (Effect.ofExcept result) (Effect.ofExcept result) :=
  ofExcept (by cases result <;> constructor; rfl)

lemma fail (d d' : Diagnostic) : Agree R (fail d) (fail d') :=
  ⟨.fail d, .fail d', fun _ _ _ => .error d d'⟩

lemma bind {next : α → Action γ} {next' : β → Action δ} (begins : Agree R first second)
    (goesOn : ∀ a b, R a b → Agree S (next a) (next' b)) (grows : ∀ a, Grows (next a))
    (grows' : ∀ b, Grows (next' b)) :
    Agree S (first >>= next) (second >>= next') where
  grows := begins.grows.bind grows
  grows' := begins.grows'.bind grows'
  agree s t more := by
    rw [run_bind] at more ⊢
    rw [run_bind]
    rcases one : first.run s with ⟨d | a, u⟩
    · rw [one] at more
      have same := begins.agree s t (by rw [one]; exact more)
      rw [one] at same
      rcases two : second.run t with ⟨d' | b, v⟩ <;> rw [two] at same <;> cases same
      exact .error d d'
    · rw [one] at more
      have kept : u.Extends t := ((grows a).extends' u).trans more
      have same := begins.agree s t (by rw [one]; exact kept)
      rw [one] at same
      rcases two : second.run t with ⟨d' | b, v⟩ <;> rw [two] at same <;> cases same
      next related =>
        have later : t.Extends v := by
          have grown := begins.grows'.extends' t
          rw [two] at grown
          exact grown
        exact (goesOn a b related).agree u v (more.trans later)

lemma afterSame (same : SameOutcome S result result')
    (goesOn : ∀ c d, S c d → Agree R (next c) (next' d)) :
    Agree R (Effect.ofExcept result >>= next) (Effect.ofExcept result' >>= next') := by
  cases same with
  | ok related => exact goesOn _ _ related
  | error d d' => exact .fail d d'

/-- A computation after a result that does not depend on the store. -/
lemma after (result : Except Diagnostic γ) (goesOn : ∀ c, Agree R (next c) (next' c)) :
    Agree R (Effect.ofExcept result >>= next) (Effect.ofExcept result >>= next') :=
  (same result).bind (fun _ c equal => equal ▸ goesOn c) (fun c => (goesOn c).grows) fun c =>
    (goesOn c).grows'

lemma mapFailure (agree : Agree R first second)
    (f : Diagnostic → Diagnostic) : Agree R (first.mapFailure f) (second.mapFailure f) where
  grows := agree.grows.mapFailure
  grows' := agree.grows'.mapFailure
  agree s t more := by
    simp only [Effect.mapFailure] at more ⊢
    have same := agree.agree s t (by
      rcases one : first.run s with ⟨d | a, u⟩ <;> rw [one] at more <;> exact more)
    rcases one : first.run s with ⟨d | a, u⟩ <;> rcases two : second.run t with ⟨d' | b, v⟩ <;>
      rw [one, two] at same <;> cases same
    · exact .error _ _
    · next related => exact .ok related

lemma ofState (grows : Grows (ofState action))
    (grows' : Grows (ofState action'))
    (agree : ∀ s t, (action s).2.Extends t → R (action s).1 (action' t).1) :
    Agree R (ofState action) (ofState action') :=
  ⟨grows, grows', fun s t more => .ok (agree s t more)⟩

end Agree

/-- In every later store the computation succeeds, with a result like the given one. -/
def Answers (R : α → α → Prop) (store : Store) (action : Action α) (a : α) : Prop :=
  ∀ later, store.Extends later → ∃ b t, action.run later = (.ok b, t) ∧ R a b

namespace Answers

variable {R : α → α → Prop} {store later : Store} {action : Action α} {a b : α}

lemma mono (answers : Answers R store action a) (more : store.Extends later) :
    Answers R later action a :=
  fun last more' => answers last (more.trans more')

lemma of_run (agree : Agree R action action) (ran : action.run store = (.ok a, later)) :
    Answers R later action a := by
  intro last more
  have same := agree.agree store last (by rw [ran]; exact more)
  rw [ran] at same
  rcases outcome : action.run last with ⟨d | b, t⟩ <;> rw [outcome] at same <;> cases same
  exact ⟨b, t, rfl, by assumption⟩

lemma not_after (answers : Answers R later action a) (agree : Agree R action action)
    (failed : action.run s = (.error d, t)) (more : t.Extends later) : False := by
  obtain ⟨b, last, ran, -⟩ := answers later (.refl _)
  have same := agree.agree s later (by rw [failed]; exact more)
  rw [failed, ran] at same
  cases same

end Answers

/-! ## Making values -/

open Value (Alike AllAlike)

lemma alike_of_parts {ty : Ty} {elements elements' : List Value} {data : List UInt8}
    {scalar : UInt64} {buffer buffer' : Nat} (alike : AllAlike elements elements') :
    Alike ⟨ty, elements, data, scalar, buffer⟩ ⟨ty, elements', data, scalar, buffer'⟩ := by
  rw [Alike, bare, bare, bareAll_eq, bareAll_eq,
    show elements.map bare = elements'.map bare from alike]

lemma scalar_agree (make : TypeTable → Ty)
    (stable : ∀ {a b : TypeTable}, a.Extends b → make b = make a)
    (word : UInt64) : Agree Alike (ofState fun s => scalar (make s.types) word s)
      (ofState fun s => scalar (make s.types) word s) :=
  .ofState (.of_types fun _ => rfl) (.of_types fun _ => rfl) fun s t more => by
    have kept : s.types.Extends t.types := more
    rw [stable kept]
    exact alike_of_parts rfl

lemma int_agree (n : Int) : Agree Alike (ofState (int n)) (ofState (int n)) :=
  scalar_agree (·.primitive .i64) (fun more => more.primitive_eq _) (UInt64.ofInt n)

lemma float_agree (word : UInt64) : Agree Alike (ofState (float word)) (ofState (float word)) :=
  scalar_agree (·.primitive .f64) (fun more => more.primitive_eq _) word

lemma bool_agree (b : Bool) : Agree Alike (ofState (bool b)) (ofState (bool b)) :=
  scalar_agree (·.primitive .bool) (fun more => more.primitive_eq _) (if b then 1 else 0)

lemma text_agree (content : String) :
    Agree Alike (ofState (text content)) (ofState (text content)) :=
  .ofState (.text content) (.text content) fun s t more => by
    have known : s.types.text.2.Extends t.types := more
    have base : t.types.primitive .u8 = s.types.primitive .u8 :=
      ((Extends.intern _ _).trans known).primitive_eq .u8
    have eq : t.types.text.1 = s.types.text.1 := by
      rw [TypeTable.text] at known ⊢
      rw [base]
      exact known.intern_eq
    show Alike ⟨s.types.text.1, [], _, _, s.nextBuffer⟩ ⟨t.types.text.1, [], _, _, t.nextBuffer⟩
    rw [eq]
    exact alike_of_parts rfl

lemma pack_agree (alike : AllAlike vs vs') : Agree Alike (ofState (pack vs)) (ofState (pack vs')) :=
  .ofState (.pack vs) (.pack vs') fun s t more => by
    have tys : vs'.map ty = vs.map ty := alike.map_ty.symm
    have known : (s.types.structOf (vs.map ty)).2.Extends t.types := more
    have eq : (t.types.structOf (vs'.map ty)).1 = (s.types.structOf (vs.map ty)).1 := by
      rw [tys]
      exact known.intern_eq
    show Alike ⟨(s.types.structOf (vs.map ty)).1, vs, [], _, s.nextBuffer⟩
      ⟨(t.types.structOf (vs'.map ty)).1, vs', [], _, t.nextBuffer⟩
    rw [eq, alike.length_eq]
    exact alike_of_parts alike

end Store

end Blockflow
