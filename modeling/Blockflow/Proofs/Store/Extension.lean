import Blockflow.Literal.Basic
import Blockflow.Proofs.Lookup
import Blockflow.Proofs.Outcome

/-!
# Stores that grow

A later store knows all types and labels of an earlier one under the same handles and numbers. All
that makes values only ever extends the store, whether it succeeds or not.
-/

namespace Blockflow

open Effect TypeTable

/-- The later table gives every shape and label that the earlier one knows the same answer. -/
structure TypeTable.Extends (before after : TypeTable) : Prop where
  base : after.base = before.base
  interned : ∀ {key : TypeKey} {ty : Ty}, before.interned.lookup key = some ty →
    after.interned.lookup key = some ty
  labels : before.labels <+: after.labels

namespace TypeTable.Extends

variable {a b c : TypeTable}

lemma refl (a : TypeTable) : a.Extends a := ⟨rfl, fun found => found, List.prefix_refl _⟩

lemma trans (first : a.Extends b) (second : b.Extends c) : a.Extends c :=
  ⟨second.base.trans first.base, fun found => second.interned (first.interned found),
    first.labels.trans second.labels⟩

lemma intern (table : TypeTable) (shape : Shape Ty) : table.Extends (table.intern shape).2 := by
  rw [intern.eq_def]
  split
  · exact refl table
  · dsimp only
    split
    · exact refl table
    next missing =>
      exact ⟨rfl, lookup_cons_of_none missing, List.prefix_refl _⟩

lemma label (table : TypeTable) (name : String) : table.Extends (table.label name).2 := by
  rw [TypeTable.label]
  split
  · exact refl table
  · exact ⟨rfl, fun found => found, List.prefix_append _ _⟩

end TypeTable.Extends

namespace Store

def Extends (before after : Store) : Prop := before.types.Extends after.types

namespace Extends

variable {a b c : Store}

lemma refl (a : Store) : a.Extends a := TypeTable.Extends.refl _

lemma trans (first : a.Extends b) (second : b.Extends c) : a.Extends c :=
  TypeTable.Extends.trans first second

lemma of_types (eq : b.types = a.types) : a.Extends b := by
  rw [Extends, eq]
  exact refl _

end Extends

/-- A computation that only ever extends the store. -/
def Grows {α : Type} (action : Action α) : Prop := ∀ start : Store, action.Keeps start.Extends

namespace Grows

variable {α β : Type} {action : Action α}

lemma of_forall (extends' : ∀ s : Store, s.Extends (action.run s).2) : Grows action :=
  fun _ s before => .intro (fun _ _ ran => before.trans (by simpa [ran] using extends' s))
    fun _ _ ran => before.trans (by simpa [ran] using extends' s)

lemma extends' (grows : Grows action) (s : Store) : s.Extends (action.run s).2 := by
  have ends := grows s s (.refl s)
  rw [Ends] at ends
  rcases outcome : action.run s with ⟨d | a, t⟩ <;> rw [outcome] at ends <;> exact ends

lemma pure (a : α) : Grows (Pure.pure a : Action α) := fun _ => .pure a

lemma fail (d : Diagnostic) : Grows (fail d : Action α) := fun _ _ before => before

lemma ofExcept (result : Except Diagnostic α) : Grows (ofExcept result) := fun _ => .ofExcept result

lemma bind (first : Grows action) (rest : ∀ a, Grows (next a)) : Grows (action >>= next) :=
  fun start => (first start).bind fun a => rest a start

lemma mapFailure (grows : Grows action) :
    Grows (action.mapFailure f) := fun start => (grows start).mapFailure

lemma of_types {action : StateM Store α} (same : ∀ s, (action s).2.types = s.types) :
    Grows (ofState action) := of_forall fun s => .of_types (same s)

lemma withTypes {op : TypeTable → α × TypeTable}
    (extends' : ∀ table : TypeTable, table.Extends (op table).2) :
    Grows (ofState (withTypes op)) := of_forall fun s => extends' s.types

lemma text (content : String) : Grows (ofState (text content)) :=
  of_forall fun s =>
    Extends.intern s.types (.pointer (some (s.types.primitive .u8)) { readOnly := true })

lemma label (name : String) : Grows (ofState (label name)) :=
  of_forall fun s => Extends.label s.types name

lemma pack (vs : List Value) : Grows (ofState (pack vs)) :=
  of_forall fun s => Extends.intern s.types (.struct (vs.map Value.ty) none)

end Grows

/-! ## Zero values and literals -/

lemma types_times (same : ∀ s, (make s).2.types = s.types)
    (made : List Value) (count : Nat) (s : Store) :
    (times make made count s).2.types = s.types := by
  induction count generalizing made s with
  | zero => rfl
  | succ count ih => exact (ih _ _).trans (same s)

mutual

lemma types_zero (ty : Ty) (s : Store) : (zero ty s).2.types = s.types := by
  match ty with
  | ⟨_, .struct fields _, _, _, _⟩ =>
    exact types_zeros fields s
  | ⟨_, .vector element count _, _, _, _⟩ =>
    exact types_times (types_zero element) [] count s
  | ⟨_, .primitive _, _, _, _⟩ | ⟨_, .pointer _ _, _, _, _⟩ | ⟨_, .function _ _, _, _, _⟩ =>
    rfl

lemma types_zeros (tys : List Ty) (s : Store) : (zeros tys s).2.types = s.types := by
  match tys with
  | [] =>
    rfl
  | ty :: tys =>
    exact (types_zeros tys _).trans (types_zero ty s)

end

lemma Grows.zero (ty : Ty) : Grows (ofState (zero ty)) := .of_types (types_zero ty)

end Store

end Blockflow
