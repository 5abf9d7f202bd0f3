import Blockflow.Native.Methods
import Blockflow.Value.Selector
import Mathlib.Tactic.Lemma

/-!
# Values without the identity of their buffers

`Value.bare` forgets which element buffers a value uses. Reading a value, picking a branch with it
and finding the method for it do not depend on buffers.
-/

namespace Blockflow.Value

open List Option

mutual

def bare : Value → Value
  | ⟨ty, elements, data, scalar, _⟩ => ⟨ty, bareAll elements, data, scalar, 0⟩

def bareAll : List Value → List Value
  | [] => []
  | v :: vs => bare v :: bareAll vs

end

variable {a b : Value} {as bs : List Value} {i : Nat}

section

variable (v : Value)

lemma bareAll_eq (vs : List Value) : bareAll vs = vs.map bare := by
  induction vs with
  | nil => rfl
  | cons v vs ih => rw [bareAll, ih, map_cons]

@[simp]
lemma ty_bare : v.bare.ty = v.ty := by
  cases v
  rw [bare]

@[simp]
lemma data_bare : v.bare.data = v.data := by
  cases v
  rw [bare]

@[simp]
lemma scalar_bare : v.bare.scalar = v.scalar := by
  cases v
  rw [bare]

@[simp]
lemma elements_bare : v.bare.elements = v.elements.map bare := by
  cases v
  rw [bare, bareAll_eq]

/-- Values that differ at most in their buffers. -/
def Alike (a b : Value) : Prop := a.bare = b.bare

/-- Lists of values that differ at most in their buffers. -/
def AllAlike (as bs : List Value) : Prop := as.map bare = bs.map bare

lemma Alike.ty_eq (alike : a.Alike b) : a.ty = b.ty := by
  rw [← ty_bare a, alike, ty_bare]

lemma AllAlike.cons (first : a.Alike b) (rest : AllAlike as bs) : AllAlike (a :: as) (b :: bs) := by
  rw [AllAlike, map_cons, map_cons, show a.bare = b.bare from first,
    show as.map bare = bs.map bare from rest]

lemma AllAlike.get (alike : AllAlike as bs) (found : as[i]? = some a) :
    ∃ b, bs[i]? = some b ∧ a.Alike b := by
  have eq := congrArg (·[i]?) (show as.map bare = bs.map bare from alike)
  simp only [getElem?_map, found, map_some] at eq
  obtain ⟨b, found', equal⟩ := map_eq_some_iff.mp eq.symm
  exact ⟨b, found', equal.symm⟩

lemma AllAlike.length_eq (alike : AllAlike as bs) : as.length = bs.length := by
  rw [← length_map bare, alike, length_map]

lemma AllAlike.map_ty (alike : AllAlike as bs) : as.map Value.ty = bs.map Value.ty := by
  have eq := congrArg (map Value.ty) (show as.map bare = bs.map bare from alike)
  simpa [Function.comp_def] using eq

/-! ## Reading values -/

lemma int?_bare : v.bare.int? = v.int? := by simp [int?]

lemma bool?_bare : v.bare.bool? = v.bool? := by
  rw [bool?, bool?, isPrimitive, isPrimitive, ty_bare, scalar_bare]

lemma floatWord?_bare : v.bare.floatWord? = v.floatWord? := by simp [floatWord?]

lemma text?_bare : v.bare.text? = v.text? := by simp [text?]

lemma element_bare (i : Nat) : v.bare.element i = (v.element i).map bare := by
  rw [element, element, elements_bare, getElem?_map, length_map, ty_bare]
  cases v.elements[i]? with
  | some element => rfl
  | none =>
    simp only [map_none]
    split <;> rfl

end

lemma Alike.element (alike : a.Alike b) (found : a.element i = .ok x) :
    ∃ y, b.element i = .ok y ∧ x.Alike y := by
  have eq : (a.element i).map bare = (b.element i).map bare := by
    rw [← element_bare, ← element_bare, show a.bare = b.bare from alike]
  rw [found] at eq
  cases other : b.element i with
  | error d =>
    rw [other] at eq
    cases eq
  | ok y =>
    rw [other] at eq
    exact ⟨y, rfl, Except.ok.inj eq⟩

mutual

lemma writeOnto_bare (v : Value) (written : String) :
    writeOnto written v.bare = writeOnto written v := by
  match v with
  | ⟨ty, elements, data, scalar, buffer⟩ =>
    have text := text?_bare ⟨ty, elements, data, scalar, buffer⟩
    rw [bare] at text ⊢
    rw [writeOnto]
    simp only [writeElements_bare elements]
    rfl

lemma writeElements_bare (elements : List Value) (written : String) (first : Bool)
    (names : Option (List String)) :
    writeElements written first names (bareAll elements) =
      writeElements written first names elements := by
  match elements with
  | [] => rw [bareAll]
  | element :: elements =>
    rw [bareAll, writeElements, writeElements, writeOnto_bare element, writeElements_bare elements]

end

lemma text_bare (v : Value) : v.bare.text = v.text := writeOnto_bare v ""

end Blockflow.Value

/-! ## Selectors -/

namespace Blockflow.Selector

def bare (sel : Selector) : Selector := { sel with payload := sel.payload.bare }

lemma ofInt_bare (path : Int) (payload : Value) :
    ofInt path payload.bare = (ofInt path payload).map bare := by
  rw [ofInt, ofInt]
  split
  · rfl
  · split <;> rfl

lemma ofValue_bare (v : Value) : ofValue v.bare = (ofValue v).map bare := by
  match v with
  | ⟨ty, elements, data, scalar, buffer⟩ =>
    have asBool := Value.bool?_bare ⟨ty, elements, data, scalar, buffer⟩
    have asInt := Value.int?_bare ⟨ty, elements, data, scalar, buffer⟩
    rw [Value.bare] at asBool asInt ⊢
    rw [ofValue.eq_def, ofValue.eq_def]
    dsimp only
    rw [asBool, asInt]
    split
    · simp [Except.map, bare, Value.bare]
    next path _ _ =>
      have picked := ofInt_bare path ⟨ty, elements, data, scalar, buffer⟩
      rwa [Value.bare] at picked
    · split
      · match elements with
        | [] => rfl
        | [_] => rfl
        | path :: payload :: rest =>
          have inner := ofValue_bare path
          simp only [Value.bareAll]
          rw [inner]
          cases ofValue path <;> rfl
      · rfl

lemma ofValue_alike (alike : a.Alike b) (picked : ofValue a = .ok sel) :
    ∃ sel', ofValue b = .ok sel' ∧ sel'.path = sel.path ∧ sel.payload.Alike sel'.payload := by
  have eq : (ofValue a).map bare = (ofValue b).map bare := by
    rw [← ofValue_bare, ← ofValue_bare, show a.bare = b.bare from alike]
  rw [picked] at eq
  cases other : ofValue b with
  | error d =>
    rw [other] at eq
    cases eq
  | ok sel' =>
    rw [other] at eq
    have equal : sel.bare = sel'.bare := Except.ok.inj eq
    exact ⟨sel', rfl, (congrArg Selector.path equal).symm, congrArg Selector.payload equal⟩

end Blockflow.Selector

/-! ## Methods -/

namespace Blockflow.Methods

/-- Whether the methods take values does not depend on buffers. -/
def Impartial (ms : Methods) : Prop :=
  ∀ ty name native, ms.find? ty name = some native →
    ∀ vs, native.accepts (vs.map Value.bare) = native.accepts vs

variable {ms : Methods}

/-- A method and its operands without buffers. -/
def found (entry : Native × List Value) : Native × List Value := (entry.1, entry.2.map Value.bare)

lemma lookupFrom_bare (impartial : ms.Impartial) (name : String) (rest : List Value)
    (first : Value) : ms.lookupFrom name (rest.map Value.bare) first.bare =
      (ms.lookupFrom name rest first).map found := by
  match first with
  | ⟨ty, elements, data, scalar, buffer⟩ =>
    have same : ∀ native, ms.find? ty name = some native →
        (native.arity.accepts
          ((⟨ty, elements, data, scalar, buffer⟩ : Value).bare :: rest.map Value.bare).length &&
          native.accepts
            ((⟨ty, elements, data, scalar, buffer⟩ : Value).bare :: rest.map Value.bare)) =
        (native.arity.accepts ((⟨ty, elements, data, scalar, buffer⟩ : Value) :: rest).length &&
          native.accepts ((⟨ty, elements, data, scalar, buffer⟩ : Value) :: rest)) := by
      intro native known
      rw [← List.map_cons, impartial ty name native known, List.length_map]
    rw [Value.bare] at same ⊢
    rw [lookupFrom.eq_def, lookupFrom.eq_def]
    dsimp only
    have filtered : ((ms.find? ty name).filter fun native =>
          native.arity.accepts
            (⟨ty, Value.bareAll elements, data, scalar, 0⟩ :: rest.map Value.bare).length &&
            native.accepts (⟨ty, Value.bareAll elements, data, scalar, 0⟩ :: rest.map Value.bare)) =
        (ms.find? ty name).filter fun native =>
          native.arity.accepts (⟨ty, elements, data, scalar, buffer⟩ :: rest).length &&
            native.accepts (⟨ty, elements, data, scalar, buffer⟩ :: rest) := by
      cases known : ms.find? ty name with
      | none => rfl
      | some native => rw [Option.filter_some, Option.filter_some, same native known]
    rw [filtered]
    split
    · simp [found, Value.bare]
    · cases ty.wrapped? with
      | none => rfl
      | some _ =>
        match elements with
        | [] => rfl
        | inner :: others =>
          exact lookupFrom_bare impartial name rest inner

lemma lookup_bare (impartial : ms.Impartial) (name : String) (vs : List Value) :
    ms.lookup name (vs.map Value.bare) = (ms.lookup name vs).map found := by
  cases vs with
  | nil => rfl
  | cons first rest => exact lookupFrom_bare impartial name rest first

lemma findSome_bare (impartial : ms.Impartial) (key : String → String) (names : List String)
    (vs : List Value) : (names.findSome? fun name => ms.lookup (key name) (vs.map Value.bare)) =
      (names.findSome? fun name => ms.lookup (key name) vs).map found := by
  induction names with
  | nil => rfl
  | cons name names ih =>
    rw [List.findSome?_cons, List.findSome?_cons, lookup_bare impartial]
    cases ms.lookup (key name) vs with
    | none => exact ih
    | some entry => rfl

lemma swapped?_bare (vs : List Value) :
    swapped? (vs.map Value.bare) = (swapped? vs).map (List.map Value.bare) := by
  match vs with
  | [] | [_] | _ :: _ :: _ => rfl

lemma resolve_bare (impartial : ms.Impartial) (names : List String) (vs : List Value) :
    ms.resolve names (vs.map Value.bare) = (ms.resolve names vs).map found := by
  have direct := findSome_bare impartial id names vs
  have reversed : ((swapped? (vs.map Value.bare)).bind fun args =>
        names.findSome? fun name => ms.lookup ("r" ++ name) args) =
      ((swapped? vs).bind fun args =>
        names.findSome? fun name => ms.lookup ("r" ++ name) args).map found := by
    rw [swapped?_bare]
    cases swapped? vs with
    | none => rfl
    | some args => exact findSome_bare impartial ("r" ++ ·) names args
  have types : ((vs.map Value.bare).take 2).map (fun arg => arg.ty.text) = (vs.take 2).map
      fun arg => arg.ty.text := by
    rw [← List.map_take]
    simp [Function.comp_def]
  simp only [id] at direct
  rw [resolve, resolve]
  rw [direct, reversed, types]
  cases names.findSome? fun name => ms.lookup name vs with
  | some entry => rfl
  | none =>
    cases (swapped? vs).bind fun args => names.findSome? fun name =>
      ms.lookup ("r" ++ name) args with
    | some entry => rfl
    | none => rfl

lemma resolve_alike (impartial : ms.Impartial) (alike : Value.AllAlike vs vs')
    (resolved : ms.resolve names vs = .ok (native, args)) :
    ∃ args', ms.resolve names vs' = .ok (native, args') ∧ Value.AllAlike args args' := by
  have eq : (ms.resolve names vs).map found = (ms.resolve names vs').map found := by
    rw [← resolve_bare impartial, ← resolve_bare impartial,
      show vs.map Value.bare = vs'.map Value.bare from alike]
  rw [resolved] at eq
  cases other : ms.resolve names vs' with
  | error d =>
    rw [other] at eq
    cases eq
  | ok entry =>
    rw [other] at eq
    obtain ⟨native', args'⟩ := entry
    obtain ⟨rfl, equal⟩ := Prod.mk.inj (Except.ok.inj eq)
    exact ⟨args', rfl, equal⟩

end Blockflow.Methods
