import Blockflow.Proofs.Native.Purity
import Mathlib.Data.List.Nodup
import Mathlib.Logic.Relation

/-!
# Operators on wrapped operands

Every attempt to find a method takes its leading operand apart: the first one for the operator
itself, the second one for the reversed operator. No built-in method takes a wrapped operand in the
other place. So a wrapper is transparent where it leads, and hides its operand where it does not.
-/

namespace Blockflow

open List Option Value

namespace Methods

variable {ms : Methods} {name : String} {a b operand wrapper inner : Value} {rest : List Value}

/-- `outer` is a struct with `inner` as its only field, which has no name; the type of `outer` has
no methods. -/
structure Boxes (ms : Methods) (outer inner : Value) : Prop where
  wrapped : outer.ty.wrapped?.isSome
  elements : outer.elements = [inner]
  plain : ∀ name, ms.find? outer.ty name = none

/-- An operand that is boxed once or several times. -/
abbrev Wraps (ms : Methods) : Value → Value → Prop := Relation.TransGen ms.Boxes

lemma Boxes.lookup (boxes : ms.Boxes wrapper inner) :
    ms.lookup name (wrapper :: rest) = ms.lookup name (inner :: rest) := by
  obtain ⟨ty, elements, data, scalar, buffer⟩ := wrapper
  obtain ⟨wrapped, isOnly, plain⟩ := boxes
  obtain ⟨field, isField⟩ := isSome_iff_exists.mp wrapped
  cases isOnly
  simp only [lookup]
  rw [lookupFrom.eq_def]
  simp only [plain, filter_none, isField]

lemma Wraps.lookup (wraps : ms.Wraps wrapper inner) (name : String) (rest : List Value) :
    ms.lookup name (wrapper :: rest) = ms.lookup name (inner :: rest) := by
  induction wraps with
  | single boxes => exact boxes.lookup
  | tail _ boxes ih => exact ih.trans boxes.lookup

lemma Wraps.wrapped (wraps : ms.Wraps wrapper inner) : wrapper.ty.wrapped?.isSome := by
  obtain ⟨_, boxes, -⟩ := Relation.TransGen.head'_iff.mp wraps
  exact boxes.wrapped

/-- No method takes the operands. -/
def Refuses (ms : Methods) (name : String) (args : List Value) : Prop :=
  ∀ s, ∃ d, (ms.dispatch [name] args).run s = (.error d, s) ∧ d.kind = .dispatch

/-- The operator has the same result, or both times there is no method. -/
def SameResult (ms : Methods) (name : String) (args args' : List Value) : Prop :=
  ms.dispatch [name] args = ms.dispatch [name] args' ∨
    ms.Refuses name args ∧ ms.Refuses name args'

lemma dispatch_found {found : Native × List Value}
    (isFound : (ms.lookup name [a, b] <|> ms.lookup ("r" ++ name) [b, a]) = some found) :
    ms.dispatch [name] [a, b] = found.1.call found.2 := by
  have resolved : ms.resolve [name] [a, b] = .ok found := by
    simp only [resolve, findSome?, swapped?, bind_some]
    cases direct : ms.lookup name [a, b] <;> cases reversed : ms.lookup ("r" ++ name) [b, a] <;>
      simp_all
  rw [dispatch, resolved]
  rfl

lemma refuses_of_none (direct : ms.lookup name [a, b] = none)
    (reversed : ms.lookup ("r" ++ name) [b, a] = none) : ms.Refuses name [a, b] := by
  have resolved : ms.resolve [name] [a, b] =
      .error { problem := .unsupportedOperator name [a.ty.text, b.ty.text] } := by
    simp [resolve, findSome?, swapped?, direct, reversed]
  intro s
  rw [dispatch, resolved]
  exact ⟨_, rfl, rfl⟩

lemma find?_define {ty ty' : Ty} {native found : Native}
    (isFound : (ms.define ty key native).find? ty' name = some found) :
    found = native ∧ name = key ∨ ms.find? ty' name = some found := by
  rw [find?, table, define, lookup_cons] at isFound
  split at isFound
  next eq =>
    rw [getD_some, lookup_cons] at isFound
    split at isFound
    next isKey => exact .inl ⟨(some.inj isFound).symm, isKey⟩
    next notKey =>
      rw [lookup_filter_ne, if_neg notKey, table, ← eq] at isFound
      exact .inr isFound
  next other =>
    rw [lookup_filter_ne, if_neg other] at isFound
    exact .inr isFound

lemma find?_defineAll {ty ty' : Ty} {found : Native} {P : Native → Prop}
    (all : ∀ native ∈ natives, P native)
    (earlier : ms.find? ty' name = some found → found.name = name ∧ P found)
    (isFound : (Operators.defineAll ms ty natives).find? ty' name = some found) :
    found.name = name ∧ P found := by
  induction natives generalizing ms with
  | nil => exact earlier isFound
  | cons native natives ih =>
    obtain ⟨holds, all⟩ := forall_mem_cons.mp all
    refine ih all (fun before => ?_) isFound
    rcases find?_define before with ⟨rfl, rfl⟩ | before
    · exact ⟨rfl, holds⟩
    · exact earlier before

end Methods

namespace Operators

open Methods

abbrev builtin (store : Store) : Methods := (install {} store).1

/-- The built-in methods, with what those on two operands ask of these. -/
def families : List (List Native × (List Value → Bool)) :=
  [(intMethods, allAre .i64), (floatMethods, floatFirst), (boolMethods, allAre .bool),
    (textMethods, allTexts),
    (labelMethods, allAre .label)]

lemma accepts_of_binary : ∀ family ∈ families, ∀ native ∈ family.1, native.arity.accepts 2 →
    native.accepts = family.2 := by
  simp only [families, forall_mem_cons]
  refine ⟨?_, ?_, ?_, ?_, ?_, forall_mem_nil _⟩ <;> intro native mem binary
  · simp only [intMethods, mem_append, List.mem_map, mem_singleton] at mem
    rcases mem with (⟨_, -, rfl⟩ | ⟨_, -, rfl⟩) | rfl
    · rfl
    · rfl
    · cases binary
  · simp only [floatMethods, bothWays, mem_append, mem_flatMap, mem_cons, not_mem_nil,
      or_false] at mem
    rcases mem with (⟨_, -, rfl | rfl⟩ | ⟨_, -, rfl | rfl⟩) | rfl
    · rfl
    · rfl
    · rfl
    · rfl
    · cases binary
  · simp only [boolMethods, mem_append, List.mem_map, mem_singleton] at mem
    rcases mem with ⟨_, -, rfl⟩ | rfl
    · rfl
    · cases binary
  · simp only [textMethods, mem_cons, List.mem_map] at mem
    rcases mem with rfl | ⟨_, -, rfl⟩ <;> rfl
  · simp only [labelMethods, List.mem_map] at mem
    obtain ⟨_, -, rfl⟩ := mem
    rfl

lemma refuses_wrapped (wrapped : wrapper.ty.wrapped?.isSome) :
    ∀ family ∈ families, family.2 [operand, wrapper] = false := by
  have shape : ∃ field, wrapper.ty.shape = .struct [field] none := by
    rw [Ty.wrapped?] at wrapped
    split at wrapped
    next field isStruct => exact ⟨field, isStruct⟩
    next => cases wrapped
  obtain ⟨field, shape⟩ := shape
  have notPrimitive : ∀ p, wrapper.isPrimitive p = false := by
    simp [isPrimitive, Ty.isPrimitive, Ty.primitive?, shape]
  have noText : wrapper.text? = none := by simp [text?, shape]
  simp [families, allAre, floatFirst, isNumber, allTexts, notPrimitive, noText]

lemma find?_install {store : Store} {ty : Ty} {name : String} {native : Native}
    (found : (builtin store).find? ty name = some native) :
    native.name = name ∧ ∃ family ∈ families, native ∈ family.1 := by
  have known : ∀ {natives}, natives ∈ families.map Prod.fst →
      ∀ native ∈ natives, ∃ family ∈ families, native ∈ family.1 := by
    intro natives isFamily native mem
    obtain ⟨family, inside, rfl⟩ := mem_map.mp isFamily
    exact ⟨family, inside, mem⟩
  refine find?_defineAll (known ?_)
    (find?_defineAll (known ?_) (find?_defineAll (known ?_) (find?_defineAll (known ?_)
    (find?_defineAll (known ?_) fun found => by cases found)))) found <;> simp [families]

variable {store : Store} {name : String} {a b operand wrapper : Value} {found : Native × List Value}

/-- What an operator finds for two operands: a built-in method that takes them, the first one
perhaps taken apart. -/
lemma lookup_install (isFound : (builtin store).lookup name [a, b] = some found) :
    ∃ operand, found.2 = [operand, b] ∧ (a.ty.wrapped? = none → operand = a) ∧ found.1.name = name ∧
      ∃ family ∈ families, found.1 ∈ family.1 ∧ found.1.arity.accepts 2 ∧
      family.2 [operand, b] := by
  obtain ⟨ty, operand, known, isList, arity, accepts, whole⟩ := lookupFrom_facts isFound
  obtain ⟨isName, family, isFamily, mem⟩ := find?_install known
  rw [isList] at arity accepts
  rw [accepts_of_binary family isFamily found.1 mem arity] at accepts
  exact ⟨operand, isList, whole, isName, family, isFamily, mem, arity, accepts⟩

lemma lookup_wrapped_second (wrapped : wrapper.ty.wrapped?.isSome) :
    (builtin store).lookup name [operand, wrapper] = none := by
  rw [eq_none_iff_forall_ne_some]
  intro found isFound
  obtain ⟨first, -, -, -, family, isFamily, -, -, accepts⟩ := lookup_install isFound
  cases (refuses_wrapped wrapped family isFamily).symm.trans accepts

def floatOperators : List (String × (UInt64 → UInt64 → StateM Store Value)) :=
  floatArithmetic.map (fun (name, apply) => (name, fun a b => Store.float (apply a b))) ++
    floatComparisons.map fun (name, compare) => (name, fun a b => Store.bool (compare a b))

lemma mem_floatMethods (mem : native ∈ floatMethods) (binary : native.arity.accepts 2) :
    ∃ entry ∈ floatOperators, native ∈ bothWays entry.1 entry.2 := by
  simp only [floatMethods, mem_append, mem_flatMap, mem_singleton] at mem
  rcases mem with (⟨entry, isEntry, mem⟩ | ⟨entry, isEntry, mem⟩) | rfl
  · exact ⟨_, mem_append_left _ (mem_map_of_mem isEntry), mem⟩
  · exact ⟨_, mem_append_right _ (mem_map_of_mem isEntry), mem⟩
  · cases binary

lemma isPrimitive_iff {v : Value} : v.isPrimitive p ↔ v.ty.shape = .primitive p := by
  rw [isPrimitive, Ty.isPrimitive, Ty.primitive?]
  cases shape : v.ty.shape <;> simp

lemma not_wrapped {v : Value} (shape : v.ty.shape = .primitive p) : v.ty.wrapped? = none := by
  rw [Ty.wrapped?, shape]

lemma floats_ok (shapeX : x.ty.shape = .primitive .f64) (shapeY : y.ty.shape = .primitive .f64)
    (name : String) : (⟨name, [x, y]⟩ : Arguments).float 0 = .ok x.scalar ∧
      (⟨name, [x, y]⟩ : Arguments).float 1 = .ok y.scalar := by
  simp only [Arguments.float, Arguments.expect, Arguments.get, getElem?_cons_zero,
    getElem?_cons_succ, bind,
    Except.bind, floatWord?, Ty.primitive?, shapeX, shapeY]
  exact ⟨rfl, rfl⟩

lemma allAre_pair {p : Primitive} :
    allAre p [x, y] ↔ x.ty.shape = .primitive p ∧ y.ty.shape = .primitive p := by
  simp [allAre, isPrimitive_iff]

/-- Only two floating-point numbers have a method for an operator and one for its reverse. -/
lemma both_floats (direct : (builtin store).lookup name [a, b] = some found)
    (reversed : (builtin store).lookup ("r" ++ name) [b, a] = some found') :
    (a.ty.shape = .primitive .f64 ∧ b.ty.shape = .primitive .f64) ∧
    (found.2 = [a, b] ∧ found'.2 = [b, a]) ∧
      ∃ entry ∈ floatOperators, ∃ entry' ∈ floatOperators,
        found.1 ∈ bothWays entry.1 entry.2 ∧ found'.1 ∈ bothWays entry'.1 entry'.2 := by
  obtain ⟨x, isList, wholeA, isName, family, isFamily, mem, binary, takes⟩ := lookup_install direct
  obtain ⟨y, isList', wholeB, isName', family', isFamily', mem', binary', takes'⟩ :=
    lookup_install reversed
  -- of all families only the second one has methods that are named as reverses
  have names : ∀ family ∈ families, ∀ method ∈ family.1,
      ∀ other ∈ intMethods ++ boolMethods ++ textMethods ++ labelMethods, other.name ≠
        "r" ++ method.name := by
    decide +kernel
  have notFloat : found'.1 ∉ intMethods ++ boolMethods ++ textMethods ++ labelMethods :=
    fun among =>
    names family isFamily found.1 mem found'.1 among (isName ▸ isName')
  simp only [mem_append, not_or] at notFloat
  simp only [families, mem_cons, not_mem_nil, or_false] at isFamily isFamily'
  rcases isFamily' with rfl | rfl | rfl | rfl | rfl
  · exact absurd mem' notFloat.1.1.1
  · simp only [floatFirst, isNumber, Bool.and_eq_true, Bool.or_eq_true, isPrimitive_iff] at takes'
    obtain ⟨shapeY, number⟩ := takes'
    have notWrapped : a.ty.wrapped? = none := number.elim not_wrapped not_wrapped
    obtain rfl := wholeA notWrapped
    rcases isFamily with rfl | rfl | rfl | rfl | rfl
    · rw [allAre_pair] at takes
      obtain rfl := wholeB (not_wrapped takes.2)
      cases shapeY.symm.trans takes.2
    · simp only [floatFirst, isNumber, Bool.and_eq_true, Bool.or_eq_true, isPrimitive_iff] at takes
      obtain rfl := wholeB (takes.2.elim not_wrapped not_wrapped)
      obtain ⟨entry, isEntry, way⟩ := mem_floatMethods mem binary
      obtain ⟨entry', isEntry', way'⟩ := mem_floatMethods mem' binary'
      exact ⟨⟨takes.1, shapeY⟩, ⟨isList, isList'⟩, entry, isEntry, entry', isEntry', way, way'⟩
    · rw [allAre_pair] at takes
      rcases number with shape | shape <;> cases shape.symm.trans takes.1
    · rcases number with shape | shape <;> simp [allTexts, text?, shape] at takes
    · rw [allAre_pair] at takes
      rcases number with shape | shape <;> cases shape.symm.trans takes.1
  · exact absurd mem' notFloat.1.1.2
  · exact absurd mem' notFloat.1.2
  · exact absurd mem' notFloat.2

/-- The reverse of an operator sees the operands exchanged, and exchanges them back. -/
lemma call_both_ways (direct : (builtin store).lookup name [a, b] = some found)
    (reversed : (builtin store).lookup ("r" ++ name) [b, a] = some found') :
    found.1.call found.2 = found'.1.call found'.2 := by
  obtain ⟨-, -, -, isName, -⟩ := lookup_install direct
  obtain ⟨-, -, -, isName', -⟩ := lookup_install reversed
  obtain ⟨⟨shapeA, shapeB⟩, ⟨isList, isList'⟩, entry, isEntry, entry', isEntry', way, way'⟩ :=
    both_floats direct reversed
  have names : ∀ x ∈ floatOperators.map Prod.fst, ∀ y ∈ floatOperators.map Prod.fst,
      y ≠ "r" ++ x ∧ y ≠ "r" ++ ("r" ++ x) := by decide +kernel
  have apart := names _ (mem_map_of_mem isEntry) _ (mem_map_of_mem isEntry')
  obtain ⟨native, args⟩ := found
  obtain ⟨native', args'⟩ := found'
  cases isList
  cases isList'
  simp only [bothWays, mem_cons, not_mem_nil, or_false] at way way'
  rcases way with rfl | rfl <;> rcases way' with rfl | rfl
  · exact absurd (isName'.trans (congrArg _ isName.symm)) apart.1
  · have eq : entry'.1 = entry.1 := ((String.append_right_inj "r").mp isName').trans isName.symm
    have distinct : (floatOperators.map Prod.fst).Nodup := by decide +kernel
    obtain rfl : entry' = entry := inj_on_of_nodup_map distinct isEntry' isEntry eq
    simp only [Native.call, Native.accepting, Native.ofArity, floats_ok shapeA shapeB,
      floats_ok shapeB shapeA]
  · exact absurd (isName'.trans (congrArg _ isName.symm)) apart.2
  · exact absurd (((String.append_right_inj "r").mp isName').trans isName.symm) apart.1

/-- A wrapped operand makes no difference to an operator if its place leads the attempt that finds a
method, or if no attempt does. A wrapped first operand hides from the reversed methods, and a
wrapped second one from the direct ones: where only those take the operands, no method is found. -/
theorem wrapper_transparent_where_it_leads (store : Store) (name : String) (a b wrapper : Value) :
    ((builtin store).Wraps wrapper a →
        ((builtin store).lookup name [a, b] ≠ none ∨
          (builtin store).lookup ("r" ++ name) [b, a] = none →
            (builtin store).SameResult name [wrapper, b] [a, b]) ∧
          ((builtin store).lookup name [a, b] = none → (builtin store).Refuses name [wrapper, b])) ∧
      ((builtin store).Wraps wrapper b →
        ((builtin store).lookup ("r" ++ name) [b, a] ≠ none ∨
          (builtin store).lookup name [a, b] = none →
            (builtin store).SameResult name [a, wrapper] [a, b]) ∧
          ((builtin store).lookup ("r" ++ name) [b, a] = none →
            (builtin store).Refuses name [a, wrapper])) := by
  refine ⟨fun wraps => ?_, fun wraps => ?_⟩
  · have direct := wraps.lookup name [b]
    have hidden : (builtin store).lookup ("r" ++ name) [b, wrapper] = none :=
      lookup_wrapped_second wraps.wrapped
    cases found : (builtin store).lookup name [a, b] with
    | some answer =>
      refine ⟨fun _ => .inl ?_, fun none => by cases none⟩
      rw [dispatch_found (by rw [direct, found]; rfl), dispatch_found (by rw [found]; rfl)]
    | none =>
      have refused := refuses_of_none (direct.trans found) hidden
      exact ⟨fun rest => .inr ⟨refused,
        refuses_of_none found (rest.resolve_left fun differs => differs rfl)⟩, fun _ => refused⟩
  · have reversed := wraps.lookup ("r" ++ name) [a]
    have hidden : (builtin store).lookup name [a, wrapper] = none :=
      lookup_wrapped_second wraps.wrapped
    cases found : (builtin store).lookup ("r" ++ name) [b, a] with
    | some answer =>
      refine ⟨fun _ => .inl ?_, fun none => by cases none⟩
      rw [dispatch_found (by rw [hidden, reversed, found]; rfl)]
      cases direct : (builtin store).lookup name [a, b] with
      | some answer' =>
        -- without the wrapper it is the direct method that is called
        rw [dispatch_found (by rw [direct]; rfl)]
        exact (call_both_ways direct found).symm
      | none => rw [dispatch_found (by rw [direct, found]; rfl)]
    | none =>
      have refused := refuses_of_none hidden (reversed.trans found)
      exact ⟨fun rest => .inr ⟨refused,
        refuses_of_none (rest.resolve_left fun differs => differs rfl) found⟩, fun _ => refused⟩

def three : Value := (Store.int 3 (install {} {}).2).1

def five : Value := (Store.int 5 (install {} {}).2).1

def boxedFive : Value := (Store.pack [five] (install {} {}).2).1

lemma boxedFive_boxes : (builtin {}).Boxes boxedFive five := ⟨rfl, rfl, fun _ => rfl⟩

/-- As the first operand a wrapped 5 is as good as 5; as the second one it is refused. -/
theorem boxedFive_leads : (builtin {}).SameResult "add" [boxedFive, three] [five, three] ∧
    (builtin {}).Refuses "add" [three, boxedFive] := by
  have takes : ((builtin {}).lookup "add" [five, three]).isSome = true := by decide +kernel
  refine ⟨((wrapper_transparent_where_it_leads {} "add" five three boxedFive).1
    (.single boxedFive_boxes)).1 (.inl ?_),
    ((wrapper_transparent_where_it_leads {} "add" three five boxedFive).2
      (.single boxedFive_boxes)).2
      (isNone_iff_eq_none.mp (by decide +kernel))⟩
  exact isSome_iff_ne_none.mp takes

/-- The sum of 3 and 5 is 8, and the sum of 3 and a wrapped 5 is refused. -/
theorem wrapped_second_operand_refused :
    (builtin {}).Wraps boxedFive five ∧
      (((builtin {}).dispatch ["add"] [three, five]).run (install {} {}).2).1.toOption.bind
        Value.int? = some 8 ∧
      (builtin {}).Refuses "add" [three, boxedFive] ∧
      ¬(builtin {}).SameResult "add" [three, boxedFive] [three, five] := by
  have sum : (((builtin {}).dispatch ["add"] [three, five]).run (install {} {}).2).1.toOption.bind
      int? =
      some 8 := by decide +kernel
  have refused : (builtin {}).Refuses "add" [three, boxedFive] :=
    refuses_of_none (lookup_wrapped_second rfl) (isNone_iff_eq_none.mp (by decide +kernel))
  refine ⟨.single boxedFive_boxes, sum, refused, ?_⟩
  rintro (same | ⟨-, refused'⟩)
  · obtain ⟨d, failed, -⟩ := refused (install {} {}).2
    rw [← same, failed] at sum
    cases sum
  · obtain ⟨d, failed, -⟩ := refused' (install {} {}).2
    rw [failed] at sum
    cases sum

end Operators

end Blockflow
