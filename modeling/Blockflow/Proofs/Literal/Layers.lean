import Blockflow.Literal.Basic
import Blockflow.Proofs.Outcome

/-!
# Types layer by layer

A type literal asks a table for one layer of its type after another. A `Layering` is a judgement
about computations that can be followed through such requests; it then holds of all type literals.
-/

namespace Blockflow

open List Effect Store

def Shape.parts {α : Type} : Shape α → List α
  | .primitive _ => []
  | .vector element _ _ => [element]
  | .struct fields _ => fields
  | .pointer target _ => target.toList
  | .function result params => result :: params

/-- A vector must be of a size that tables take. -/
def Shape.Fits : Shape Ty → Prop
  | .vector element count simd => TypeTable.vectorFits element count simd
  | _ => True

/-- Shapes of few cells, if they fit. -/
def Shape.Plain {α : Type} : Shape α → Prop
  | .struct fields _ => fields = []
  | _ => True

/-- A judgement that can be followed through requests for types. A world is what is known before a
computation;
`Good` holds of the types that layers may be made of, and `Raw` of types whose cells were not
checked. -/
structure Layering (World : Type) where
  Later : World → World → Prop
  Judges : {α : Type} → World → (World → α → Prop) → Action α → Prop
  Good : World → Ty → Prop
  Raw : World → Ty → Prop
  trans : ∀ {a b c}, Later a b → Later b c → Later a c
  mono : ∀ {w later ty}, Good w ty → Later w later → Good later ty
  pure : ∀ {α w} {Holds : World → α → Prop} {a}, (∀ later, Later w later → Holds later a) →
    Judges w Holds (Pure.pure a)
  fail : ∀ {α w} {Holds : World → α → Prop} {d : Diagnostic}, d.Placeless → Judges w Holds (fail d)
  bind : ∀ {α β w} {Holds : World → α → Prop} {Holds' : World → β → Prop} {action next},
    Judges w Holds action →
    (∀ a later, Later w later → Holds later a → Judges later Holds' (next a)) →
    Judges w Holds' (action >>= next)
  mapFailure : ∀ {α w} {Holds : World → α → Prop} {action f}, (∀ d, d.Placeless → (f d).Placeless) →
    Judges w Holds action → Judges w Holds (action.mapFailure f)
  intern : ∀ {w} (shape : Shape Ty), shape.Fits → (∀ part ∈ shape.parts, Good w part) →
    Judges w Raw (ofState (withTypes (·.intern shape)))
  plain : ∀ {w} (shape : Shape Ty), shape.Fits → shape.Plain → (∀ part ∈ shape.parts, Good w part) →
    Judges w Good (ofState (withTypes (·.intern shape)))
  checked : ∀ {w ty}, Raw w ty → ty.cells ≤ maxValueCells → Good w ty

namespace Layering

variable {World : Type} (rules : Layering World) {w : World}

lemma primitive (p : Primitive) : rules.Judges w rules.Good (ofState (primitive p)) :=
  rules.plain (.primitive p) trivial trivial fun _ mem => absurd mem not_mem_nil

lemma text : rules.Judges w rules.Good (ofState (withTypes (·.text))) := by
  have asked : rules.Judges w rules.Good (Effect.ofState (Store.primitive .u8) >>= fun byte =>
      ofState (withTypes (·.intern (.pointer (some byte) { readOnly := true })))) := by
    refine rules.bind (rules.primitive .u8) fun byte later _ good =>
      rules.plain _ trivial trivial fun part mem => ?_
    exact mem_singleton.mp mem ▸ good
  exact asked

lemma vectorOf (good : rules.Good w element) (count : Nat) (simd : Bool) :
    rules.Judges w rules.Good (tryTypes (·.vectorOf element count simd)) := by
  have cases : tryTypes (·.vectorOf element count simd) =
      if TypeTable.vectorFits element count simd then
        ofState (withTypes (·.intern (.vector element count simd)))
      else Effect.fail { problem := .vectorTooLarge count element.text maxVectorLength } := by
    refine ext fun s => ?_
    show ((s.types.vectorOf element count simd).1,
      { s with types := (s.types.vectorOf element count simd).2 }) = _
    rw [TypeTable.vectorOf]
    split <;> rfl
  rw [cases]
  split
  next fits => exact rules.plain _ fits trivial fun part mem => mem_singleton.mp mem ▸ good
  next => exact rules.fail rfl

end Layering

/-! ## Literals -/

namespace Literal

lemma scan_fails (p : Scan α) (tag text : String) :
    FailsWith Diagnostic.Placeless (scan p tag text) := by
  rw [scan]
  split
  · exact .ok _
  · exact .error rfl
  · exact .error rfl

variable {World : Type} (rules : Layering World) {w : World} (text : String)

lemma namedType_laid (name : String) (span : Span) :
    rules.Judges w rules.Good (namedType text name span) := by
  rw [namedType]
  split
  · exact rules.plain (.struct [] none) trivial rfl fun _ mem => absurd mem not_mem_nil
  · split
    · exact rules.text
    · split
      · exact rules.primitive _
      · exact rules.fail rfl

lemma structType_laid (good : ∀ field ∈ fields, rules.Good w field.2) :
    rules.Judges w rules.Good (structType text fields) := by
  have checked : ∀ {ask : TypeTable → Ty × TypeTable},
      rules.Judges w rules.Raw (ofState (withTypes ask)) → rules.Judges w rules.Good (do
        let ty ← ofState (withTypes ask)
        locate text 0 text.utf8ByteSize ty.checkCells
        return ty) := by
    intro ask asked
    refine rules.bind asked fun ty later _ raw => ?_
    have small : rules.Judges later (fun w _ => rules.Good w ty) (ofExcept ty.checkCells) := by
      rw [Ty.checkCells]
      split
      next => exact rules.fail rfl
      next few => exact rules.pure fun _ more =>
        rules.mono (rules.checked raw (Nat.le_of_not_lt few)) more
    exact rules.bind (rules.mapFailure (fun _ same => same) small) fun _ _ _ good =>
      rules.pure fun _ => rules.mono good
  rw [structType]
  split
  · refine checked (rules.intern (.struct _ (some _)) trivial fun part mem => ?_)
    obtain ⟨_, named, rfl⟩ := mem_map.mp mem
    obtain ⟨field, among, rfl⟩ := mem_map.mp named
    exact good field among
  · exact checked (rules.intern _ trivial (forall_mem_map.mpr good))

mutual

lemma build_laid (expr : TypeExpr) (w : World) : rules.Judges w rules.Good (build text expr) := by
  match expr with
  | .named name span =>
    exact namedType_laid rules text name span
  | .vector element count simd span =>
    exact rules.bind (build_laid element w) fun ty _ _ good =>
      rules.mapFailure (fun _ same => same) (rules.vectorOf good count simd)
  | .struct fields =>
    exact rules.bind (buildFields_laid fields w) fun built _ _ good =>
      structType_laid rules text good
  | .pointer flags target =>
    rw [build]
    split
    · exact rules.plain (.pointer none flags) trivial trivial fun _ mem => absurd mem not_mem_nil
    · refine rules.bind (build_laid target w) fun ty _ _ good =>
        rules.plain (.pointer (some ty) flags) trivial trivial ?_
      exact fun part mem => mem_singleton.mp mem ▸ good
  | .function params result =>
    refine rules.bind (build_laid result w) fun ty later _ good =>
      rules.bind (buildAll_laid params later)
      fun tys last more goods => rules.plain (.function ty tys) trivial trivial ?_
    exact forall_mem_cons.mpr ⟨rules.mono good more, goods⟩

lemma buildAll_laid (exprs : List TypeExpr) (w : World) :
    rules.Judges w (fun w tys => ∀ ty ∈ tys, rules.Good w ty) (buildAll text exprs) := by
  match exprs with
  | [] =>
    exact rules.pure fun _ _ _ mem => absurd mem not_mem_nil
  | expr :: exprs =>
    refine rules.bind (build_laid expr w) fun ty later _ good =>
      rules.bind (buildAll_laid exprs later)
      fun tys last more goods => rules.pure fun final more' => forall_mem_cons.mpr ?_
    exact ⟨rules.mono good (rules.trans more more'), fun ty mem => rules.mono (goods ty mem) more'⟩

lemma buildFields_laid (fields : List (Option String × TypeExpr)) (w : World) :
    rules.Judges w (fun w built => ∀ field ∈ built, rules.Good w field.2)
      (buildFields text fields) := by
  match fields with
  | [] =>
    exact rules.pure fun _ _ _ mem => absurd mem not_mem_nil
  | (name, expr) :: fields =>
    refine rules.bind (build_laid expr w) fun ty later _ good =>
      rules.bind (buildFields_laid fields later)
      fun built last more goods => rules.pure fun final more' => forall_mem_cons.mpr ?_
    exact ⟨rules.mono good (rules.trans more more'), fun field mem =>
      rules.mono (goods field mem) more'⟩

end

lemma parseType_laid (w : World) : rules.Judges w rules.Good (parseType text) := by
  show rules.Judges w rules.Good (ofExcept (scan (Scan.typeExpr (text.length + 1)) "type" text) >>=
    build text)
  cases scanned : scan (Scan.typeExpr (text.length + 1)) "type" text with
  | ok expr => exact build_laid rules text expr w
  | error d => exact rules.fail (scan_fails _ _ _ d scanned)

end Literal

end Blockflow
