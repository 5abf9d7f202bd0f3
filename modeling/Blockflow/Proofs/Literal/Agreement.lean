import Blockflow.Proofs.Literal.Layers
import Blockflow.Proofs.Store.Agreement

/-!
# Literals in later stores

A literal that was read can be read again in every later store. Types and labels keep their handles
and numbers, so the second value differs from the first one at most in its buffers; and a text that
is no literal now was none before.
-/

namespace Blockflow

open List Effect Store Value TypeTable

namespace TypeTable.Extends

lemma label_eq {table later : TypeTable} (more : (table.label name).2.Extends later) :
    (later.label name).1 = (table.label name).1 := by
  have known : ∀ {labels labels' : List String} {id : Nat}, labels <+: labels' →
      labels.idxOf? name = some id → labels'.idxOf? name = some id := by
    rintro labels _ id ⟨rest, rfl⟩ found
    rw [idxOf?, findIdx?_append, ← idxOf?, found, Option.some_or]
  rw [label.eq_def table] at more ⊢
  cases isFound : table.labels.idxOf? name with
  | some id =>
    rw [isFound] at more
    rw [TypeTable.label, known more.labels isFound]
  | none =>
    rw [isFound] at more
    have last : (table.labels ++ [name]).idxOf? name = some table.labels.length := by
      rw [idxOf?, findIdx?_append, ← idxOf?, isFound]
      simp
    rw [TypeTable.label, known more.labels last]

end TypeTable.Extends

namespace Store

open Value (Alike AllAlike)

variable {α β : Type} {R : α → β → Prop}

namespace Agree

lemma chain {Holds : α → Prop} {first : Action α} {next : α → Action γ}
    (begins : Agree (fun a b => a = b ∧ Holds a) first first)
    (goesOn : ∀ a, Holds a → Agree S (next a) (next a)) :
    Agree S (first >>= next) (first >>= next) := by
  classical
  -- what other results lead to does not matter, so it may be taken to fail
  let rest a : Action γ := if Holds a then next a else .refuse .expansionGone
  have steady : ∀ a, Agree S (rest a) (rest a) := by
    intro a
    dsimp only [rest]
    split
    next holds => exact goesOn a holds
    next => exact .fail _ _
  have eq : first >>= next = first >>= rest := by
    refine ext fun s => ?_
    have again := begins.agree s _ (.refl _)
    rw [run_bind, run_bind]
    rcases ran : first.run s with ⟨d | a, u⟩
    · rfl
    · rw [ran] at again
      generalize (first.run _).1 = other at again
      cases again with
      | ok related => exact congrArg (run · u) (if_pos related.2).symm
  rw [eq]
  exact begins.bind (fun a b related => related.1 ▸ steady a) (fun a => (steady a).grows) fun a =>
    (steady a).grows'

lemma pure (related : R a b) : Agree R (Pure.pure a) (Pure.pure b) :=
  ofExcept (.ok related)

lemma mapM {f : γ → Action α} {R : α → α → Prop} (agree : ∀ c, Agree R (f c) (f c))
    (items : List γ) :
    Agree (Forall₂ R) (items.mapM f) (items.mapM f) := by
  induction items with
  | nil => exact .pure .nil
  | cons item items ih =>
    rw [mapM_cons]
    refine (agree item).bind
      (fun a b related => ih.bind (fun _ _ rest => .pure (.cons related rest))
      (fun _ => .pure _) fun _ => .pure _) (fun _ => ?_) fun _ => ?_
    · exact ih.grows.bind fun _ => .pure _
    · exact ih.grows.bind fun _ => .pure _

lemma intern_agree (shape : Shape Ty) : Agree (fun a b => a = b ∧ True)
    (Effect.ofState (withTypes (·.intern shape))) (Effect.ofState (withTypes (·.intern shape))) :=
  .ofState (.withTypes fun table => .intern table shape)
    (.withTypes fun table => .intern table shape)
    fun _ _ more => ⟨(Extends.intern_eq more).symm, trivial⟩

/-- Types keep their handles. -/
def layering : Layering Unit where
  Later _ _ := True
  Judges _ Holds action := Agree (fun a b => a = b ∧ Holds () a) action action
  Good _ _ := True
  Raw _ _ := True
  trans _ _ := trivial
  mono _ _ := trivial
  pure holds := .pure ⟨rfl, holds () trivial⟩
  fail _ := .fail _ _
  bind first rest := first.chain fun a holds => rest a () trivial holds
  mapFailure _ agree := agree.mapFailure _
  intern shape _ _ := intern_agree shape
  plain shape _ _ _ := intern_agree shape
  checked _ _ := trivial

end Agree

lemma label_agree (name : String) : Agree Alike (ofState (label name)) (ofState (label name)) :=
  .ofState (.label name) (.label name) fun s t more => by
    have known : (s.types.label name).2.Extends t.types := more
    have base : t.types.primitive .label = (s.types.label name).2.primitive .label :=
      known.primitive_eq .label
    have base' : (t.types.label name).2.primitive .label = t.types.primitive .label :=
      (Extends.label t.types name).primitive_eq .label
    show Alike ⟨(s.types.label name).2.primitive .label, [], _, UInt64.ofNat (s.types.label name).1,
      s.nextBuffer⟩
      ⟨(t.types.label name).2.primitive .label, [], _, UInt64.ofNat (t.types.label name).1,
        t.nextBuffer⟩
    rw [base', base, known.label_eq]
    rfl

/-! ## Zero values -/

lemma times_alike (same : ∀ s t, (make s).1.Alike (make t).1)
    (count : Nat) (alike : AllAlike made made') (s t : Store) :
    AllAlike (times make made count s).1 (times make made' count t).1 := by
  induction count generalizing made made' s t with
  | zero => exact alike
  | succ count ih => exact ih (.cons (same s t) alike) _ _

lemma alike_of_elements {ty : Ty} {elements elements' : List Value} {scalar scalar' : UInt64}
    {buffer buffer' : Nat} (alike : AllAlike elements elements') (eq : scalar = scalar') :
    Alike ⟨ty, elements, [], scalar, buffer⟩ ⟨ty, elements', [], scalar', buffer'⟩ := by
  rw [Alike, bare, bare, bareAll_eq, bareAll_eq,
    show elements.map bare = elements'.map bare from alike, eq]

mutual

lemma zero_alike (ty : Ty) (s t : Store) : (zero ty s).1.Alike (zero ty t).1 := by
  match ty with
  | ⟨_, .struct fields _, _, _, _⟩ =>
    have inner := zeros_alike fields s t
    exact alike_of_elements inner (by rw [inner.length_eq])
  | ⟨_, .vector element count _, _, _, _⟩ =>
    have inner : AllAlike (times (zero element) [] count s).1.reverse
        (times (zero element) [] count t).1.reverse := by
      have none : AllAlike [] [] := rfl
      have made := times_alike (zero_alike element) count none s t
      rw [AllAlike, map_reverse, map_reverse, show map bare _ = map bare _ from made]
    exact alike_of_elements inner (by rw [inner.length_eq])
  | ⟨_, .primitive _, _, _, _⟩ | ⟨_, .pointer _ _, _, _, _⟩ | ⟨_, .function _ _, _, _, _⟩ =>
    exact alike_of_elements rfl rfl

lemma zeros_alike (tys : List Ty) (s t : Store) : AllAlike (zeros tys s).1 (zeros tys t).1 := by
  match tys with
  | [] =>
    rfl
  | ty :: tys =>
    exact .cons (zero_alike ty s t) (zeros_alike tys _ _)

end

lemma zero_agree (ty : Ty) : Agree Alike (ofState (zero ty)) (ofState (zero ty)) :=
  .ofState (.zero ty) (.zero ty) fun s t _ => zero_alike ty s t

end Store

namespace Literal

open Store (Agree)
open Value (Alike)

lemma parseKind_agree (tag text : String) :
    Agree Alike (parseKind tag text) (parseKind tag text) := by
  rw [parseKind.eq_def]
  split
  · exact .after _ fun n => int_agree n
  · exact .after _ fun x => float_agree x.toBits
  · exact .after _ fun b => bool_agree b
  · exact .after _ fun content => text_agree content
  · exact .after _ fun name => label_agree name
  · exact (parseType_laid Agree.layering text ()).chain fun ty _ => zero_agree ty
  · exact .fail _ _

/-- Both read the text, or neither does. -/
def SameTrial : Except (Option Diagnostic) Value → Except (Option Diagnostic) Value → Prop
  | .ok v, .ok v' => v.Alike v'
  | .error _, .error _ => True
  | _, _ => False

lemma tryKinds_cons (text : String) (failure : Option Diagnostic) (tag : String)
    (rest : List String)
    (s : Store) : tryKinds text failure (tag :: rest) s =
      match (parseKind tag text).run s with
      | (.ok v, s) => (.ok v, s)
      | (.error d, s) => tryKinds text (some d) rest s := by
  rw [tryKinds]
  rcases outcome : (parseKind tag text).run s with ⟨d | v, t⟩ <;>
    simp only [bind, StateT.bind, outcome]
  rfl

lemma tryKinds_agree (text : String) (failure failure' : Option Diagnostic) (kinds : List String)
    (s t : Store) :
    s.Extends (tryKinds text failure kinds s).2 ∧ ((tryKinds text failure kinds s).2.Extends t →
        SameTrial (tryKinds text failure kinds s).1 (tryKinds text failure' kinds t).1) := by
  induction kinds generalizing failure failure' s t with
  | nil => exact ⟨.refl s, fun _ => trivial⟩
  | cons tag rest ih =>
    have agree := parseKind_agree tag text
    have grown := agree.grows.extends' s
    have grown' := agree.grows'.extends' t
    rw [tryKinds_cons, tryKinds_cons]
    rcases first : (parseKind tag text).run s with ⟨d | v, s'⟩ <;>
        rw [first] at grown <;> dsimp only
    · refine ⟨grown.trans (ih (some d) none s' t).1, fun more => ?_⟩
      have same := agree.agree s t (by rw [first]; exact (ih (some d) none s' t).1.trans more)
      rw [first] at same
      rcases second : (parseKind tag text).run t with ⟨d' | v', t'⟩ <;>
          rw [second] at same grown' <;>
        cases same
      exact (ih (some d) (some d') s' t').2 (more.trans grown')
    · refine ⟨grown, fun more => ?_⟩
      have same := agree.agree s t (by rw [first]; exact more)
      rw [first] at same
      rcases second : (parseKind tag text).run t with ⟨d' | v', t'⟩ <;>
          rw [second] at same <;> cases same
      next alike => exact alike

/-- What is said about a text that no kind reads. -/
def unreadable (text : String) (failure : Option Diagnostic) : Diagnostic :=
  let whole :=
    Diagnostic.withLiteral { problem := .unreadableLiteral text } text 0 text.utf8ByteSize
  match failure with
  | some d => if isUnknownType d && d.literal.isSome then
      { whole with literal := d.literal } else whole
  | none => whole

def readOr (text : String) : Except (Option Diagnostic) Value → Action Value
  | .ok v => pure v
  | .error failure => .fail (unreadable text failure)

lemma parseAuto_eq (text : String) :
    parseAuto text = (do readOr text (← tryKinds text none kinds)) := by
  rw [parseAuto]
  congr 1
  funext found
  match found with
  | .ok v => rfl
  | .error none => rfl
  | .error (some d) =>
    simp only [readOr, unreadable]
    split <;> rfl

lemma parseAuto_agree (text : String) : Agree Alike (parseAuto text) (parseAuto text) := by
  have tried : ∀ kinds, Agree SameTrial (ofState (tryKinds text none kinds))
      (ofState (tryKinds text none kinds)) := fun kinds =>
    have grows : Grows (ofState (tryKinds text none kinds)) :=
      .of_forall fun s => (tryKinds_agree text none none kinds s s).1
    .ofState grows grows fun s t more => (tryKinds_agree text none none kinds s t).2 more
  have reads : ∀ one two, SameTrial one two → Agree Alike (readOr text one) (readOr text two) := by
    rintro (failure | v) (failure' | v') same
    · exact .fail _ _
    · exact same.elim
    · exact same.elim
    · exact .pure same
  have grows : ∀ found, Grows (readOr text found) := by
    rintro (failure | v)
    · exact .fail _
    · exact .pure _
  rw [parseAuto_eq]
  exact (tried kinds).bind reads grows grows

lemma parse_agree (tag text : String) : Agree Alike (parse tag text) (parse tag text) := by
  rw [parse]
  split
  · exact parseAuto_agree text
  · exact parseKind_agree tag text

end Literal

end Blockflow
