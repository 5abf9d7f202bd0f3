import Blockflow.Effect
import Mathlib.Data.List.Forall2

/-!
# Sequences that may fail

How a sequence of computations came to its outcome, and `FailsWith`: all failures of a computation
have a property.
-/

namespace Blockflow

open List Effect

section

variable {ε α β : Type} {first : Except ε α} {next : α → Except ε β} {d : ε}
  {check : α → Except ε Unit}
  {items : List α}

lemma bind_eq_ok {b : β} : first >>= next = .ok b ↔ ∃ a, first = .ok a ∧ next a = .ok b := by
  cases first <;> simp [bind, Except.bind]

lemma bind_eq_error :
    first >>= next = .error d ↔ first = .error d ∨ ∃ a, first = .ok a ∧ next a = .error d := by
  cases first <;> simp [bind, Except.bind]

lemma forM_eq_ok : items.forM check = .ok () ↔ ∀ item ∈ items, check item = .ok () := by
  induction items with
  | nil => simp [List.forM, pure, Except.pure]
  | cons item items ih =>
    rw [forall_mem_cons, ← ih]
    exact bind_eq_ok.trans ⟨fun ⟨_, first, rest⟩ => ⟨first, rest⟩, fun ⟨first, rest⟩ =>
      ⟨_, first, rest⟩⟩

lemma forM_eq_error (failed : items.forM check = .error d) :
    ∃ item ∈ items, check item = .error d := by
  induction items with
  | nil => cases failed
  | cons item items ih =>
    rcases bind_eq_error.mp failed with first | ⟨_, -, later⟩
    · exact ⟨item, mem_cons_self, first⟩
    · obtain ⟨other, mem, found⟩ := ih later
      exact ⟨other, mem_cons_of_mem _ mem, found⟩

lemma mapM_eq_ok {f : α → Except ε β} {results : List β} :
    items.mapM f = .ok results ↔
    Forall₂ (fun item result => f item = .ok result) items results := by
  induction items generalizing results with
  | nil => cases results <;> simp [pure, Except.pure]
  | cons item items ih =>
    rw [mapM_cons, bind_eq_ok]
    constructor
    · rintro ⟨first, found, rest⟩
      obtain ⟨others, found', eq⟩ := bind_eq_ok.mp rest
      cases eq
      exact .cons found (ih.mp found')
    · intro pointwise
      cases pointwise with
      | cons found rest => exact ⟨_, found, bind_eq_ok.mpr ⟨_, ih.mpr rest, rfl⟩⟩

end

section

variable {α β σ : Type} {P Q : Diagnostic → Prop}

/-- A result that does not touch the state is the first part of a successful sequence exactly if it
is one. -/
lemma Effect.run_ofExcept_bind_eq_ok {next : α → Effect σ β} :
    (ofExcept first >>= next).run s = (.ok b, t) ↔ ∃ a, first = .ok a ∧
    (next a).run s = (.ok b, t) := by
  rw [run_bind_eq_ok]
  constructor
  · rintro ⟨a, u, ran, rest⟩
    obtain ⟨found, rfl⟩ := Prod.mk.inj ran
    exact ⟨a, found, rest⟩
  · rintro ⟨a, rfl, rest⟩
    exact ⟨a, s, rfl, rest⟩

lemma Effect.run_mapM_ofExcept_eq_ok {f : α → Except Diagnostic β} {items : List α}
    (ran : (items.mapM fun item => ofExcept (f item)).run s = (.ok results, t)) :
    t = s ∧ Forall₂ (fun item result => f item = .ok result) items results := by
  induction items generalizing results with
  | nil =>
    cases ran
    exact ⟨rfl, .nil⟩
  | cons item items ih =>
    rw [mapM_cons] at ran
    obtain ⟨first, found, ran⟩ := run_ofExcept_bind_eq_ok.mp ran
    obtain ⟨rest, u, restRan, ran⟩ := run_bind_eq_ok.mp ran
    cases ran
    obtain ⟨eq, pointwise⟩ := ih restRan
    exact ⟨eq, .cons found pointwise⟩

/-- The diagnostic names no node. -/
abbrev Diagnostic.Placeless (d : Diagnostic) : Prop := d.locator.node = none

/-- All failures have a property. -/
def FailsWith (P : Diagnostic → Prop) (result : Except Diagnostic α) : Prop :=
  ∀ d, result = .error d → P d

namespace FailsWith

lemma ok (a : α) : FailsWith P (.ok a) := fun _ failed => by cases failed

lemma error {d : Diagnostic} (holds : P d) : FailsWith P (.error d : Except Diagnostic α) := by
  intro d' failed
  cases failed
  exact holds

lemma mono {result : Except Diagnostic α} (fails : FailsWith P result) (weaker : ∀ d, P d → Q d) :
    FailsWith Q result := fun d failed => weaker d (fails d failed)

lemma bind {next : α → Except Diagnostic β} (fails : FailsWith P first)
    (later : ∀ a, FailsWith P (next a)) : FailsWith P (first >>= next) := by
  intro d failed
  rcases bind_eq_error.mp failed with failed | ⟨a, -, failed⟩
  · exact fails d failed
  · exact later a d failed

lemma mapM {f : α → Except Diagnostic β} (fails : ∀ a, FailsWith P (f a)) (items : List α) :
    FailsWith P (items.mapM f) := by
  induction items with
  | nil => exact ok []
  | cons item items ih =>
    rw [mapM_cons]
    exact (fails item).bind fun _ => ih.bind fun _ => ok _

lemma foldlM {f : β → α → Except Diagnostic β} (fails : ∀ b a, FailsWith P (f b a))
    (items : List α) (start : β) : FailsWith P (items.foldlM f start) := by
  induction items generalizing start with
  | nil => exact ok start
  | cons item items ih =>
    exact (fails start item).bind ih

end FailsWith

/-- All failures have a property, whatever the state is at the start. -/
def Effect.FailsWith (P : Diagnostic → Prop) (effect : Effect σ α) : Prop :=
  ∀ s, Blockflow.FailsWith P (effect.run s).1

namespace Effect.FailsWith

lemma pure (a : α) : (Pure.pure a : Effect σ α).FailsWith P := fun _ => .ok a

lemma fail {d : Diagnostic} (holds : P d) : (fail d : Effect σ α).FailsWith P :=
  fun _ => .error holds

lemma ofExcept {result : Except Diagnostic α} (fails : Blockflow.FailsWith P result) :
    (ofExcept result : Effect σ α).FailsWith P := fun _ => fails

lemma ofState (action : StateM σ α) : (ofState action).FailsWith P := fun _ => .ok _

lemma bind {next : α → Effect σ β} (fails : first.FailsWith P)
    (later : ∀ a, (next a).FailsWith P) : (first >>= next).FailsWith P := by
  intro s d failed
  rw [run_bind] at failed
  rcases outcome : first.run s with ⟨d' | a, t⟩ <;> rw [outcome] at failed
  · cases failed
    exact fails s d (by rw [outcome])
  · exact later a t d failed

lemma ofExcept_bind {next : α → Effect σ β} (fails : Blockflow.FailsWith P result)
    (later : ∀ a, result = .ok a → (next a).FailsWith P) :
    (Effect.ofExcept result >>= next).FailsWith P := by
  cases result with
  | ok a => exact later a rfl
  | error d => exact fun _ => .error (fails d rfl)

lemma attempt {effect : Effect σ α} {next : Except Diagnostic α → Effect σ β}
    (fails : effect.FailsWith P)
    (later : ∀ result, Blockflow.FailsWith P result → (next result).FailsWith P) :
    (Effect.ofState effect.attempt >>= next).FailsWith P :=
  fun s => later _ (fails s) _

lemma mapFailure {effect : Effect σ α} (fails : effect.FailsWith fun d => P (f d)) :
    (effect.mapFailure f).FailsWith P := by
  intro s d failed
  rw [Effect.mapFailure] at failed
  rcases outcome : effect.run s with ⟨d' | a, t⟩ <;> simp only [outcome] at failed
  · cases failed
    exact fails s d' (by rw [outcome])
  · cases failed

lemma mapM {f : α → Effect σ β} (fails : ∀ a, (f a).FailsWith P) (items : List α) :
    (items.mapM f).FailsWith P := by
  induction items with
  | nil => exact pure []
  | cons item items ih =>
    rw [mapM_cons]
    exact (fails item).bind fun _ => ih.bind fun _ => pure _

lemma forM {f : α → Effect σ Unit} (fails : ∀ a, (f a).FailsWith P) (items : List α) :
    (items.forM f).FailsWith P := by
  induction items with
  | nil => exact pure ()
  | cons item items ih => exact (fails item).bind fun _ => ih

end Effect.FailsWith

/-- What a computation does from a state on: `Post` holds of its result and the state after it, or
`Fail` of the failure and the state that it leaves. -/
def Effect.Ends (effect : Effect σ α) (s : σ) (Post : α → σ → Prop) (Fail : Diagnostic → σ → Prop) :
    Prop :=
  match effect.run s with
  | (.ok a, t) => Post a t
  | (.error d, t) => Fail d t

namespace Effect.Ends

variable {effect : Effect σ α} {s t : σ} {Post Post' : α → σ → Prop}
  {Fail Fail' : Diagnostic → σ → Prop}

lemma bind {next : α → Effect σ β} {Post : β → σ → Prop}
    (first : effect.Ends s (fun a t => (next a).Ends t Post Fail) Fail) :
    (effect >>= next).Ends s Post Fail := by
  rw [Ends] at first ⊢
  rw [run_bind]
  rcases outcome : effect.run s with ⟨d | a, t⟩ <;> rw [outcome] at first
  · exact first
  · exact first

lemma imp (ends : effect.Ends s Post Fail) (post : ∀ a t, Post a t → Post' a t)
    (fail : ∀ d t, Fail d t → Fail' d t) : effect.Ends s Post' Fail' := by
  rw [Ends] at ends ⊢
  rcases outcome : effect.run s with ⟨d | a, t⟩ <;> rw [outcome] at ends
  · exact fail d t ends
  · exact post a t ends

lemma post (ends : effect.Ends s Post Fail) (post : ∀ a t, Post a t → Post' a t) :
    effect.Ends s Post' Fail :=
  ends.imp post fun _ _ failed => failed

lemma and (first : effect.Ends s Post Fail) (second : effect.Ends s Post' Fail') :
    effect.Ends s (fun a t => Post a t ∧ Post' a t) fun d t => Fail d t ∧ Fail' d t := by
  rw [Ends] at first second ⊢
  rcases outcome : effect.run s with ⟨d | a, t⟩ <;> rw [outcome] at first second
  · exact ⟨first, second⟩
  · exact ⟨first, second⟩

lemma of_ok (ends : effect.Ends s Post Fail) {a : α} (ran : effect.run s = (.ok a, t)) :
    Post a t := by
  rwa [Ends, ran] at ends

lemma of_error (ends : effect.Ends s Post Fail) {d : Diagnostic}
    (ran : effect.run s = (.error d, t)) : Fail d t := by
  rwa [Ends, ran] at ends

lemma of_run {a : α} (ran : effect.run s = (.ok a, t)) (post : Post a t) :
    effect.Ends s Post Fail := by
  rw [Ends, ran]
  exact post

lemma of_refusal {d : Diagnostic} (ran : effect.run s = (.error d, t)) (fail : Fail d t) :
    effect.Ends s Post Fail := by
  rw [Ends, ran]
  exact fail

lemma intro (post : ∀ a t, effect.run s = (.ok a, t) → Post a t)
    (fail : ∀ d t, effect.run s = (.error d, t) → Fail d t) : effect.Ends s Post Fail := by
  rw [Ends]
  rcases outcome : effect.run s with ⟨d | a, t⟩
  · exact fail d t outcome
  · exact post a t outcome

lemma of_forall (post : ∀ a t, Post a t) (fail : ∀ d t, Fail d t) : effect.Ends s Post Fail :=
  .intro (fun a t _ => post a t) fun d t _ => fail d t

lemma ofExcept {result : Except Diagnostic α} (post : ∀ a, result = .ok a → Post a s)
    (fail : ∀ d, result = .error d → Fail d s) : (ofExcept result).Ends s Post Fail := by
  cases result with
  | error d => exact fail d rfl
  | ok a => exact post a rfl

lemma mapFailure {f : Diagnostic → Diagnostic} (ends : effect.Ends s Post fun d t => Fail (f d) t) :
    (effect.mapFailure f).Ends s Post Fail := by
  rw [Ends] at ends ⊢
  rw [Effect.mapFailure]
  rcases outcome : effect.run s with ⟨d | a, t⟩ <;> rw [outcome] at ends <;>
    simp only [outcome] <;> exact ends

end Effect.Ends

/-- A property of states that holds after a computation if it held before, whatever the outcome. -/
def Effect.Keeps (I : σ → Prop) (effect : Effect σ α) : Prop :=
  ∀ s, I s → effect.Ends s (fun _ t => I t) fun _ t => I t

namespace Effect.Keeps

variable {I : σ → Prop} {effect : Effect σ α}

lemma bind {next : α → Effect σ β} (first : effect.Keeps I) (rest : ∀ a, (next a).Keeps I) :
    (effect >>= next).Keeps I :=
  fun s holds => .bind ((first s holds).post fun a t => rest a t)

lemma ofExcept (result : Except Diagnostic α) : (ofExcept result : Effect σ α).Keeps I :=
  fun _ holds => .ofExcept (fun _ _ => holds) fun _ _ => holds

lemma pure (a : α) : (Pure.pure a : Effect σ α).Keeps I := fun _ holds => holds

lemma fail (d : Diagnostic) : (fail d : Effect σ α).Keeps I := fun _ holds => holds

lemma mapFailure {f : Diagnostic → Diagnostic} (kept : effect.Keeps I) :
    (effect.mapFailure f).Keeps I :=
  fun s holds => .mapFailure (kept s holds)

lemma after (kept : effect.Keeps I) {s : σ} (holds : I s) : I (effect.run s).2 := by
  have ends := kept s holds
  rw [Ends] at ends
  rcases outcome : effect.run s with ⟨d | a, t⟩ <;> rw [outcome] at ends <;> exact ends

lemma of_after (kept : ∀ s, I s → I (effect.run s).2) : effect.Keeps I := by
  intro s holds
  have later := kept s holds
  exact .intro (fun _ _ ran => by rw [ran] at later; exact later) fun _ _ ran => by
    rw [ran] at later; exact later

lemma attempt (kept : effect.Keeps I) : (ofState effect.attempt).Keeps I :=
  fun _ holds => kept.after holds

lemma mapM {f : β → Effect σ α} (kept : ∀ b, (f b).Keeps I) (items : List β) :
    (items.mapM f).Keeps I := by
  induction items with
  | nil => exact pure []
  | cons item items ih =>
    rw [mapM_cons]
    exact (kept item).bind fun _ => ih.bind fun _ => pure _

lemma forM {f : β → Effect σ Unit} (kept : ∀ b, (f b).Keeps I) (items : List β) :
    (items.forM f).Keeps I := by
  induction items with
  | nil => exact pure ()
  | cons item items ih => exact (kept item).bind fun _ => ih

end Effect.Keeps

/-- `I` holds after a computation if it held before, and all failures have a property. -/
def Effect.Guards (I : σ → Prop) (P : Diagnostic → Prop) (effect : Effect σ α) : Prop :=
  ∀ s, I s → effect.Ends s (fun _ t => I t) fun d t => P d ∧ I t

namespace Effect.Guards

variable {I : σ → Prop} {effect : Effect σ α}

lemma bind {next : α → Effect σ β} (first : effect.Guards I P) (rest : ∀ a, (next a).Guards I P) :
    (effect >>= next).Guards I P :=
  fun s holds => .bind ((first s holds).post fun a t => rest a t)

lemma pure (a : α) : (Pure.pure a : Effect σ α).Guards I P := fun _ holds => holds

lemma fail {d : Diagnostic} (fails : P d) :
    (fail d : Effect σ α).Guards I P := fun _ holds => ⟨fails, holds⟩

lemma ofExcept_bind {next : α → Effect σ β} (fails : Blockflow.FailsWith P result)
    (rest : ∀ a, result = .ok a → (next a).Guards I P) : (ofExcept result >>= next).Guards I P := by
  cases result with
  | ok a => exact rest a rfl
  | error d => exact fail (fails d rfl)

lemma mono (guards : effect.Guards I P) (weaker : ∀ d, P d → Q d) : effect.Guards I Q :=
  fun s holds => (guards s holds).imp (fun _ _ kept => kept) fun d _ => .imp_left (weaker d)

end Effect.Guards

end

end Blockflow
