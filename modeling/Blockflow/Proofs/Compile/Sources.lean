import Blockflow.Compile.Order
import Blockflow.Proofs.Lookup
import Blockflow.Proofs.Outcome
import Mathlib.Logic.Relation
import Mathlib.Tactic.ByContra

/-!
# What nodes read

Pass-through nodes stand for what they read. `resolve` finds the node that another one stands for,
and
`sourcesOf` what the pins of a node read in this sense. A pin may lead nowhere only if it is a
branch of a switch.
-/

namespace Blockflow.Compile

open List Option

/-- What is found behind a node when pass-through nodes are looked through: the node that computes
the value, or nothing where the way ends at a pin without a source. -/
inductive StandsFor (g : Graph) : Handle → Option Handle → Prop where
  | gone {id : Handle} (missing : g.node? id = none) : StandsFor g id none
  | itself {id : Handle} {n : Node} (live : g.node? id = some n)
      (computes : n.isPass = false) : StandsFor g id (some id)
  | open {id : Handle} {n : Node} (live : g.node? id = some n)
      (passes : n.isPass) (unconnected : n.source? 0 = none) : StandsFor g id none
  | through {id src : Handle} {n : Node} {target : Option Handle}
      (live : g.node? id = some n) (passes : n.isPass)
      (reads : n.source? 0 = some src) (rest : StandsFor g src target) :
      StandsFor g id target

variable {g : Graph} {id : Handle} {target : Option Handle}

lemma resolveWithin_standsFor (resolved : resolveWithin g lookups id = .ok target) :
    StandsFor g id target := by
  induction lookups generalizing id with
  | zero => cases resolved
  | succ lookups ih =>
    rw [resolveWithin] at resolved
    cases found : g.node? id with
    | none =>
      rw [found] at resolved
      cases resolved
      exact .gone found
    | some n =>
      simp only [found] at resolved
      split at resolved
      next computes =>
        cases resolved
        exact .itself found (by simpa using computes)
      next passes =>
        have passes : n.isPass := by simpa using passes
        split at resolved
        next => cases resolved
        next =>
          cases reads : n.source? 0 with
          | none =>
            rw [reads] at resolved
            cases resolved
            exact .open found passes reads
          | some src =>
            rw [reads] at resolved
            exact .through found passes reads (ih resolved)

lemma resolve_standsFor (resolved : resolve g id = .ok target) : StandsFor g id target :=
  resolveWithin_standsFor resolved

namespace StandsFor

lemma computes {id target : Handle} (stands : StandsFor g id (some target)) :
    ∃ n, g.node? target = some n ∧ n.isPass = false := by
  generalize goal : some target = found at stands
  induction stands with
  | gone | «open» => cases goal
  | itself live computes =>
    cases goal
    exact ⟨_, live, computes⟩
  | through _ _ _ _ ih => exact ih goal

lemma unique (first : StandsFor g id a) (second : StandsFor g id b) : a = b := by
  induction first with
  | gone missing => cases second <;> simp_all
  | itself live computes => cases second <;> simp_all
  | «open» live passes unconnected => cases second <;> simp_all
  | through live passes reads _ ih =>
    cases second with
    | gone missing => rw [live] at missing; cases missing
    | itself live' computes =>
      obtain rfl := some.inj (live.symm.trans live')
      rw [passes] at computes
      cases computes
    | «open» live' _ unconnected =>
      obtain rfl := some.inj (live.symm.trans live')
      rw [reads] at unconnected
      cases unconnected
    | through live' _ reads' rest =>
      obtain rfl := some.inj (live.symm.trans live')
      obtain rfl := some.inj (reads.symm.trans reads')
      exact ih rest

end StandsFor

variable {id : Handle} {sources : List (Option Handle)}

/-- What a pin with the given input reads. -/
def PinReads (g : Graph) (input src : Option Handle) : Prop :=
  match input with
  | none => src = none
  | some id => StandsFor g id src

/-- Only a branch of a switch may read nothing. -/
def MayBeOpen (kind : NodeKind) (pin : Nat) : Prop := kind = .switch ∧ 0 < pin

lemma resolvePins_reads
    (resolved : resolvePins g id kind pin inputs = .ok sources) :
    Forall₂ (PinReads g) inputs sources := by
  induction inputs generalizing pin sources with
  | nil =>
    cases resolved
    exact .nil
  | cons input inputs ih =>
    obtain ⟨src, reads, rest⟩ : ∃ src, PinReads g input src ∧
        (if (src.isNone && !(kind == .switch && 0 < pin)) then
          throw (Diagnostic.atNode (Diagnostic.atPin { problem := .unconnectedInput pin } pin) id)
        else do return src :: (← resolvePins g id kind (pin + 1) inputs)) = .ok sources := by
      cases input with
      | none => exact ⟨none, rfl, resolved⟩
      | some input =>
        obtain ⟨src, found, rest⟩ := bind_eq_ok.mp resolved
        exact ⟨src, resolve_standsFor found, rest⟩
    split at rest
    next => cases rest
    next =>
      obtain ⟨sources', others, eq⟩ := bind_eq_ok.mp rest
      cases eq
      exact .cons reads (ih others)

/-- The sources of a node are what its pins read. -/
lemma sourcesOf_reads (found : sourcesOf g id = .ok sources) :
    ∃ n, g.node? id = some n ∧ Forall₂ (PinReads g) n.inputs sources := by
  rw [sourcesOf] at found
  cases live : g.node? id with
  | none => simp [live] at found
  | some n =>
    simp only [live] at found
    cases waits : n.pending with
    | cons first others => simp [waits] at found
    | nil =>
      simp only [waits] at found
      exact ⟨n, rfl, resolvePins_reads found⟩

lemma kindOf_eq (live : g.node? id = some n) : kindOf g id = n.kind := by
  rw [kindOf, live]

/-- A source of a node computes a value itself. -/
lemma source_computes (found : sourcesOf g id = .ok sources) (mem : some src ∈ sources) :
    ∃ n, g.node? src = some n ∧ n.isPass = false := by
  obtain ⟨n, -, pins⟩ := sourcesOf_reads found
  obtain ⟨i, at'⟩ := getElem?_of_mem mem
  obtain ⟨input, -, reads⟩ := forall₂_getElem? pins at'
  cases input with
  | none => cases reads
  | some id => exact StandsFor.computes reads

/-- `reader` has a pin that reads `src`. Parameters are not read any further. -/
def Reads (g : Graph) (isParam : Handle → Bool) (reader src : Handle) : Prop :=
  isParam reader = false ∧ ∃ sources, sourcesOf g reader = .ok sources ∧ some src ∈ sources

end Blockflow.Compile
