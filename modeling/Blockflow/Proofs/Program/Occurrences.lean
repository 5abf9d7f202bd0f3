import Blockflow.Program.Basic
import Mathlib.Tactic.Lemma

/-!
# Instructions in code

Where an instruction stands in a tree of instructions, which circuits some code calls by which
slots, and which natives it applies.
-/

namespace Blockflow

/-- An instruction stands somewhere in the code. -/
inductive Occurs (instr : Instruction) : List Instruction → Prop where
  | here {code : List Instruction} (mem : instr ∈ code) : Occurs instr code
  | body {code body : List Instruction} {addrs : Loop} (mem : .loop addrs body ∈ code)
      (inside : Occurs instr body) : Occurs instr code
  | branch {code : List Instruction} {sel out : Nat} {branches : List Branch} {branch : Branch}
      (mem : .switch sel branches out ∈ code) (among : branch ∈ branches)
      (inside : Occurs instr branch.code) : Occurs instr code

lemma not_occurs_nil (occurs : Occurs instr []) : False := by
  cases occurs with
  | here mem | body mem | branch mem => cases mem

lemma Occurs.mono (occurs : Occurs instr code) (more : code ⊆ code') : Occurs instr code' := by
  cases occurs with
  | here mem => exact .here (more mem)
  | body mem inside => exact .body (more mem) inside
  | branch mem among inside => exact .branch (more mem) among inside

namespace Compile

variable {Named : String → Nat → Prop} {code code' : List Instruction} {Uses : Native → Prop}

/-- The circuits and slots of the calls in some code are among the given ones. -/
def CallsAmong (Named : String → Nat → Prop) (code : List Instruction) : Prop :=
  ∀ c slot ins out, Occurs (.functionCall c slot ins out) code → Named c slot

lemma CallsAmong.imp (calls : CallsAmong Named code)
    (names : ∀ c slot, Named c slot → Named' c slot) : CallsAmong Named' code :=
  fun c slot ins out occurs => names c slot (calls c slot ins out occurs)

/-- The natives that some code applies are among the given ones. -/
def NativesAmong (Uses : Native → Prop) (code : List Instruction) : Prop :=
  ∀ native ins out, Occurs (.call native ins out) code → Uses native

/-- The code calls and applies only what is given. -/
structure Within (Named : String → Nat → Prop) (Uses : Native → Prop) (code : List Instruction) :
    Prop where
  calls : CallsAmong Named code
  natives : NativesAmong Uses code

lemma Within.of_occurs (within : Within Named Uses code')
    (occurs : ∀ instr, Occurs instr code → Occurs instr code') : Within Named Uses code :=
  ⟨fun c slot ins out found => within.calls c slot ins out (occurs _ found),
    fun native ins out found => within.natives native ins out (occurs _ found)⟩

lemma Within.mono (within : Within Named Uses code') (more : code ⊆ code') :
    Within Named Uses code :=
  within.of_occurs fun _ found => found.mono more

end Compile

end Blockflow
