import Blockflow.Graph.Settle
import Blockflow.Proofs.Literal.Layers
import Blockflow.Proofs.Lookup

/-!
# Failures of expansion

Whatever goes wrong while links are resolved, no diagnostic names a node: the node that waits for
the link is named where the failure arrives.
-/

namespace Blockflow

open Effect Edit

open Diagnostic

/-! ## Literals -/

namespace Literal

/-- Nothing that is asked on the way to a type names a node. -/
def placeless : Layering Unit where
  Later _ _ := True
  Judges _ Holds action := ∀ s, action.Ends s (fun a _ => Holds () a) fun d _ => d.Placeless
  Good _ _ := True
  Raw _ _ := True
  trans _ _ := trivial
  mono _ _ := trivial
  pure holds _ := holds () trivial
  fail placeless _ := placeless
  bind first rest s := .bind ((first s).post fun a t holds => rest a () trivial holds t)
  mapFailure keeps judged s :=
    .mapFailure ((judged s).imp (fun _ _ holds => holds) fun d _ => keeps d)
  intern _ _ _ _ := trivial
  plain _ _ _ _ _ := trivial
  checked _ _ := trivial

lemma parseKind_fails (tag text : String) : (parseKind tag text).FailsWith Placeless := by
  rw [parseKind.eq_def]
  split
  case h_6 =>
    exact .bind (fun s d failed => (parseType_laid placeless text () s).of_error
      (Prod.ext failed rfl)) fun _ => .ofState _
  case h_7 => exact .fail rfl
  all_goals exact .bind (.ofExcept (scan_fails _ _ _)) fun _ => .ofState _

lemma parseAuto_fails (text : String) : (parseAuto text).FailsWith Placeless := by
  refine .bind (.ofState _) fun read => ?_
  split
  · exact .pure _
  · dsimp only
    split
    · split <;> exact .fail rfl
    · exact .fail rfl

lemma parse_fails (tag text : String) : (parse tag text).FailsWith Placeless := by
  rw [parse]
  split
  · exact parseAuto_fails text
  · exact parseKind_fails tag text

end Literal

/-! ## Links -/

/-- The blocks of a library fail without naming a node. -/
def Library.Placeless (lib : Library) : Prop :=
  ∀ entry ∈ lib.assemblers, ∀ asm, (entry.2 asm).FailsWith Diagnostic.Placeless

lemma Expansion.make_fails (c : Circuit) (parents : List CallSite) (args : List String) :
    FailsWith Placeless (make c parents args) := by
  refine FailsWith.bind (FailsWith.foldlM (fun links declaration => ?_) _ _) fun _ => .ok _
  show FailsWith Placeless (declare c links declaration.1 declaration.2)
  rw [declare]
  split
  · exact .ok _
  · split
    · exact .error rfl
    · exact .ok _

namespace Expand

lemma onGraph_fails (op : Graph → α × Graph) : (onGraph op).FailsWith Placeless := fun _ => .ok _

lemma onStore_fails (fails : action.FailsWith Placeless) : (onStore action).FailsWith Placeless :=
  fun w => fails w.store

lemma expansionAt_fails (id : Handle) : (expansionAt id).FailsWith Placeless := by
  refine .bind (fun _ => .ok _) fun g => ?_
  split
  · exact .pure _
  · exact .fail rfl

lemma modifyAt_fails (id : Handle) (f : Expansion → Expansion) :
    (modifyAt id f).FailsWith Placeless :=
  .bind (.bind (expansionAt_fails id) fun _ => .pure _) fun _ => onGraph_fails _

lemma live?_fails (n : Option Handle) : (live? n).FailsWith Placeless :=
  .bind (fun _ => .ok _) fun _ => .pure _

lemma resolveArgument_fails (id : Handle) (i : Nat) :
    (resolveArgument id i).FailsWith Placeless := by
  have v : ∀ e, (argumentValue e i).FailsWith Placeless := by
    intro e
    rw [argumentValue]
    split
    · exact .bind (.mapM Literal.parseAuto_fails _) fun _ => .ofState _
    · split
      · exact Literal.parseAuto_fails _
      · exact .fail rfl
  refine .bind (expansionAt_fails id) fun e => .bind (live?_fails _) fun n => ?_
  split
  · exact .pure _
  · exact .bind (onStore_fails (v e)) fun _ => .bind (onGraph_fails _) fun _ =>
      .bind (modifyAt_fails id _) fun _ => .pure _

lemma nestedOutputs_fails (id : Handle) (block : Nat) (callee : Circuit) (descriptor : Block)
    (args : List String) : (nestedOutputs id block callee descriptor args).FailsWith Placeless := by
  have checks : ∀ pins side supplied,
      FailsWith Placeless (checkPins callee pins side supplied) := by
    intro pins side supplied
    rw [checkPins]
    split
    · exact .ok _
    · exact .error rfl
  have adds : ∀ pin, (addNestedOutput id block pin).FailsWith Placeless := fun pin =>
    .bind (onGraph_fails _) fun _ => .bind (onGraph_fails _) fun _ => .pure _
  rw [nestedOutputs]
  dsimp only
  generalize (if callee.outputPins.isVariadic then callee.outputPins.fixed else
    descriptor.outputs.length) = fixed
  refine .bind (.ofExcept (checks _ _ _)) fun _ => .bind (.ofExcept (checks _ _ _)) fun _ =>
    .bind (.ofExcept (checks _ _ _)) fun _ => .bind (.mapM adds _) fun outs => ?_
  split
  · split
    · exact .bind (adds _) fun _ => .bind (.mapM (fun _ => .bind (onGraph_fails _) fun _ =>
        .bind (onGraph_fails _) fun _ => .pure _) _) fun _ => .pure _
    · exact .pure _
  · exact .pure _

lemma checkAncestors_fails (callee : Circuit) (ids : List Handle) :
    (checkAncestors callee ids).FailsWith Placeless := by
  induction ids with
  | nil => exact .pure _
  | cons id ids ih =>
    refine .bind (expansionAt_fails id) fun e => ?_
    split
    · exact .fail rfl
    · exact ih

variable {lib : Library} (placeless : lib.Placeless)
include placeless

lemma materialize_fails (id : Handle) (block : Nat) :
    (materialize lib id block).FailsWith Placeless := by
  refine .bind (expansionAt_fails id) fun e => ?_
  split
  · dsimp only
    split
    next found =>
      refine .bind (placeless _ (lookup_mem found) _) fun outs => ?_
      split
      · exact .fail rfl
      · exact modifyAt_fails id _
    next =>
      split
      · exact .bind (nestedOutputs_fails _ _ _ _ _) fun _ => modifyAt_fails id _
      · exact .fail rfl
  · exact .pure _

lemma blockOutput_fails (id : Handle) (block pin : Nat) :
    (blockOutput lib id block pin).FailsWith Placeless := by
  refine .bind (materialize_fails placeless id block) fun _ => .bind (expansionAt_fails id) fun e =>
    ?_
  split
  · exact live?_fails _
  · exact live?_fails _
  · exact .pure _

omit placeless in
lemma resolveInput_fails (e : Expansion) (id : Handle) (site : CallSite) (i : Nat)
    (resolves : ∀ name, (resolve name).FailsWith Placeless) :
    (resolveInput e id site i resolve).FailsWith Placeless := by
  refine .bind (live?_fails _) fun pack => ?_
  split
  · exact .pure _
  · refine .bind (expansionAt_fails site.expansion) fun caller => ?_
    dsimp only
    split
    · exact .bind (onGraph_fails _) fun pack =>
        .bind (.forM (fun _ => .bind (resolves _) fun _ => onGraph_fails _) _)
        fun _ => .bind (modifyAt_fails id _) fun _ => .pure _
    · split
      · exact resolves _
      · exact .pure _

lemma resolveLink_fails (sites : List CallSite) (id : Handle) (name : String) :
    (resolveLink lib sites id name).FailsWith Placeless := by
  rw [resolveLink.eq_def]
  dsimp only
  split
  · exact .pure _
  refine .bind (expansionAt_fails id) fun e => ?_
  split
  · exact .fail rfl
  · exact .bind (resolveArgument_fails id _) fun _ => .pure _
  · exact blockOutput_fails placeless id _ _
  · match sites with
    | [] => exact .pure _
    | site :: outer => exact resolveInput_fails e id site _ (resolveLink_fails outer site.expansion)

lemma link_fails (id : Handle) (name : String) : (link lib id name).FailsWith Placeless :=
  .bind (fun _ => .ok _) fun _ => resolveLink_fails placeless _ id name

lemma nestedOutput_fails (id : Handle) (block pin : Nat) :
    (nestedOutput lib id block pin).FailsWith Placeless := by
  have expands : (expandNested lib id block).FailsWith Placeless := by
    refine .bind (expansionAt_fails id) fun e => ?_
    dsimp only
    split
    · exact .fail rfl
    · exact .bind (checkAncestors_fails _ _) fun _ =>
        .bind (.ofExcept (Expansion.make_fails _ _ _)) fun _ =>
        .bind (onGraph_fails _) fun _ => .bind (modifyAt_fails id _) fun _ => .pure _
  have child : ∀ child, (childOf lib id block child).FailsWith Placeless := by
    intro child
    rw [childOf.eq_def]
    split
    · refine .bind (fun _ => .ok _) fun g => ?_
      split
      · exact .pure _
      · exact expands
    · exact expands
  refine .bind (expansionAt_fails id) fun e => ?_
  split
  · refine .bind (child _) fun inner => .bind (expansionAt_fails inner) fun e => ?_
    split
    · exact .fail rfl
    · split
      · exact .pure _
      · exact .bind (modifyAt_fails inner _) fun _ => .attempt (link_fails placeless inner _)
          fun result fails =>
          .bind (modifyAt_fails inner _) fun _ => .ofExcept fails
  · exact .pure _

end Expand

/-! ## Blocks -/

namespace Assembly

variable (asm : Assembly)

lemma expect_fails (side : Side) (arity : Arity) : FailsWith Placeless (asm.expect side arity) := by
  rw [expect]
  split
  · exact .ok _
  · exact .error rfl

lemma argument_fails (i : Nat) : FailsWith Placeless (asm.argument i) := by
  rw [argument]
  split
  · exact .ok _
  · exact .error rfl

lemma literal_fails (i : Nat) (tag : String) : (asm.literal i tag).FailsWith Placeless :=
  .bind (.ofExcept (asm.argument_fails i)) fun _ => Expand.onStore_fails (Literal.parse_fails tag _)

lemma addNode_fails (b : Behavior) : (asm.addNode b).FailsWith Placeless := fun _ => .ok _

lemma single_fails (b : Behavior) : (asm.single b).FailsWith Placeless :=
  .bind (addNode_fails _ _) fun _ => .pure _

lemma ofNative_fails (native : Native) : (ofNative native asm).FailsWith Placeless :=
  .bind (.ofExcept (expect_fails _ _ _)) fun _ => .bind (.ofExcept (expect_fails _ _ _)) fun _ =>
    single_fails _ _

end Assembly

namespace Library

open Assembly

lemma builtin_placeless : builtin.Placeless := by
  have checked : ∀ {α : Type} (asm : Assembly) (side : Side) (arity : Arity) {next : Unit → Edit α},
      (next ()).FailsWith Diagnostic.Placeless →
        (ofExcept (asm.expect side arity) >>= next).FailsWith Diagnostic.Placeless :=
    fun asm side arity _ fails => .bind (.ofExcept (asm.expect_fails side arity)) fun _ => fails
  intro entry mem asm
  simp only [builtin, builtinAssemblers, List.mem_append, List.mem_map, List.mem_cons,
    List.not_mem_nil, or_false]
    at mem
  rcases mem with (((⟨tag, -, rfl⟩ | rfl) | ⟨⟨name, inputs⟩, -, rfl⟩) | rfl | rfl | rfl | rfl | rfl
      | rfl | rfl) |
    ⟨native, -, rfl⟩
  · exact checked _ _ _
      (checked _ _ _ (checked _ _ _ (.bind (literal_fails _ _ _) fun _ => single_fails _ _)))
  · refine checked _ _ _ (checked _ _ _ ?_)
    split
    case h_3 => exact .fail rfl
    all_goals exact .bind (literal_fails _ _ _) fun _ => single_fails _ _
  · exact checked _ _ _ (checked _ _ _ (single_fails _ _))
  · exact checked _ _ _ (checked _ _ _ (checked _ _ _ (single_fails _ _)))
  · exact checked _ _ _ (single_fails _ _)
  · refine checked _ _ _ ?_
    split
    · exact .mapM (fun _ => addNode_fails _ _) _
    · refine checked _ _ _ (.bind (literal_fails _ _ _) fun i => ?_)
      dsimp only
      split
      · exact .fail rfl
      · exact single_fails _ _
  · exact checked _ _ _ (checked _ _ _ (single_fails _ _))
  · exact checked _ _ _ (checked _ _ _ (single_fails _ _))
  · exact checked _ _ _ (checked _ _ _ (single_fails _ _))
  · refine checked _ _ _ (checked _ _ _ (.bind (.ofExcept (argument_fails _ _)) fun name => ?_))
    split
    · exact .fail rfl
    · dsimp only
      split
      · exact .fail rfl
      · exact single_fails _ _
  · exact ofNative_fails asm native

end Library

end Blockflow
