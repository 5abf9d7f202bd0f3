import Blockflow.Graph.Expand
import Blockflow.Proofs.Lookup
import Mathlib.Data.List.Nodup
import Mathlib.Data.List.Perm.Basic
import Mathlib.Logic.Equiv.Basic

/-!
# Circuits stated in other ways

The same circuit can be stated in many ways: its blocks in another order, the links between them
under other names, and with more blocks that nothing refers to. Each way tells where the blocks are
and what the links are called there; a link that a block reads then has the same target.
-/

namespace Blockflow

open List Option Expansion Circuit Function

section

variable {α β : Type}

/-- Diagnostics of the same kind and place; the texts may differ. -/
def Diagnostic.Mirrors (d d' : Diagnostic) : Prop := d'.kind = d.kind ∧ d'.locator = d.locator

lemma Diagnostic.Mirrors.refl (d : Diagnostic) : d.Mirrors d := ⟨rfl, rfl⟩

/-- Two results that are related, or two failures alike. -/
inductive AlikeOutcome (R : α → β → Prop) : Except Diagnostic α → Except Diagnostic β → Prop where
  | ok {a : α} {b : β} (related : R a b) : AlikeOutcome R (.ok a) (.ok b)
  | error {d d' : Diagnostic} (alike : d.Mirrors d') : AlikeOutcome R (.error d) (.error d')

lemma AlikeOutcome.refl (reflexive : ∀ a, R a a) (result : Except Diagnostic α) :
    AlikeOutcome R result result := by
  cases result with
  | ok a => exact .ok (reflexive a)
  | error d => exact .error (.refl d)

end

/-! ## Statements of a circuit -/

/-- A block with other names for its links. -/
def Block.rename (rename : String → String) (block : Block) : Block :=
  { block with inputs := block.inputs.map rename, outputs := block.outputs.map rename }

namespace Circuit

variable {c : Circuit} {link : String}

/-- The links that are named by the declared pins of a circuit. -/
def pinNames (c : Circuit) : List String :=
  c.inputPins.names ++ c.argumentPins.names ++ c.outputPins.names

def linkNames (c : Circuit) : List String :=
  c.pinNames ++ c.blocks.flatMap fun block => block.inputs ++ block.outputs

/-- A circuit stated in another way: blocks are moved, links between blocks are called otherwise,
and there are more blocks, whose outputs have new names. -/
structure RestatedBy (rename : String → String) (extra : List Block) (c c' : Circuit) : Prop where
  name : c'.name = c.name
  inputs : c'.inputs = c.inputs
  outputs : c'.outputs = c.outputs
  arguments : c'.arguments = c.arguments
  blocks : (c.blocks.map (·.rename rename) ++ extra).Perm c'.blocks
  /-- Different links have different new names. -/
  injective : ∀ link ∈ c.linkNames, ∀ other ∈ c.linkNames, rename link = rename other → link = other
  /-- Links that the pins of the circuit name keep their names. -/
  pins : ∀ link ∈ c.pinNames, rename link = link
  isEmpty : ∀ link ∈ c.linkNames, (rename link).isEmpty = link.isEmpty
  new : ∀ block ∈ extra, ∀ link ∈ block.outputs, link.isEmpty = false →
    link ∉ c.linkNames.map rename
  once : ((extra.flatMap Block.outputs).filter (!·.isEmpty)).Nodup

def Restated (c c' : Circuit) : Prop := ∃ rename extra, RestatedBy rename extra c c'

/-- What a circuit shows to others: everything but its blocks. -/
def signature (c : Circuit) : Circuit := { c with blocks := [] }

lemma eq_of_signature {c' : Circuit} (eq : c'.signature = c.signature) :
    c'.name = c.name ∧ c'.inputs = c.inputs ∧ c'.outputs = c.outputs ∧
    c'.arguments = c.arguments := by
  simpa [signature] using eq

/-- The links that are looked up: those that blocks read and those that the outputs name. -/
def mentioned (c : Circuit) : List String :=
  c.outputPins.names ++ c.blocks.flatMap Block.inputs

def declaredNames (c : Circuit) : List String :=
  c.inputPins.names ++ c.argumentPins.names ++ c.blocks.flatMap Block.outputs

lemma mem_linkNames_of_mentioned (mem : link ∈ c.mentioned) : link ∈ c.linkNames := by
  rcases mem_append.mp mem with isOutput | isInput
  · exact mem_append_left _ (mem_append_right _ isOutput)
  · obtain ⟨block, isBlock, inside⟩ := mem_flatMap.mp isInput
    exact mem_append_right _ (mem_flatMap.mpr ⟨block, isBlock, mem_append_left _ inside⟩)

lemma mem_linkNames_of_declared (mem : link ∈ c.declaredNames) : link ∈ c.linkNames := by
  rcases mem_append.mp mem with isPin | isOutput
  · exact mem_append_left _ (mem_append_left _ isPin)
  · obtain ⟨block, isBlock, inside⟩ := mem_flatMap.mp isOutput
    exact mem_append_right _ (mem_flatMap.mpr ⟨block, isBlock, mem_append_right _ inside⟩)

end Circuit

/-- The same target, with the block at its new place. -/
def LinkTarget.move (move : Nat → Nat) : LinkTarget → LinkTarget
  | .output block pin => .output (move block) pin
  | target => target

/-! ## The links of a circuit -/

namespace Expansion

variable {c : Circuit} {name : String}

/-- The declarations that have a name. -/
def namedDeclarations (c : Circuit) : List (String × LinkTarget) :=
  (declarations c).filter fun entry => !entry.1.isEmpty

lemma foldlM_declare (c : Circuit) (entries before : List (String × LinkTarget))
    (once : (before.map Prod.fst).Nodup) :
    let all := before ++ entries.filter fun entry => !entry.1.isEmpty
    ((all.map Prod.fst).Nodup ∧
      entries.foldlM (fun links (name, target) => declare c links name target) before = .ok all) ∨
    (¬(all.map Prod.fst).Nodup ∧ ∃ name,
      entries.foldlM (fun links (name, target) => declare c links name target) before =
        .error (Diagnostic.inCircuit { problem := .duplicateLink name c.name } c.name)) := by
  induction entries generalizing before with
  | nil => exact .inl ⟨by simpa using once, by simp; rfl⟩
  | cons entry entries ih =>
    obtain ⟨name, target⟩ := entry
    simp only [foldlM_cons, declare]
    cases isEmpty : name.isEmpty with
    | true =>
      rw [filter_cons_of_neg (by simp [isEmpty])]
      exact ih before once
    | false =>
      rw [filter_cons_of_pos (by simp [isEmpty])]
      cases known : before.lookup name with
      | some other =>
        refine .inr ⟨fun nodup => ?_, name, rfl⟩
        have twice : name ∈ before.map Prod.fst := mem_map.mpr ⟨_, lookup_mem known, rfl⟩
        rw [map_append] at nodup
        exact (nodup_append.mp nodup).2.2 name twice name mem_cons_self rfl
      | none =>
        have absent : name ∉ before.map Prod.fst := by
          intro mem
          obtain ⟨⟨_, other⟩, found, rfl⟩ := mem_map.mp mem
          cases known.symm.trans (lookup_of_mem once found)
        have once' : ((before ++ [(name, target)]).map Prod.fst).Nodup := by
          rw [map_append]
          refine nodup_append.mpr ⟨once, nodup_singleton _, fun other mem new isNew eq => ?_⟩
          rw [eq, mem_singleton.mp isNew] at mem
          exact absent mem
        have rest := ih _ once'
        rw [append_assoc] at rest
        exact rest

/-- A circuit has the links that it declares, unless it declares one twice. -/
lemma linkMap_cases (c : Circuit) :
    (((namedDeclarations c).map Prod.fst).Nodup ∧ linkMap c = .ok (namedDeclarations c)) ∨
    (¬((namedDeclarations c).map Prod.fst).Nodup ∧ ∃ name, linkMap c =
      .error (Diagnostic.inCircuit { problem := .duplicateLink name c.name } c.name)) :=
  foldlM_declare c (declarations c) [] nodup_nil

lemma map_fst_namedDeclarations (c : Circuit) :
    (namedDeclarations c).map Prod.fst = c.declaredNames.filter (!·.isEmpty) := by
  have blocks : ∀ (blocks : List Block) (start : Nat), ((blocks.zipIdx start).flatMap fun block =>
      block.1.outputs.zipIdx.map fun name =>
        (name.1, LinkTarget.output block.2 name.2)).map Prod.fst =
        blocks.flatMap Block.outputs := by
    intro blocks
    induction blocks with
    | nil => exact fun _ => rfl
    | cons block blocks ih =>
      intro start
      rw [zipIdx_cons, flatMap_cons, map_append, ih]
      congr 1
      rw [List.map_map]
      exact zipIdx_map_fst 0 block.outputs
  have named : (declarations c).map Prod.fst = c.declaredNames := by
    simp only [declarations, List.map_append, List.map_map, Circuit.declaredNames]
    rw [blocks c.blocks 0]
    congr 1
    congr 1
    · exact List.zipIdx_map_fst 0 _
    · exact List.zipIdx_map_fst 0 _
  rw [← named, List.filter_map]
  rfl

/-- What a link of a circuit is declared as. -/
def Declares (c : Circuit) (name : String) : LinkTarget → Prop
  | .input i => c.inputPins.names[i]? = some name
  | .argument i => c.argumentPins.names[i]? = some name
  | .output i pin => ∃ block, c.blocks[i]? = some block ∧ block.outputs[pin]? = some name

lemma mem_declarations : (name, target) ∈ declarations c ↔ Declares c name target := by
  simp only [declarations, List.mem_append, List.mem_map, List.mem_flatMap, Prod.exists,
    List.mem_zipIdx_iff_getElem?]
  constructor
  · rintro ((⟨_, _, found, eq⟩ | ⟨_, _, found, eq⟩) | ⟨block, _, found, _, _, isPin, eq⟩)
    · cases eq
      exact found
    · cases eq
      exact found
    · cases eq
      exact ⟨block, found, isPin⟩
  · intro declares
    cases target with
    | input i => exact .inl (.inl ⟨name, i, declares, rfl⟩)
    | argument i => exact .inl (.inr ⟨name, i, declares, rfl⟩)
    | output i pin =>
      obtain ⟨block, found, isPin⟩ := declares
      exact .inr ⟨block, i, found, name, pin, isPin, rfl⟩

lemma block_of_lookup {links : List (String × LinkTarget)} (isLinks : linkMap c = .ok links)
    (found : links.lookup name = some (.output i pin)) : i < c.blocks.length := by
  rcases linkMap_cases c with ⟨-, eq⟩ | ⟨-, _, failed⟩
  · cases eq.symm.trans isLinks
    obtain ⟨block, isBlock, -⟩ := mem_declarations.mp (mem_filter.mp (lookup_mem found)).1
    exact lt_of_getElem? isBlock
  · cases failed.symm.trans isLinks

end Expansion

/-! ## Where the parts of a circuit are -/

/-- The places of the items of a list in a rearrangement of it. -/
lemma perm_places {items items' : List α} (perm : items.Perm items') :
    ∃ move : Nat → Nat, Injective move ∧ ∀ index, items'[move index]? = items[index]? := by
  induction perm with
  | nil => exact ⟨id, injective_id, fun _ => rfl⟩
  | cons item _ ih =>
    obtain ⟨move, injective, places⟩ := ih
    refine ⟨fun index => index.casesOn 0 fun index => move index + 1, fun i j eq => ?_,
      fun index => ?_⟩
    · rcases i with _ | i <;> rcases j with _ | j <;> simp at eq ⊢
      exact injective eq
    · rcases index with _ | index
      · rfl
      · exact places index
  | swap first second items =>
    refine ⟨Equiv.swap 0 1, (Equiv.swap 0 1).injective, fun index => ?_⟩
    rcases index with _ | _ | index
    · rfl
    · rfl
    · rfl
  | trans _ _ ih ih' =>
    obtain ⟨move, injective, places⟩ := ih
    obtain ⟨move', injective', places'⟩ := ih'
    exact ⟨move' ∘ move, injective'.comp injective, fun index => (places' _).trans (places index)⟩

namespace Circuit

/-- The second circuit has the blocks of the first one, at other places and with other names for the
links between them, and a link that is looked up in the first one has the same target in the
second. -/
structure Mirrors (rename : String → String) (move : Nat → Nat) (c c' : Circuit) : Prop where
  signature : c'.signature = c.signature
  blocks : ∀ {i block}, c.blocks[i]? = some block →
    c'.blocks[move i]? = some (block.rename rename)
  apart : Injective move
  outputs : ∀ link ∈ c.outputPins.names, rename link = link
  isEmpty : ∀ link ∈ c.mentioned, (rename link).isEmpty = link.isEmpty
  links : AlikeOutcome (fun links links' => ∀ link ∈ c.mentioned,
      links'.lookup (rename link) = (links.lookup link).map (·.move move))
    (linkMap c) (linkMap c')

namespace RestatedBy

variable {rename : String → String} {extra : List Block} {c c' : Circuit}

variable (restated : RestatedBy rename extra c c')
include restated

/-- The links that the second circuit declares are those of the first one and those of the new
blocks. -/
lemma declared_perm :
    (c'.declaredNames.filter (!·.isEmpty)).Perm ((c.declaredNames.filter (!·.isEmpty)).map rename ++
      (extra.flatMap Block.outputs).filter (!·.isEmpty)) := by
  have pins : ∀ link ∈ c.inputPins.names ++ c.argumentPins.names, rename link = link :=
    fun link mem => restated.pins link (mem_append_left _ mem)
  have outputs : c'.blocks.flatMap Block.outputs |>.Perm
      ((c.blocks.flatMap Block.outputs).map rename ++ extra.flatMap Block.outputs) := by
    refine (restated.blocks.flatMap_right Block.outputs).symm.trans (.of_eq ?_)
    rw [flatMap_append, flatMap_map, map_flatMap]
    rfl
  have declared : c'.declaredNames.Perm
      (c.declaredNames.map rename ++ extra.flatMap Block.outputs) := by
    rw [declaredNames, declaredNames, inputPins, argumentPins, restated.inputs,
      restated.arguments, map_append,
      append_assoc (map rename _)]
    refine .append (.of_eq ?_) outputs
    exact (map_congr_left pins).trans (map_id'' (fun _ => rfl) _) |>.symm
  refine (declared.filter _).trans (.of_eq ?_)
  rw [List.filter_append, List.filter_map]
  congr 2
  refine filter_congr fun link mem => ?_
  rw [comp, restated.isEmpty link (mem_linkNames_of_declared mem)]

lemma nodup_iff :
    (c'.declaredNames.filter (!·.isEmpty)).Nodup ↔ (c.declaredNames.filter (!·.isEmpty)).Nodup := by
  have known : ∀ {link}, link ∈ c.declaredNames.filter (!·.isEmpty) → link ∈ c.linkNames :=
    fun mem => mem_linkNames_of_declared (mem_filter.mp mem).1
  rw [restated.declared_perm.nodup_iff, nodup_append]
  constructor
  · exact fun nodup => .of_map _ nodup.1
  · intro nodup
    refine ⟨Nodup.map_on (fun link mem other mem' =>
      restated.injective link (known mem) other (known mem')) nodup, restated.once,
        fun link mem other isNew eq => ?_⟩
    obtain ⟨old, isOld, rfl⟩ := mem_map.mp mem
    obtain ⟨inside, named⟩ := mem_filter.mp isNew
    obtain ⟨block, isBlock, isOutput⟩ := mem_flatMap.mp inside
    exact restated.new block isBlock other isOutput (by simpa using named)
      (eq ▸ mem_map_of_mem (known isOld))

/-- A link of the first circuit is a link of the second one. -/
lemma mem_namedDeclarations (blocks : ∀ {i block}, c.blocks[i]? = some block →
      c'.blocks[move i]? = some (block.rename rename))
    (mem : (link, target) ∈ namedDeclarations c) :
    (rename link, target.move move) ∈ namedDeclarations c' := by
  obtain ⟨declared, named⟩ := mem_filter.mp mem
  have known : link ∈ c.linkNames := by
    have isName := mem_map_of_mem (f := Prod.fst) mem
    rw [map_fst_namedDeclarations] at isName
    exact mem_linkNames_of_declared (mem_filter.mp isName).1
  refine mem_filter.mpr ⟨?_, by simpa [restated.isEmpty link known] using named⟩
  have declares := mem_declarations.mp declared
  refine mem_declarations.mpr ?_
  have pin : ∀ {names : List String} {i : Nat}, names ⊆ c.pinNames → names[i]? = some link →
      names[i]? = some (rename link) := by
    intro names i among found
    rw [restated.pins link (among (mem_of_getElem? found)), found]
  cases target with
  | input i =>
    show (inputPins c').names[i]? = some (rename link)
    rw [inputPins, restated.inputs]
    exact pin (fun _ isPin => mem_append_left _ (mem_append_left _ isPin)) declares
  | argument i =>
    show (argumentPins c').names[i]? = some (rename link)
    rw [argumentPins, restated.arguments]
    exact pin (fun _ isPin => mem_append_left _ (mem_append_right _ isPin)) declares
  | output i pin =>
    obtain ⟨block, found, isPin⟩ := declares
    refine ⟨_, blocks found, ?_⟩
    rw [Block.rename, getElem?_map, isPin, map_some]

/-- A circuit that is stated in another way mirrors the first one. -/
lemma mirrors : ∃ move, Mirrors rename move c c' := by
  obtain ⟨move, injective, places⟩ := perm_places restated.blocks
  have blocks : ∀ {i block}, c.blocks[i]? = some block →
      c'.blocks[move i]? = some (block.rename rename) := by
    intro i block found
    have inside : i < (c.blocks.map (·.rename rename)).length := by
      rw [length_map]
      exact lt_of_getElem? found
    rw [places, getElem?_append_left inside, getElem?_map, found, map_some]
  refine ⟨move, ?_, blocks, injective, fun link mem => restated.pins link (mem_append_right _ mem),
    fun link mem => restated.isEmpty link (mem_linkNames_of_mentioned mem), ?_⟩
  · cases c
    cases restated.name
    cases restated.inputs
    cases restated.outputs
    cases restated.arguments
    rfl
  have names := map_fst_namedDeclarations c
  have names' := map_fst_namedDeclarations c'
  rcases linkMap_cases c with ⟨once, isLinks⟩ | ⟨twice, _, failed⟩
  · rw [names] at once
    rcases linkMap_cases c' with ⟨once', isLinks'⟩ | ⟨twice', -⟩
    · rw [isLinks, isLinks']
      refine .ok fun link mem => ?_
      cases found : (namedDeclarations c).lookup link with
      | some target =>
        exact lookup_of_mem once' (restated.mem_namedDeclarations blocks (lookup_mem found))
      | none =>
        refine lookup_eq_none_iff.mpr fun entry isEntry => ?_
        have named : entry.1 ∈ c'.declaredNames.filter (!·.isEmpty) :=
          names' ▸ mem_map_of_mem isEntry
        rw [bne_iff_ne]
        intro eq
        rcases mem_append.mp (restated.declared_perm.subset (eq ▸ named)) with old | isNew
        · -- the link is declared in the first circuit too
          obtain ⟨other, declared, eq⟩ := mem_map.mp old
          have isLink :=
            restated.injective other (mem_linkNames_of_declared (mem_filter.mp declared).1) link
            (mem_linkNames_of_mentioned mem) eq
          rw [isLink, ← names] at declared
          obtain ⟨⟨_, target⟩, isDeclared, rfl⟩ := mem_map.mp declared
          cases found.symm.trans (lookup_of_mem (names ▸ once) isDeclared)
        · obtain ⟨inside, filled⟩ := mem_filter.mp isNew
          obtain ⟨block, isBlock, isOutput⟩ := mem_flatMap.mp inside
          exact restated.new block isBlock _ isOutput (by simpa using filled)
            (mem_map_of_mem (mem_linkNames_of_mentioned mem))
    · exact absurd (restated.nodup_iff.mpr once) (names' ▸ twice')
  · rcases linkMap_cases c' with ⟨once', -⟩ | ⟨-, _, failed'⟩
    · exact absurd (names ▸ restated.nodup_iff.mp (names' ▸ once')) twice
    · rw [failed, failed', restated.name]
      exact .error ⟨rfl, rfl⟩

end RestatedBy

lemma Restated.signature (restated : Restated c c') : c'.signature = c.signature := by
  obtain ⟨rename, extra, restated⟩ := restated
  obtain ⟨move, mirrors⟩ := restated.mirrors
  exact mirrors.signature

end Circuit

/-! ## Libraries -/

/-- The same block types, and the same circuits stated in other ways. -/
def Library.Restated (lib lib' : Library) : Prop :=
  lib'.assemblers = lib.assemblers ∧ List.Forall₂ Circuit.Restated lib.circuits lib'.circuits

/-- How the circuits of a library are stated in another one: for every circuit, what its links are
called and where its blocks are. -/
structure Restyling (lib lib' : Library) where
  rename : String → String → String
  move : String → Nat → Nat
  assemblers : lib'.assemblers = lib.assemblers
  signatures : lib'.circuits.map signature = lib.circuits.map signature
  circuits : ∀ name, Rel (Mirrors (rename name) (move name)) (lib.circuit? name)
    (lib'.circuit? name)

lemma findCircuit?_restated (restated : Forall₂ Restated circuits circuits') (name : String) :
    Rel Restated (findCircuit? circuits name) (findCircuit? circuits' name) := by
  rw [findCircuit?, findCircuit?]
  induction restated with
  | nil => exact .none
  | @cons c c' _ _ restated _ ih =>
    have sameName : c'.name = c.name := (eq_of_signature restated.signature).1
    rw [find?_cons, find?_cons, sameName]
    split
    · exact .some restated
    · exact ih

lemma Library.Restated.restyling (restated : lib.Restated lib') :
    Nonempty (Restyling lib lib') := by
  obtain ⟨assemblers, circuits⟩ := restated
  have styled : ∀ name, ∃ style : (String → String) × (Nat → Nat),
      Rel (Mirrors style.1 style.2) (lib.circuit? name) (lib'.circuit? name) := by
    intro name
    have found := findCircuit?_restated circuits name
    rw [Library.circuit?, Library.circuit?]
    generalize findCircuit? lib.circuits name = first, findCircuit? lib'.circuits name =
      second at found
    cases found with
    | none => exact ⟨(id, id), .none⟩
    | some restated =>
      obtain ⟨rename, extra, restated⟩ := restated
      obtain ⟨move, mirrors⟩ := restated.mirrors
      exact ⟨(rename, move), .some mirrors⟩
  choose style mirrors using styled
  refine ⟨fun name => (style name).1, fun name => (style name).2, assemblers, ?_, mirrors⟩
  have signatures : Forall₂ Eq (lib.circuits.map signature) (lib'.circuits.map signature) :=
    forall₂_map_left_iff.mpr
      (forall₂_map_right_iff.mpr (circuits.imp fun _ _ eq => eq.signature.symm))
  exact (forall₂_eq_eq_eq ▸ signatures).symm

end Blockflow
