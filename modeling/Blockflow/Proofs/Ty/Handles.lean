import Blockflow.Proofs.Ty.Interning

/-!
# Handles

A run of requests between two resets, and what came before it. Handles stay in use when their table
is reset, also as parts of new types. Since the last reset, types are the same exactly if they were
asked for alike, and none of them shares its handle with an older one; labels are numbered one by
one.
-/

namespace Blockflow

open List Option Store TypeTable

/-- What a host may ask a table for. The owner of a struct with names is left out, since types are
told apart without it; and so is interning a kind as it stands, which is how the others are
answered. -/
inductive TypeRequest where
  | primitive (p : Primitive)
  | vector (element : Ty) (count : Nat) (simd : Bool)
  | struct (fields : List Ty)
  | namedStruct (fields : List (String × Ty))
  | void
  | pointer (target : Option Ty) (flags : PointerFlags)
  | function (result : Ty) (params : List Ty)
  | text
  | selector (payload : Ty)

namespace TypeRequest

def answer : TypeRequest → Action Ty
  | .primitive p => Store.primitive p
  | .vector element count simd => tryTypes (·.vectorOf element count simd)
  | .struct fields => withTypes (·.structOf fields)
  | .namedStruct fields => withTypes (·.namedStructOf fields)
  | .void => withTypes (·.void)
  | .pointer target flags => withTypes (·.pointerTo target flags)
  | .function result params => withTypes (·.functionOf result params)
  | .text => withTypes (·.text)
  | .selector payload => withTypes (·.selectorOf payload)

def kind (table : TypeTable) : TypeRequest → Shape Ty
  | .primitive p => .primitive p
  | .vector element count simd => .vector element count simd
  | .struct fields => .struct fields none
  | .namedStruct fields => .struct (fields.map (·.2)) (some (fields.map (·.1)))
  | .void => .struct [] none
  | .pointer target flags => .pointer target flags
  | .function result params => .function result params
  | .text => .pointer (some (table.primitive .u8)) { readOnly := true }
  | .selector payload => .struct [table.primitive .i64, payload] (some ["path", "payload"])

/-- A request is refused, or gets the type of what it asks for. -/
lemma answer_cases (request : TypeRequest) (s : Store) :
    (∃ d, request.answer.run s = (.error d, s)) ∨
    (request.kind s.types).Fits ∧
      request.answer.run s =
        (Effect.ofState (withTypes (·.intern (request.kind s.types)))).run s := by
  cases request with
  | vector element count simd =>
    have ran : (answer (.vector element count simd)).run s =
        ((s.types.vectorOf element count simd).1,
          { s with types := (s.types.vectorOf element count simd).2 }) := rfl
    rw [ran, vectorOf]
    split
    next fits => exact .inr ⟨fits, rfl⟩
    next => exact .inl ⟨_, rfl⟩
  | _ => exact .inr ⟨trivial, rfl⟩

end TypeRequest

inductive TypeEvent where
  | made (kind : Shape Ty) (ty : Ty)
  | named (name : String) (id : Nat)

/-- The types in use: older ones, those that were asked for, and their parts. -/
inductive Held (kept : Ty → Prop) (events : List TypeEvent) : Ty → Prop where
  | kept {ty : Ty} (was : kept ty) : Held kept events ty
  | made {kind : Shape Ty} {ty : Ty} (mem : .made kind ty ∈ events) : Held kept events ty
  | part {ty part : Ty} (held : Held kept events ty) (mem : part ∈ ty.shape.parts) :
      Held kept events part

/-- Requests for types in use and primitives, literals that were read, and labels, one after
another, the latest first. -/
inductive TypeLog (kept : Ty → Prop) (start : Store) : Store → List TypeEvent → Prop where
  | start : TypeLog kept start start []
  | answered {s t : Store} {events : List TypeEvent} {ty : Ty} (log : TypeLog kept start s events)
      (request : TypeRequest) (held : ∀ part ∈ (request.kind s.types).parts,
        Held kept events part ∨ ∃ p, part = s.types.primitive p)
      (ran : request.answer.run s = (.ok ty, t)) : TypeLog kept start t
        (.made (request.kind s.types) ty :: events)
  | refused {s t : Store} {events : List TypeEvent} {d : Diagnostic}
      (log : TypeLog kept start s events)
      (request : TypeRequest) (ran : request.answer.run s = (.error d, t)) :
      TypeLog kept start t events
  | read {s t : Store} {events : List TypeEvent} {ty : Ty} (log : TypeLog kept start s events)
      (literal : String)
      (ran : (Literal.parseType literal).run s = (.ok ty, t)) : TypeLog kept start t
        (.made ty.shape ty :: events)
  | unread {s t : Store} {events : List TypeEvent} {d : Diagnostic}
      (log : TypeLog kept start s events)
      (literal : String) (ran : (Literal.parseType literal).run s = (.error d, t)) :
      TypeLog kept start t events
  | label {s : Store} {events : List TypeEvent} (log : TypeLog kept start s events)
      (name : String) :
      TypeLog kept start
        { s with types := (s.types.label name).2 } (.named name (s.types.label name).1 :: events)

/-- What came before a table: logs with resets between them. -/
inductive Past : (Ty → Prop) → Store → Prop where
  | new : Past (fun _ => False) {}
  | reset {kept : Ty → Prop} {start s : Store} {events : List TypeEvent} (past : Past kept start)
      (log : TypeLog kept start s events) : Past (Held kept events)
        { s with types := s.types.reset }

/-! ## What a log says about its table -/

/-- Older types are known, the others are those of the table, and every label was asked for. -/
structure TypeLog.Accounts (kept : Ty → Prop) (s : Store) (events : List TypeEvent) (heap : Heap) :
    Prop where
  fits : heap.Fits s
  sound : s.types.Sound
  older : ∀ {ty}, kept ty → (heap.Knows ty ∧ ty.Built) ∧ ty.id < s.types.base
  kinds : ∀ {kind ty}, .made kind ty ∈ events → ty.shape = kind ∧ s.types.find? kind = some ty
  labels : s.types.labels.Nodup
  named : ∀ {name id}, .named name id ∈ events ↔ s.types.labels[id]? = some name

namespace TypeLog

variable {kept : Ty → Prop} {start s t : Store} {events : List TypeEvent} {heap next : Heap}
  {kind : Shape Ty} {ty : Ty}

namespace Accounts

lemma asked (accounts : Accounts kept s events heap) : Asked (heap, s) (heap, s) :=
  ⟨.refl _, .refl _, rfl, accounts.fits, accounts.sound⟩

lemma known (accounts : Accounts kept s events heap) (held : Held kept events ty) :
    heap.Knows ty ∧ ty.Built := by
  induction held with
  | kept was => exact (accounts.older was).1
  | made mem =>
    have found := (accounts.kinds mem).2
    exact ⟨known_of_find? found accounts.fits, (accounts.sound.key found).2.2⟩
  | part _ mem ih => exact ⟨heap.closed ih.1 _ mem, ih.2.parts _ mem⟩

lemma later (accounts : Accounts kept s events heap) (asked : Asked (heap, s) (next, t)) :
    Accounts kept t events next where
  fits := asked.fits
  sound := asked.sound
  older was := (accounts.older was).imp (.imp_left asked.within.types) (asked.more.base ▸ ·)
  kinds mem := (accounts.kinds mem).imp_right asked.more.find?
  labels := asked.labels ▸ accounts.labels
  named := asked.labels ▸ accounts.named

lemma made (accounts : Accounts kept s events heap) (isKind : ty.shape = kind)
    (found : s.types.find? kind = some ty) :
    Accounts kept s (.made kind ty :: events) heap := by
  refine { accounts with kinds := fun mem => ?_, named := ?_ }
  · rcases mem_cons.mp mem with eq | mem
    · cases eq
      exact ⟨isKind, found⟩
    · exact accounts.kinds mem
  · exact (mem_cons.trans (or_iff_right fun eq => by cases eq)).trans accounts.named

end Accounts

/-- A log accounts for its table. -/
lemma accounts (log : TypeLog kept start t events) (accounts : Accounts kept start [] heap) :
    ∃ next, Accounts kept t events next := by
  induction log with
  | start => exact ⟨heap, accounts⟩
  | @answered s _ _ _ _ request held ran ih =>
    obtain ⟨heap, accounts⟩ := ih
    rcases request.answer_cases s with ⟨d, failed⟩ | ⟨fits, eq⟩
    · cases failed.symm.trans ran
    · have parts : ∀ part ∈ (request.kind s.types).parts, heap.Knows part ∧ part.Built := by
        intro part mem
        rcases held part mem with held | ⟨p, rfl⟩
        · exact accounts.known held
        · exact ⟨accounts.fits.primitives p, .primitive _ p⟩
      obtain ⟨next, asked, isKind, -, found⟩ :=
        (Lays.intern fits parts accounts.asked).of_ok (eq.symm.trans ran)
      exact ⟨next, (accounts.later asked).made isKind (isKind ▸ found)⟩
  | @refused s _ _ _ _ request ran ih =>
    rcases request.answer_cases s with ⟨d, failed⟩ | ⟨fits, eq⟩
    · cases failed.symm.trans ran
      exact ih
    · cases eq.symm.trans ran
  | read _ literal ran ih =>
    obtain ⟨heap, accounts⟩ := ih
    obtain ⟨next, asked, ⟨-, found⟩, -⟩ :=
      (Literal.parseType_laid Lays.layering literal _ accounts.asked).of_ok ran
    exact ⟨next, (accounts.later asked).made rfl found⟩
  | unread _ literal ran ih =>
    obtain ⟨heap, accounts⟩ := ih
    obtain ⟨next, asked⟩ :=
      (Literal.parseType_laid Lays.layering literal _ accounts.asked).of_error ran
    exact ⟨next, accounts.later asked⟩
  | @label s _ _ name ih =>
    obtain ⟨heap, accounts⟩ := ih
    obtain ⟨next, within, fits, -⟩ := number_tidy name heap s (.refl _) accounts.fits
    obtain ⟨nodup, named⟩ := label_facts accounts.labels name
    have more := Extends.label s.types name
    refine ⟨next, fits, accounts.sound.label name, fun was => ?_, fun mem => ?_, nodup,
      fun {other id} => ?_⟩
    · exact (accounts.older was).imp (.imp_left within.types) (more.base ▸ ·)
    · exact (accounts.kinds ((mem_cons.mp mem).resolve_left fun eq => by
        cases eq)).imp_right more.find?
    · rw [mem_cons, accounts.named, named, TypeEvent.named.injEq, or_comm, and_comm]

end TypeLog

/-! ## Resets -/

lemma Primitive.index_facts (p : Primitive) :
    p.index < Primitive.all.length ∧ Primitive.all[p.index]? = some p := by
  cases p <;> decide

/-- A new table has its own primitive types, besides all that was known. -/
lemma Heap.Fits.reset {heap : Heap} (fits : heap.Fits store) :
    heap.Leaves { store with types := store.types.reset } := by
  have kept : ∀ {id ty}, heap.types id = some ty → id < store.types.nextId := fits.types
  let later : Heap := { heap with
    types := fun id => if id < store.types.nextId then heap.types id
      else Primitive.all[id - store.types.nextId]?.map store.types.reset.primitive
    closed := by
      intro id ty found part mem
      split at found
      · have known := heap.closed found part mem
        rw [if_pos (kept known), known]
      · obtain ⟨p, -, rfl⟩ := map_eq_some_iff.mp found
        cases mem }
  refine ⟨later, ⟨fun found => found, fun found => (if_pos (kept found)).trans found⟩,
    fits.buffers, ?_, ?_, ?_⟩
  · intro id ty found
    change (if id < store.types.nextId then heap.types id else _) = some ty at found
    show id < store.types.nextId + Primitive.all.length
    split at found
    · exact Nat.lt_add_right _ (kept found)
    · obtain ⟨p, isPrimitive, -⟩ := map_eq_some_iff.mp found
      have inside := lt_of_getElem? isPrimitive
      omega
  · intro p
    show (if store.types.nextId + p.index < store.types.nextId then _
      else Primitive.all[store.types.nextId + p.index - store.types.nextId]?.map
        store.types.reset.primitive) = _
    rw [if_neg (Nat.not_lt.mpr (Nat.le_add_right _ _)), Nat.add_sub_cancel_left, p.index_facts.2]
    rfl
  · intro key ty found
    cases found

/-- What came before leaves an account of the types that are still in use. -/
lemma Past.accounts (past : Past kept start) : ∃ heap, TypeLog.Accounts kept start [] heap := by
  have fresh : ∀ {kept : Ty → Prop} {s : Store} {heap : Heap}, heap.Fits s → s.types.interned = [] →
      s.types.labels = [] → s.types.base ≤ s.types.nextId →
      (∀ {ty}, kept ty → (heap.Knows ty ∧ ty.Built) ∧ ty.id < s.types.base) →
      TypeLog.Accounts kept s [] heap := by
    intro kept s heap fits none unlabelled next older
    refine ⟨fits, ⟨fun found => ?_, next⟩, older, fun mem => absurd mem not_mem_nil,
      unlabelled ▸ .nil,
      by simp [unlabelled]⟩
    rw [none] at found
    cases found
  induction past with
  | new => exact ⟨Heap.primitives, fresh Heap.primitives_fits rfl rfl (Nat.zero_le _) False.elim⟩
  | reset _ log ih =>
    obtain ⟨heap, before⟩ := ih
    obtain ⟨heap, accounts⟩ := log.accounts before
    obtain ⟨later, within, fits⟩ := accounts.fits.reset
    refine ⟨later, fresh fits rfl rfl (Nat.le_add_right _ _) fun held => ?_⟩
    exact ⟨(accounts.known held).imp_left within.types, accounts.fits.types (accounts.known held).1⟩

/-! ## Types and labels since the last reset -/

/-- Since the last reset, two types have one handle exactly if they were asked for alike: the same
primitive, or the same constructor with the same components, counts, flags and names. No handle is
one of an older type. Labels are numbered by the names that were asked for. -/
theorem handles_canonical {kept : Ty → Prop} {start store : Store} {events : List TypeEvent}
    (past : Past kept start)
    (log : TypeLog kept start store events) :
    (∀ kind ty kind' ty', .made kind ty ∈ events → .made kind' ty' ∈ events →
      (ty.id = ty'.id ↔ kind = kind') ∧ (ty = ty' ↔ kind = kind') ∧
        (kind = kind' ↔ kind.map Ty.id = kind'.map Ty.id)) ∧
    (∀ kind ty old, .made kind ty ∈ events → kept old → old.id ≠ ty.id ∧ old ≠ ty) ∧
    (∀ name id, .named name id ∈ events ↔ store.types.labelName? id = some name) ∧
    ∀ name id name' id', .named name id ∈ events → .named name' id' ∈ events →
    (id = id' ↔ name = name') := by
  obtain ⟨_, before⟩ := past.accounts
  obtain ⟨heap, accounts⟩ := log.accounts before
  refine ⟨fun kind ty kind' ty' made made' => ?_, fun kind ty old made was => ?_,
    fun _ _ => accounts.named,
    fun name id name' id' named named' => ?_⟩
  · obtain ⟨rfl, found⟩ := accounts.kinds made
    obtain ⟨rfl, found'⟩ := accounts.kinds made'
    have known := known_of_find? found accounts.fits
    have known' := known_of_find? found' accounts.fits
    have ofId : ty.id = ty'.id → ty = ty' := by
      intro same
      rw [Heap.Knows, same] at known
      exact some.inj (known.symm.trans known')
    have ofKind : ty.shape = ty'.shape → ty = ty' := by
      intro same
      rw [same] at found
      exact some.inj (found.symm.trans found')
    refine ⟨⟨fun same => congrArg Ty.shape (ofId same), fun same => congrArg Ty.id (ofKind same)⟩,
      ⟨congrArg Ty.shape, ofKind⟩, ⟨congrArg (Shape.map Ty.id), ?_⟩⟩
    exact heap.shape_eq (heap.closed known) (heap.closed known')
  · have older : old.id ≠ ty.id :=
      Nat.ne_of_lt
        (Nat.lt_of_lt_of_le (accounts.older was).2 (accounts.sound.key (accounts.kinds made).2).2.1)
    exact ⟨older, fun same => older (congrArg Ty.id same)⟩
  · rw [accounts.named] at named named'
    refine ⟨fun same => ?_, fun same => ?_⟩
    · rw [same] at named
      exact some.inj (named.symm.trans named')
    · rw [← same] at named'
      exact (List.getElem?_inj (lt_of_getElem? named) accounts.labels).mp (named.trans named'.symm)

/-- A struct over a type from before a reset is not the struct over its successor. -/
theorem handles_canonical_reset :
    ∃ (kept : Ty → Prop) (start store : Store) (events : List TypeEvent)
    (old young a b : Ty), Past kept start ∧ TypeLog kept start store events ∧ kept old ∧
    old.shape = young.shape ∧
      .made (.struct [old] none) a ∈ events ∧ .made (.struct [young] none) b ∈ events ∧
      a.id ≠ b.id := by
  obtain ⟨old, kept, start, isOld, past, was⟩ : ∃ old kept start, old.shape = .primitive .i64 ∧
      Past kept start ∧ kept old :=
    ⟨_, _, _, rfl, .reset .new
      (TypeLog.start.answered (.primitive .i64) (fun _ member => absurd member not_mem_nil)
      rfl), .made List.mem_cons_self⟩
  have parts : ∀ {events part} {table : TypeTable}, Held kept events part →
      ∀ other ∈ (TypeRequest.kind table (.struct [part])).parts, Held kept events other ∨
      ∃ p, other = table.primitive p := by
    intro events part table held other member
    rw [mem_singleton.mp member]
    exact .inl held
  obtain ⟨a, s, log⟩ : ∃ a s, TypeLog kept start s [.made (.struct [old] none) a] :=
    ⟨_, _, TypeLog.start.answered (.struct [old]) (parts (.kept was)) rfl⟩
  obtain ⟨young, s, isYoung, log⟩ : ∃ young s, young.shape = .primitive .i64 ∧
      TypeLog kept start s [.made (.primitive .i64) young, .made (.struct [old] none) a] :=
    ⟨_, _, rfl, log.answered (.primitive .i64) (fun _ member => absurd member not_mem_nil) rfl⟩
  obtain ⟨b, s, log⟩ : ∃ b s, TypeLog kept start s
      [.made (.struct [young] none) b, .made (.primitive .i64) young,
        .made (.struct [old] none) a] :=
    ⟨_, _, log.answered (.struct [young]) (parts (.made mem_cons_self)) rfl⟩
  obtain ⟨canonical, ages, -⟩ := handles_canonical past log
  refine ⟨kept, start, s, _, old, young, a, b, past, log, was, isOld.trans isYoung.symm, by simp, by
    simp, fun same => ?_⟩
  have kinds :=
    (canonical (.struct [old] none) a (.struct [young] none) b (by simp) (by simp)).1.mp same
  exact (ages (.primitive .i64) young old (by simp) was).2 (cons.inj (Shape.struct.inj kinds).1).1

end Blockflow
