import WasmBuilder.Body.Basic
import WasmBuilder.Proofs.Variables.Scopes

/-!
Reading and writing one variable.

`Means` says which slot a name stands for, and `Binds` where a write goes and what it does to the
scopes, without the order in which a body looks for names. A read answers to the first and a write to
both, so that a write can be read back from the slot that it went to.
-/

set_option autoImplicit false

namespace WasmBuilder

theorem Arena.settle_known {a : Arena} {id : ExprId} {shape : Shape}
    (settled : a.settle id = .ok shape) : shape ≠ .auto := by
  have ofSlots (ts : List NumType) : Shape.ofSlots ts ≠ .auto := by
    match ts with
    | [] | [_] | _ :: _ :: _ => exact Shape.noConfusion
  unfold settle at settled
  cases inferred : a.infer id with
  | error e => simp [inferred, bind, Except.bind] at settled
  | ok label =>
    cases label with
    | auto =>
      cases slots : a.slots id with
      | error e => simp [inferred, slots, bind, Except.bind] at settled
      | ok ts =>
        simp only [inferred, slots, bind, Except.bind, pure, Except.pure, Except.ok.injEq] at settled
        exact settled ▸ ofSlots ts
    | none | num | tuple | record =>
      simp only [inferred, bind, Except.bind, pure, Except.pure, Except.ok.injEq] at settled
      subst settled
      exact Shape.noConfusion

namespace Body

/-- The slot that a name stands for: the last local of that name, and where there is none the last
global. -/
inductive Means (b : Body) (name : String) : Storage → Nat → Slot → Prop
  | ofLocal {index : Nat} {slot : Slot} (last : b.locals.IsLast name index slot) :
      Means b name .local index slot
  | ofGlobal {index : Nat} {slot : Slot} (lacks : b.locals.Lacks name)
      (last : b.globals.IsLast name index slot) : Means b name .global index slot

structure Unbound (b : Body) (name : String) : Prop where
  locals : b.locals.Lacks name
  globals : b.globals.Lacks name

/-- A slot of a known shape takes in a value that is there, when nothing is known of its shape or
when it occupies the same slots. -/
structure Admits (b : Body) (shape : Shape) (value : ExprId) : Prop where
  known : value < b.arena.size
  fits : b.incoming value = .none ∨ b.incoming value = .auto ∨
    (b.incoming value).flatten = shape.flatten

/-- A write of `value` under `name` goes to the slot at `index`, which has `shape` afterwards. -/
inductive Binds (b : Body) (name : String) (value : ExprId) : Storage → Nat → Shape → Body → Prop
  | typed {storage : Storage} {index : Nat} {slot : Slot} (means : b.Means name storage index slot)
      (known : slot.shape ≠ .auto) (admits : b.Admits slot.shape value) :
      Binds b name value storage index slot.shape b
  | first {storage : Storage} {index : Nat} {slot : Slot} {shape : Shape}
      (means : b.Means name storage index slot) (isOpen : slot.shape = .auto)
      (settled : b.arena.settle value = .ok shape) :
      Binds b name value storage index shape
        (b.setScope storage ((b.scope storage).fix index shape))
  | new {shape : Shape} (unbound : b.Unbound name) (settled : b.arena.settle value = .ok shape) :
      Binds b name value b.fresh (b.scope b.fresh).size shape
        (b.setScope b.fresh ((b.scope b.fresh).declare name shape b.fresh))

variable {b c : Body} {name : String} {value : ExprId}

theorem resolve_eq_some_iff {storage : Storage} {index : Nat} {slot : Slot} :
    b.resolve name = some (storage, index, slot) ↔ b.Means name storage index slot := by
  unfold resolve
  cases here : b.locals.lookup name with
  | some found =>
    obtain ⟨i, s⟩ := found
    have last := Scope.lookup_eq_some_iff.1 here
    constructor
    · rintro ⟨⟩
      exact .ofLocal last
    · intro means
      cases means with
      | ofLocal other =>
        have ⟨same, same'⟩ := last.unique other
        rw [same, same']
      | ofGlobal lacks => exact absurd last.named (lacks i s last.here)
  | none =>
    have lacks := Scope.lookup_eq_none_iff.1 here
    constructor
    · intro found
      cases there : b.globals.lookup name with
      | none => simp [there] at found
      | some other =>
        simp only [there, Option.some.injEq, Prod.mk.injEq] at found
        obtain ⟨rfl, rfl, rfl⟩ := found
        exact .ofGlobal lacks (Scope.lookup_eq_some_iff.1 there)
    · intro means
      cases means with
      | ofLocal last => exact absurd last.named (lacks index slot last.here)
      | ofGlobal _ last => rw [Scope.lookup_eq_some_iff.2 last]

theorem resolve_eq_none_iff : b.resolve name = none ↔ b.Unbound name := by
  unfold resolve
  constructor
  · intro nothing
    split at nothing
    · cases nothing
    next here =>
      split at nothing
      · cases nothing
      next there =>
        exact ⟨Scope.lookup_eq_none_iff.1 here, Scope.lookup_eq_none_iff.1 there⟩
  · intro ⟨locals, globals⟩
    rw [Scope.lookup_eq_none_iff.2 locals, Scope.lookup_eq_none_iff.2 globals]

theorem means_or_unbound (b : Body) (name : String) :
    (∃ storage index slot, b.Means name storage index slot) ∨ b.Unbound name := by
  cases found : b.resolve name with
  | none => exact .inr (resolve_eq_none_iff.1 found)
  | some place => exact .inl ⟨_, _, _, resolve_eq_some_iff.1 found⟩

namespace Means

variable {storage : Storage} {index : Nat} {slot : Slot}

theorem unique (first : b.Means name storage index slot) {storage' : Storage} {index' : Nat}
    {slot' : Slot} (second : b.Means name storage' index' slot') :
    storage = storage' ∧ index = index' ∧ slot = slot' := by
  have found := (resolve_eq_some_iff.2 first).symm.trans (resolve_eq_some_iff.2 second)
  cases found
  exact ⟨rfl, rfl, rfl⟩

theorem not_unbound (means : b.Means name storage index slot) : ¬ b.Unbound name := by
  intro unbound
  have found := (resolve_eq_some_iff.2 means).symm.trans (resolve_eq_none_iff.2 unbound)
  cases found

theorem last (means : b.Means name storage index slot) :
    (b.scope storage).IsLast name index slot := by
  cases means with
  | ofLocal last => exact last
  | ofGlobal _ last => exact last

theorem named (means : b.Means name storage index slot) : slot.name = name := means.last.named

end Means

theorem get_bind {α : Type} (f : Body → BodyM α) (b : Body) : (get >>= f) b = f b b := rfl

theorem read_of_known {storage : Storage} {index : Nat} {slot : Slot}
    (means : b.Means name storage index slot) (known : slot.shape ≠ .auto) :
    read name b = .ok (.ofShape b.arena.size slot.shape)
      { b with arena := b.arena.push (readNode storage index slot.shape) (some slot.shape) } := by
  rw [read, get_bind, resolve_eq_some_iff.2 means]
  dsimp only
  rw [if_neg known]
  rfl

theorem read_of_open {storage : Storage} {index : Nat} {slot : Slot}
    (means : b.Means name storage index slot) (isOpen : slot.shape = .auto) :
    read name b = .error (.unknownVariable name) b := by
  rw [read, get_bind, resolve_eq_some_iff.2 means]
  dsimp only
  rw [if_pos isOpen]
  rfl

theorem read_of_unbound (unbound : b.Unbound name) :
    read name b = .error (.unknownVariable name) b := by
  rw [read, get_bind, resolve_eq_none_iff.2 unbound]
  rfl

/-- A read succeeds on a slot with a shape, and adds the node that reads it. -/
theorem read_eq_ok_iff {o : Operand} :
    read name b = .ok o c ↔ ∃ storage index slot, b.Means name storage index slot ∧
      slot.shape ≠ .auto ∧ o = .ofShape b.arena.size slot.shape ∧
      c = { b with
        arena := b.arena.push (readNode storage index slot.shape) (some slot.shape) } := by
  constructor
  · intro done
    rcases b.means_or_unbound name with ⟨storage, index, slot, means⟩ | unbound
    · by_cases isOpen : slot.shape = .auto
      · rw [read_of_open means isOpen] at done
        cases done
      · rw [read_of_known means isOpen] at done
        cases done
        exact ⟨storage, index, slot, means, isOpen, rfl, rfl⟩
    · rw [read_of_unbound unbound] at done
      cases done
  · rintro ⟨storage, index, slot, means, known, rfl, rfl⟩
    exact read_of_known means known

/-- A read fails exactly for a name that is not bound or that stands for an open slot. -/
theorem read_eq_error_iff {e : BuildError} :
    read name b = .error e c ↔ e = .unknownVariable name ∧ c = b ∧
      (b.Unbound name ∨ ∃ storage index slot,
        b.Means name storage index slot ∧ slot.shape = .auto) := by
  constructor
  · intro failed
    rcases b.means_or_unbound name with ⟨storage, index, slot, means⟩ | unbound
    · by_cases isOpen : slot.shape = .auto
      · rw [read_of_open means isOpen] at failed
        cases failed
        exact ⟨rfl, rfl, .inr ⟨storage, index, slot, means, isOpen⟩⟩
      · rw [read_of_known means isOpen] at failed
        cases failed
    · rw [read_of_unbound unbound] at failed
      cases failed
      exact ⟨rfl, rfl, .inl unbound⟩
  · rintro ⟨rfl, rfl, unbound | ⟨storage, index, slot, means, isOpen⟩⟩
    · exact read_of_unbound unbound
    · exact read_of_open means isOpen

@[simp] theorem arena_setScope_eq (b : Body) (storage : Storage) (s : Scope) :
    (b.setScope storage s).arena = b.arena := by cases storage <;> rfl

@[simp] theorem scope_setScope (b : Body) (storage : Storage) (s : Scope) :
    (b.setScope storage s).scope storage = s := by cases storage <;> rfl

theorem admits_iff {shape : Shape} : b.Admits shape value ↔
    (∃ entry, b.arena.get value = .ok entry) ∧
      ((b.incoming value).isOpen || (b.incoming value).lowersLike shape) = true := by
  have known : (∃ entry, b.arena.get value = .ok entry) ↔ value < b.arena.size := by
    simp only [Arena.get_eq_ok_iff]
    exact ⟨fun ⟨_, here⟩ => (Array.getElem?_eq_some_iff.1 here).1,
      fun old => ⟨_, Array.getElem?_eq_getElem old⟩⟩
  have isOpen (s : Shape) : s.isOpen = true ↔ s = .none ∨ s = .auto := by
    cases s <;> simp [Shape.isOpen]
  rw [known, Bool.or_eq_true, isOpen, Shape.lowersLike, decide_eq_true_eq, or_assoc]
  exact ⟨fun ⟨old, fits⟩ => ⟨old, fits⟩, fun ⟨old, fits⟩ => ⟨old, fits⟩⟩

theorem ask_bind {α β : Type} (question : Body → Except BuildError α) (f : α → BodyM β) (b : Body) :
    (ask question >>= f) b =
      match question b with
      | .ok x => f x b
      | .error e => .error e b := by
  have unfolded : (ask question >>= f) b = ((match question b with
    | .ok x => pure x
    | .error e => throw e : BodyM α) >>= f) b := rfl
  rw [unfolded]
  cases question b <;> rfl

section
variable {storage : Storage} {index : Nat} {slot : Slot} {shape : Shape}

theorem bindTarget_of_known (means : b.Means name storage index slot) (known : slot.shape ≠ .auto) :
    bindTarget name value b =
      match b.arena.get value with
      | .ok _ =>
        if (b.incoming value).isOpen || (b.incoming value).lowersLike slot.shape then
          .ok (storage, index, slot.shape) b
        else .error (.assignmentMismatch name slot.shape (b.incoming value)) b
      | .error e => .error e b := by
  rw [bindTarget, get_bind, resolve_eq_some_iff.2 means]
  dsimp only
  rw [if_neg known, ask_bind]
  cases b.arena.get value with
  | error e => rfl
  | ok entry =>
    show (if _ then _ else _ : BodyM _) b = _
    dsimp only
    split <;> rfl

theorem bindTarget_of_open (means : b.Means name storage index slot) (isOpen : slot.shape = .auto) :
    bindTarget name value b =
      match b.arena.settle value with
      | .ok shape =>
        .ok (storage, index, shape) (b.setScope storage ((b.scope storage).fix index shape))
      | .error e => .error e b := by
  rw [bindTarget, get_bind, resolve_eq_some_iff.2 means]
  dsimp only
  rw [if_pos isOpen, settle, ask_bind]
  cases b.arena.settle value <;> rfl

theorem bindTarget_of_unbound (unbound : b.Unbound name) :
    bindTarget name value b =
      match b.arena.settle value with
      | .ok shape =>
        .ok (b.fresh, (b.scope b.fresh).size, shape)
          (b.setScope b.fresh ((b.scope b.fresh).declare name shape b.fresh))
      | .error e => .error e b := by
  rw [bindTarget, get_bind, resolve_eq_none_iff.2 unbound]
  dsimp only
  rw [settle, ask_bind]
  cases b.arena.settle value <;> rfl

theorem bindTarget_eq_ok_iff :
    bindTarget name value b = .ok (storage, index, shape) c ↔
      b.Binds name value storage index shape c := by
  constructor
  · intro done
    rcases b.means_or_unbound name with ⟨storage', index', slot, means⟩ | unbound
    · by_cases isOpen : slot.shape = .auto
      · rw [bindTarget_of_open means isOpen] at done
        split at done
        next settled =>
          cases done
          exact .first means isOpen settled
        next => cases done
      · rw [bindTarget_of_known means isOpen] at done
        split at done
        next entry here =>
          split at done
          next fits =>
            cases done
            exact .typed means isOpen (admits_iff.2 ⟨⟨entry, here⟩, fits⟩)
          next => cases done
        next => cases done
    · rw [bindTarget_of_unbound unbound] at done
      split at done
      next settled =>
        cases done
        exact .new unbound settled
      next => cases done
  · intro binds
    cases binds with
    | typed means known admits =>
      have ⟨⟨entry, here⟩, fits⟩ := admits_iff.1 admits
      rw [bindTarget_of_known means known, here]
      exact if_pos fits
    | first means isOpen settled => rw [bindTarget_of_open means isOpen, settled]
    | new unbound settled => rw [bindTarget_of_unbound unbound, settled]

theorem bindTarget_error {e : BuildError} (failed : bindTarget name value b = .error e c) :
    c = b := by
  rcases b.means_or_unbound name with ⟨storage, index, slot, means⟩ | unbound
  · by_cases isOpen : slot.shape = .auto
    · rw [bindTarget_of_open means isOpen] at failed
      split at failed <;> cases failed
      rfl
    · rw [bindTarget_of_known means isOpen] at failed
      split at failed
      · split at failed <;> cases failed
        rfl
      · cases failed
        rfl
  · rw [bindTarget_of_unbound unbound] at failed
    split at failed <;> cases failed
    rfl

end

/-- A write goes to its target, and adds the node that writes it. -/
theorem write_eq_ok_iff {id : ExprId} :
    write name value b = .ok id c ↔ ∃ storage index shape d,
      b.Binds name value storage index shape d ∧ id = d.arena.size ∧
      c = { d with
        arena := d.arena.push (writeNode storage index shape value) (some .none) } := by
  rw [write]
  constructor
  · intro done
    cases target : bindTarget name value b with
    | error e d => simp [bind, EStateM.bind, target] at done
    | ok place d =>
      obtain ⟨storage, index, shape⟩ := place
      simp only [bind, EStateM.bind, target] at done
      cases done
      exact ⟨storage, index, shape, d, bindTarget_eq_ok_iff.1 target, rfl, rfl⟩
  · rintro ⟨storage, index, shape, d, binds, rfl, rfl⟩
    simp only [bind, EStateM.bind, bindTarget_eq_ok_iff.2 binds]
    rfl

theorem write_error {e : BuildError} (failed : write name value b = .error e c) : c = b := by
  rw [write] at failed
  cases target : bindTarget name value b with
  | error e d =>
    simp only [bind, EStateM.bind, target] at failed
    cases failed
    exact bindTarget_error target
  | ok place d =>
    simp only [bind, EStateM.bind, target] at failed
    cases failed

@[simp] theorem readNode_param (index : Nat) (shape : Shape) :
    readNode .param index shape = readNode .local index shape := rfl

namespace Binds

variable {d : Body} {storage : Storage} {index : Nat} {shape : Shape}

section
variable (binds : b.Binds name value storage index shape d)

include binds

theorem known : shape ≠ .auto := by
  cases binds with
  | typed _ known _ => exact known
  | first _ _ settled | new _ settled => exact Arena.settle_known settled

@[simp] theorem arena_eq : d.arena = b.arena := by
  cases binds with
  | typed => rfl
  | first | new => exact arena_setScope_eq ..

theorem callables_eq : d.callables = b.callables := by
  cases binds with
  | typed => rfl
  | first means => cases means <;> rfl
  | new => cases fresh : b.fresh <;> simp [setScope]

theorem fresh_eq : d.fresh = b.fresh := by
  cases binds with
  | typed => rfl
  | first means => cases means <;> rfl
  | new => cases fresh : b.fresh <;> simp [setScope, fresh]

theorem statements_eq : d.statements = b.statements := by
  cases binds with
  | typed => rfl
  | first means => cases means <;> rfl
  | new => cases fresh : b.fresh <;> simp [setScope]

/-- Scopes grow: the target is typed or new, and all other slots stay. -/
theorem grows : b.locals.Grows d.locals ∧ b.globals.Grows d.globals := by
  cases binds with
  | typed => exact ⟨.refl _, .refl _⟩
  | first means isOpen settled =>
    have known := Arena.settle_known settled
    cases means with
    | ofLocal last => exact ⟨Scope.grows_fix last.here isOpen known, .refl _⟩
    | ofGlobal _ last => exact ⟨.refl _, Scope.grows_fix last.here isOpen known⟩
  | new =>
    cases fresh : b.fresh with
    | global => exact ⟨.refl _, Scope.grows_declare _ _ _ _⟩
    | param | «local» => exact ⟨Scope.grows_declare _ _ _ _, .refl _⟩

theorem size_eq : (b.fresh ≠ .global → d.globals.size = b.globals.size) ∧
    (b.fresh = .global → d.locals.size = b.locals.size) := by
  cases binds with
  | typed => exact ⟨fun _ => rfl, fun _ => rfl⟩
  | first means =>
    cases means with
    | ofLocal => exact ⟨fun _ => rfl, fun _ => Scope.size_fix ..⟩
    | ofGlobal => exact ⟨fun _ => Scope.size_fix .., fun _ => rfl⟩
  | new =>
    cases fresh : b.fresh with
    | global => exact ⟨fun isLocal => absurd rfl isLocal, fun _ => rfl⟩
    | param | «local» => exact ⟨fun _ => rfl, fun isGlobal => nomatch isGlobal⟩

theorem exists_means : ∃ place slot, d.Means name place index slot ∧ slot.shape = shape ∧
    d.scope place = d.scope storage ∧ readNode place = readNode storage := by
  cases binds with
  | typed means => exact ⟨_, _, means, rfl, rfl, rfl⟩
  | @first _ _ slot _ means =>
    refine ⟨storage, { slot with shape }, ?_, rfl, rfl, rfl⟩
    cases means with
    | ofLocal last => exact .ofLocal (last.fix shape)
    | ofGlobal lacks last => exact .ofGlobal lacks (last.fix shape)
  | new unbound =>
    cases fresh : b.fresh with
    | global =>
      exact ⟨.global, _, .ofGlobal unbound.locals (Scope.isLast_declare ..), rfl, rfl, rfl⟩
    | param | «local» =>
      exact ⟨.local, _, .ofLocal (Scope.isLast_declare ..), rfl, rfl, rfl⟩

theorem exists_slot : ∃ slot, (d.scope storage).slots[index]? = some slot ∧ slot.shape = shape := by
  have ⟨place, slot, means, is, same, _⟩ := binds.exists_means
  exact ⟨slot, same ▸ means.last.here, is⟩

/-- A slot whose shape changes is the target, and takes the shape of the value. -/
theorem settled_of_changed {other : Storage} {i : Nat} {before after : Slot}
    (here : (b.scope other).slots[i]? = some before) (there : (d.scope other).slots[i]? = some after)
    (changed : after ≠ before) :
    ∃ place, b.scope place = b.scope other ∧ b.Means name place i before ∧
      b.arena.settle value = .ok after.shape := by
  have same (kept : d.scope other = b.scope other) {P : Prop} : P := by
    rw [kept, here] at there
    exact absurd (Option.some.inj there).symm changed
  cases binds with
  | typed => exact same rfl
  -- only the target of the write is fixed, and only its scope is changed
  | @first storage index slot shape means _ settled =>
    have target (is : b.scope storage = b.scope other)
        (fixed : (Scope.fix (b.scope storage) index shape).slots[i]? = some after) :
        ∃ place, b.scope place = b.scope other ∧ b.Means name place i before ∧
          b.arena.settle value = .ok after.shape := by
      have ⟨at_, takes⟩ := Scope.changed_fix (is ▸ here) fixed changed
      subst at_ takes
      rw [← is, means.last.here] at here
      cases here
      exact ⟨storage, is, means, settled⟩
    cases means with
    | ofLocal =>
      cases other with
      | global => exact same rfl
      | param | «local» => exact target rfl there
    | ofGlobal =>
      cases other with
      | global => exact target rfl there
      | param | «local» => exact same rfl
  -- a new slot stands behind all others, so none of these changes
  | @new shape =>
    have behind (is : b.scope b.fresh = b.scope other)
        (added : ((b.scope b.fresh).declare name shape b.fresh).slots[i]? = some after) :
        after = before := by
      rw [Scope.slots_declare (is ▸ here)] at added
      exact (Option.some.inj added).symm
    cases fresh : b.fresh with
    | global =>
      rw [fresh] at there behind
      cases other with
      | global => exact absurd (behind rfl there) changed
      | param | «local» => exact absurd (Option.some.inj (there.symm.trans here)) changed
    | param | «local» =>
      rw [fresh] at there behind
      cases other with
      | global => exact absurd (Option.some.inj (there.symm.trans here)) changed
      | param | «local» => exact absurd (behind rfl there) changed

end

end Binds

theorem read_of_write {id : ExprId} (done : write name value b = .ok id c) :
    ∃ storage index shape, c.arena.node id = .ok (writeNode storage index shape value) ∧
      read name c = .ok (.ofShape c.arena.size shape)
        { c with arena := c.arena.push (readNode storage index shape) (some shape) } := by
  obtain ⟨storage, index, shape, d, binds, rfl, rfl⟩ := write_eq_ok_iff.1 done
  obtain ⟨place, slot, means, rfl, -, same⟩ := binds.exists_means
  refine ⟨storage, index, slot.shape, ?_, ?_⟩
  · simp [Arena.node, Arena.get, Arena.entries_push_size, Functor.map, Except.map]
  · rw [← same]
    apply read_of_known _ binds.known
    cases means with
    | ofLocal last => exact .ofLocal last
    | ofGlobal lacks last => exact .ofGlobal lacks last

end Body

end WasmBuilder
