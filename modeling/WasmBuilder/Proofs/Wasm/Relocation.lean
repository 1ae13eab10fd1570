import Mathlib.Data.List.Forall2
import WasmBuilder.Proofs.Wasm.Dispatch
import WasmBuilder.Wasm.Frame

/-!
Code in another place.

When a module is made over again with more in it, its functions, types and globals may get other
indices. Code that names them by their new indices does in the new place what it did in the old one:
it leaves the same results and traps alike, and it does the same to globals, memories and the host.
How much room a function takes depends on what its code does with variables, and on the types of what
it calls. None of this changes when the function is moved.
-/

set_option autoImplicit false

namespace WasmBuilder.Wasm

/-- Which functions, types and globals of one module stand for which ones of another. -/
structure Relocation where
  func : Nat → Nat → Prop
  type : Nat → Nat → Prop
  global : Nat → Nat → Prop
  /-- A slot of both tables, and the types that calls through it name. -/
  slot : BitVec 32 → Nat → Nat → Prop

namespace Relocation

inductive Block (R : Relocation) : BlockType → BlockType → Prop
  | empty : Block R .empty .empty
  | value (t : ValType) : Block R (.value t) (.value t)
  | index {i j : Nat} (types : R.type i j) : Block R (.index i) (.index j)

end Relocation

namespace Instr

/-- Whether plain code means the same in every module: it names neither functions nor types nor
globals. -/
def isFree : Instr → Bool
  | .drop | .const _ | .binary _ | .unary _ | .localGet _ | .localSet _ | .load _ _ | .store _ _
  | .memorySize _ | .memoryGrow _ | .br _ | .brIf _ | .ret => true
  | _ => false

end Instr

namespace Relocation

mutual

/-- An instruction, and what it is in the other place. -/
inductive Moves (R : Relocation) : Instr → Instr → Prop
  | free {i : Instr} (isFree : i.isFree = true) : Moves R i i
  | globalGet {a b : Nat} (globals : R.global a b) : Moves R (.globalGet a) (.globalGet b)
  | globalSet {a b : Nat} (globals : R.global a b) : Moves R (.globalSet a) (.globalSet b)
  | call {f g : Nat} (funcs : R.func f g) : Moves R (.call f) (.call g)
  | block {t t' : BlockType} {body body' : List Instr} (types : R.Block t t')
      (inside : MovesSeq R body body') : Moves R (.block t body) (.block t' body')
  | loop {t t' : BlockType} {body body' : List Instr} (types : R.Block t t')
      (inside : MovesSeq R body body') : Moves R (.loop t body) (.loop t' body')
  | ifThen {t t' : BlockType} {body body' : List Instr} (types : R.Block t t')
      (inside : MovesSeq R body body') : Moves R (.ifThen t body) (.ifThen t' body')
  | ifElse {t t' : BlockType} {first first' second second' : List Instr} (types : R.Block t t')
      (yes : MovesSeq R first first') (no : MovesSeq R second second') :
      Moves R (.ifElse t first second) (.ifElse t' first' second')

/-- Code, and what it is in the other place. Calls through the table go through constant slots. -/
inductive MovesSeq (R : Relocation) : List Instr → List Instr → Prop
  | nil : MovesSeq R [] []
  | cons {i j : Instr} {rest rest' : List Instr} (first : Moves R i j)
      (others : MovesSeq R rest rest') : MovesSeq R (i :: rest) (j :: rest')
  | through {slot : BitVec 32} {t t' : Nat} {rest rest' : List Instr} (slots : R.slot slot t t')
      (others : MovesSeq R rest rest') :
      MovesSeq R (.const (.i32 slot) :: .callIndirect t 0 :: rest)
        (.const (.i32 slot) :: .callIndirect t' 0 :: rest')

end

namespace MovesSeq

variable {R : Relocation}

theorem append {code code' others others' : List Instr} (one : R.MovesSeq code code')
    (two : R.MovesSeq others others') : R.MovesSeq (code ++ others) (code' ++ others') := by
  match one with
  | .nil => exact two
  | .cons first rest => exact .cons first (rest.append two)
  | .through slots rest => exact .through slots (rest.append two)

theorem single {i j : Instr} (moves : R.Moves i j) : R.MovesSeq [i] [j] := .cons moves .nil

theorem map {α β : Type} {f : α → Instr} {g : β → Instr} {xs : List α} {ys : List β}
    (each : List.Forall₂ (fun x y => R.Moves (f x) (g y)) xs ys) :
    R.MovesSeq (xs.map f) (ys.map g) := by
  induction each with
  | nil => exact .nil
  | cons first _ ih => exact .cons first ih

/-- Code that names nothing is the same in every place. -/
theorem free {code : List Instr} (isFree : ∀ i ∈ code, i.isFree = true) : R.MovesSeq code code := by
  induction code with
  | nil => exact .nil
  | cons i rest ih =>
    exact .cons (.free (isFree i List.mem_cons_self))
      (ih fun j mem => isFree j (List.mem_cons_of_mem i mem))

end MovesSeq

end Relocation

/-- Stores of two running modules, of which the one holds what the other one does: globals stand for
each other, and each table is what it was. -/
structure Relocation.Matches (R : Relocation) (s s' t u : Store) : Prop where
  memories : u.memories = t.memories
  journal : u.journal = t.journal
  tables : t.tables = s.tables
  tables' : u.tables = s'.tables
  size : t.globals.size = s.globals.size
  size' : u.globals.size = s'.globals.size
  globals : ∀ {a b : Nat}, R.global a b → u.globals[b]? = t.globals[a]?

namespace Relocation.Matches

variable {R : Relocation} {s s' t u : Store} (agree : R.Matches s s' t u)

include agree

theorem setMemories (memories : Array Memory) :
    R.Matches s s' { t with memories } { u with memories } :=
  { agree with memories := rfl }

theorem setGlobal {a b : Nat} (d : Datum) (inside : a < s.globals.size)
    (inside' : b < s'.globals.size)
    (unique : ∀ {x y : Nat}, R.global x y → (x = a ↔ y = b)) :
    R.Matches s s' { t with globals := t.globals.setIfInBounds a d }
      { u with globals := u.globals.setIfInBounds b d } where
  memories := agree.memories
  journal := agree.journal
  tables := agree.tables
  tables' := agree.tables'
  size := by simp only [Array.size_setIfInBounds, agree.size]
  size' := by simp only [Array.size_setIfInBounds, agree.size']
  globals {x y} there := by
    rw [Array.getElem?_setIfInBounds, Array.getElem?_setIfInBounds, agree.size, agree.size',
      if_pos inside, if_pos inside', agree.globals there]
    by_cases same : x = a
    · rw [if_pos same.symm, if_pos ((unique there).1 same).symm]
    · rw [if_neg (Ne.symm same), if_neg fun is => same ((unique there).2 is.symm)]

end Relocation.Matches

/-- What two ways of execution leave, in machines that differ by their stores only. -/
inductive Relocation.Alike (R : Relocation) (s s' : Store) : Outcome → Outcome → Prop
  | next {m : Machine} {u : Store} (agree : R.Matches s s' m.store u) :
      Alike R s s' (.next m) (.next { m with store := u })
  | branch {l : Nat} {m : Machine} {u : Store} (agree : R.Matches s s' m.store u) :
      Alike R s s' (.branch l m) (.branch l { m with store := u })
  | ret {m : Machine} {u : Store} (agree : R.Matches s s' m.store u) :
      Alike R s s' (.ret m) (.ret { m with store := u })
  | trap {cause : Trap} {t u : Store} (agree : R.Matches s s' t u) :
      Alike R s s' (.trap cause t) (.trap cause u)
  | exhausted : Alike R s s' .exhausted .exhausted

inductive Relocation.CallsAlike (R : Relocation) (s s' : Store) : CallOutcome → CallOutcome → Prop
  | done {results : List Datum} {t u : Store} (agree : R.Matches s s' t u) :
      CallsAlike R s s' (.done results t) (.done results u)
  | trap {cause : Trap} {t u : Store} (agree : R.Matches s s' t u) :
      CallsAlike R s s' (.trap cause t) (.trap cause u)
  | exhausted : CallsAlike R s s' .exhausted .exhausted

def Relocation.Follow (R : Relocation) (s s' : Store) (f g : Machine → Outcome) : Prop :=
  ∀ (m : Machine) (u : Store), R.Matches s s' m.store u → R.Alike s s' (f m) (g { m with store := u })

namespace Relocation.Follow

variable {R : Relocation} {s s' : Store} {f g : Machine → Outcome}

theorem enter (follow : R.Follow s s' f g) (params arity : Nat) :
    R.Follow s s' (Machine.enter params arity f) (Machine.enter params arity g) := by
  intro m u agree
  have inside := follow { m with stack := m.stack.take params } u agree
  unfold Machine.enter
  dsimp only at inside ⊢
  generalize f { m with stack := m.stack.take params } = o at inside ⊢
  generalize g ⟨u, m.locals, m.stack.take params⟩ = o' at inside ⊢
  cases inside with
  | next agree => exact .next agree
  | @branch l inner u agree =>
    cases l with
    | zero => exact .next agree
    | succ l => exact .branch agree
  | ret agree => exact .ret agree
  | trap agree => exact .trap agree
  | exhausted => exact .exhausted

theorem repeatLoop (follow : R.Follow s s' f g) (params rounds : Nat) :
    R.Follow s s' (Machine.repeatLoop params f rounds) (Machine.repeatLoop params g rounds) := by
  induction rounds with
  | zero => exact fun _ _ _ => .exhausted
  | succ rounds ih =>
    intro m u agree
    have inside := follow m u agree
    unfold Machine.repeatLoop
    generalize f m = o at inside ⊢
    generalize g { m with store := u } = o' at inside ⊢
    cases inside with
    | next agree => exact .next agree
    | @branch l inner u agree =>
      cases l with
      | zero => exact ih { inner with stack := inner.stack.take params } u agree
      | succ l => exact .branch agree
    | ret agree => exact .ret agree
    | trap agree => exact .trap agree
    | exhausted => exact .exhausted

theorem enterLoop (follow : R.Follow s s' f g) (rounds params : Nat) :
    R.Follow s s' (Machine.enterLoop rounds params f) (Machine.enterLoop rounds params g) := by
  intro m u agree
  have inside := follow.repeatLoop params rounds { m with stack := m.stack.take params } u agree
  unfold Machine.enterLoop
  dsimp only at inside ⊢
  generalize Machine.repeatLoop params f rounds { m with stack := m.stack.take params } = o at inside ⊢
  generalize Machine.repeatLoop params g rounds ⟨u, m.locals, m.stack.take params⟩ = o' at inside ⊢
  cases inside with
  | next agree => exact .next agree
  | branch agree => exact .branch agree
  | ret agree => exact .ret agree
  | trap agree => exact .trap agree
  | exhausted => exact .exhausted

theorem popCondition {f g : Bool → Machine → Outcome} (each : ∀ b, R.Follow s s' (f b) (g b)) :
    R.Follow s s' (fun m => m.popCondition f) (fun m => m.popCondition g) := by
  intro m u agree
  dsimp only [Machine.popCondition]
  split
  · exact each _ _ u agree
  · exact .trap agree

theorem seq {i j : Machine → Outcome} (first : R.Follow s s' i j) (rest : R.Follow s s' f g) :
    R.Follow s s' (fun m => match i m with | .next m => f m | o => o)
      (fun m => match j m with | .next m => g m | o => o) := by
  intro m u agree
  have inside := first m u agree
  dsimp only
  generalize i m = o at inside ⊢
  generalize j { m with store := u } = o' at inside ⊢
  cases inside with
  | @next m u agree => exact rest m u agree
  | branch agree => exact .branch agree
  | ret agree => exact .ret agree
  | trap agree => exact .trap agree
  | exhausted => exact .exhausted

/-- Calls that leave the same are executed alike. -/
theorem call {e e' : Env} {a b : Nat} (signatures : e'.signatures[b]? = e.signatures[a]?)
    (calls : ∀ t u args, R.Matches s s' t u → R.CallsAlike s s' (e.call a t args) (e'.call b u args)) :
    R.Follow s s' (Machine.call e a) (Machine.call e' b) := by
  intro m u agree
  unfold Machine.call
  rw [signatures]
  cases e.signatures[a]? with
  | none => exact .trap agree
  | some type =>
    have inside := calls m.store u (m.stack.take type.params.length).reverse agree
    dsimp only
    generalize e.call a m.store (m.stack.take type.params.length).reverse = o at inside ⊢
    generalize e'.call b u (m.stack.take type.params.length).reverse = o' at inside ⊢
    cases inside with
    | @done results t u agree =>
      have next : R.Matches s s' (Machine.mk t m.locals
        (results.reverse ++ m.stack.drop type.params.length)).store u := agree
      exact .next next
    | trap agree => exact .trap agree
    | exhausted => exact .exhausted

theorem free {e e' : Env} (memories : e'.memories = e.memories) {i : Instr} (isFree : i.isFree = true) :
    R.Follow s s' (i.exec e) (i.exec e') := by
  intro m u agree
  have pushed (m : Machine) (r : Except Trap Value) (agree : R.Matches s s' m.store u) :
      R.Alike s s' (m.pushResult r) (({ m with store := u } : Machine).pushResult r) := by
    cases r with
    | ok v => exact .next (m := m.push (.num v)) agree
    | error cause => exact .trap agree
  cases i with
  | const v => exact .next (m := m.push (.num v)) agree
  | br l => exact .branch agree
  | ret => exact .ret agree
  | brIf l =>
    unfold Instr.exec
    refine Follow.popCondition (fun b m u agree => ?_) m u agree
    cases b with
    | false => exact .next agree
    | true => exact .branch agree
  | drop =>
    unfold Instr.exec Machine.drop
    dsimp only
    split
    next d rest _ => exact .next (m := { m with stack := rest }) agree
    next => exact .trap agree
  | binary op =>
    unfold Instr.exec Machine.binary
    dsimp only
    split
    next x y rest _ => exact pushed { m with stack := rest } _ agree
    next => exact .trap agree
  | unary op =>
    unfold Instr.exec Machine.unary
    dsimp only
    split
    next x rest _ => exact pushed { m with stack := rest } _ agree
    next => exact .trap agree
  | localGet k =>
    unfold Instr.exec Machine.localGet
    dsimp only
    split
    next d _ => exact .next (m := m.push d) agree
    next => exact .trap agree
  | localSet k =>
    unfold Instr.exec Machine.localSet
    dsimp only
    split
    next d rest _ =>
      split
      · exact .next (m := { m with locals := m.locals.setIfInBounds k d, stack := rest }) agree
      · exact .trap agree
    next => exact .trap agree
  -- from here on memories are looked at, which both stores have alike
  | load type arg =>
    have same : u.memory? e' arg.memory = m.store.memory? e arg.memory := by
      unfold Store.memory?
      rw [memories, agree.memories]
    unfold Instr.exec Machine.load Machine.loadBytes
    dsimp only
    rw [same]
    split
    next d rest _ =>
      split
      next addr n memory _ _ =>
        split
        next bytes _ => exact .next (m := { m with stack := .num (.ofBytes type bytes) :: rest }) agree
        next => exact .trap agree
      next => exact .trap agree
    next => exact .trap agree
  | store type arg =>
    unfold Instr.exec Machine.storeNum Machine.storeBytes
    dsimp only
    rw [memories]
    split
    next v d rest _ =>
      split
      next bytes addr n _ _ _ =>
        have holds : u.holds n (addr + arg.offset) bytes.length =
            m.store.holds n (addr + arg.offset) bytes.length := by
          unfold Store.holds
          rw [agree.memories]
        unfold Machine.put
        dsimp only
        rw [holds]
        split
        · have poked := agree.setMemories (m.store.memories.modify n (·.poke (addr + arg.offset) bytes))
          have both : u.poke n (addr + arg.offset) bytes =
              { u with memories := m.store.memories.modify n (·.poke (addr + arg.offset) bytes) } := by
            unfold Store.poke
            rw [agree.memories]
          rw [both]
          exact .next (m := { m with store := m.store.poke n (addr + arg.offset) bytes, stack := rest })
            poked
        · exact .trap agree
      next => exact .trap agree
    next => exact .trap agree
  | memorySize index =>
    have same : u.memory? e' index = m.store.memory? e index := by
      unfold Store.memory?
      rw [memories, agree.memories]
    unfold Instr.exec Machine.memorySize
    dsimp only
    rw [same]
    split
    next n memory _ => exact .next (m := m.push (memory.type.address.datum memory.pages)) agree
    next => exact .trap agree
  | memoryGrow index =>
    have same : u.memory? e' index = m.store.memory? e index := by
      unfold Store.memory?
      rw [memories, agree.memories]
    unfold Instr.exec Machine.memoryGrow
    dsimp only
    rw [same]
    split
    next d rest _ =>
      split
      next delta n memory _ _ =>
        split
        next grown _ =>
          have set := agree.setMemories (m.store.memories.setIfInBounds n grown)
          have both : u.setMemory n grown =
              { u with memories := m.store.memories.setIfInBounds n grown } := by
            unfold Store.setMemory
            rw [agree.memories]
          rw [both]
          exact .next (m := { m with
            store := m.store.setMemory n grown
            stack := memory.type.address.datum memory.pages :: rest }) set
        next => exact .next (m := { m with stack := memory.type.address.datum (-1) :: rest }) agree
      next => exact .trap agree
    next => exact .trap agree
  | _ => cases isFree

end Relocation.Follow

/-- What two running modules have to do with each other, when code is moved from the one to the
other. -/
structure Relocation.Relates (R : Relocation) (p q : Program) (s s' : Store) : Prop where
  types : ∀ {i j : Nat}, R.type i j → q.types[j]? = p.types[i]?
  signatures : ∀ {f g : Nat}, R.func f g → q.signatures[g]? = p.signatures[f]?
  memories : q.memories = p.memories
  slots : ∀ {slot : BitVec 32} {t t' : Nat}, R.slot slot t t' → ∃ f g,
    p.target? s slot.toNat t = some f ∧ q.target? s' slot.toNat t' = some g ∧ R.func f g
  inside : ∀ {a b : Nat}, R.global a b → a < s.globals.size ∧ b < s'.globals.size
  unique : ∀ {a b x y : Nat}, R.global a b → R.global x y → (x = a ↔ y = b)

section
variable {R : Relocation} {p q : Program} {s s' : Store} {rounds : Nat}
  {call call' : Nat → Store → List Datum → CallOutcome}

theorem Relocation.Relates.blockType (related : R.Relates p q s s') {t t' : BlockType}
    (block : R.Block t t') :
    (q.env rounds call').blockType? t' = (p.env rounds call).blockType? t := by
  cases block with
  | empty => rfl
  | value => rfl
  | index types => exact related.types types

def Relocation.CallsFollow (R : Relocation) (s s' : Store)
    (call call' : Nat → Store → List Datum → CallOutcome) : Prop :=
  ∀ f g, R.func f g → ∀ t u args, R.Matches s s' t u → R.CallsAlike s s' (call f t args) (call' g u args)

mutual

theorem Relocation.Moves.follow (related : R.Relates p q s s') (calls : R.CallsFollow s s' call call')
    {i j : Instr} (moves : R.Moves i j) :
    R.Follow s s' (i.exec (p.env rounds call)) (j.exec (q.env rounds call')) := by
  have typed {t t' : BlockType} (block : R.Block t t') :
      (q.env rounds call').blockType? t' = (p.env rounds call).blockType? t := related.blockType block
  match moves with
  | .free isFree => exact .free related.memories isFree
  | .call funcs => exact .call (related.signatures funcs) (calls _ _ funcs)
  | @Moves.globalGet _ a b globals =>
    intro m u agree
    unfold Instr.exec Machine.globalGet
    dsimp only
    rw [agree.globals globals]
    split
    next d _ => exact .next (m := m.push d) agree
    next => exact .trap agree
  -- places are unique, so no other global of the store is touched
  | @Moves.globalSet _ a b globals =>
    intro m u agree
    obtain ⟨inside, inside'⟩ := related.inside globals
    unfold Instr.exec Machine.globalSet
    dsimp only
    rw [agree.size, agree.size']
    split
    next d rest _ =>
      rw [if_pos inside, if_pos inside']
      have set := agree.setGlobal d inside inside' fun there => related.unique globals there
      exact .next (m := { m with
        store := { m.store with globals := m.store.globals.setIfInBounds a d }, stack := rest }) set
    next => exact .trap agree
  | .block types inside =>
    intro m u agree
    unfold Instr.exec
    rw [typed types]
    split
    · exact (inside.follow related calls).enter _ _ m u agree
    · exact .trap agree
  | .loop types inside =>
    intro m u agree
    unfold Instr.exec
    rw [typed types]
    split
    · exact (inside.follow related calls).enterLoop _ _ m u agree
    · exact .trap agree
  | .ifThen types inside =>
    intro m u agree
    unfold Instr.exec
    rw [typed types]
    split
    · refine Follow.popCondition (fun b => ?_) m u agree
      cases b with
      | false => exact fun _ _ agree => .next agree
      | true => exact (inside.follow related calls).enter _ _
    · exact .trap agree
  | .ifElse types yes no =>
    intro m u agree
    unfold Instr.exec
    rw [typed types]
    split
    · refine Follow.popCondition (fun b => ?_) m u agree
      cases b with
      | false => exact (no.follow related calls).enter _ _
      | true => exact (yes.follow related calls).enter _ _
    · exact .trap agree

theorem Relocation.MovesSeq.follow (related : R.Relates p q s s')
    (calls : R.CallsFollow s s' call call') {code code' : List Instr} (moves : R.MovesSeq code code') :
    R.Follow s s' (Instr.execSeq code (p.env rounds call)) (Instr.execSeq code' (q.env rounds call')) := by
  match moves with
  | .nil => exact fun _ _ agree => .next agree
  | .cons first others => exact (first.follow related calls).seq (others.follow related calls)
  | @MovesSeq.through _ slot t t' rest rest' slots others =>
    obtain ⟨f, g, target, target', funcs⟩ := related.slots slots
    have calling : R.Follow s s' (Instr.exec (.call f) (p.env rounds call))
        (Instr.exec (.call g) (q.env rounds call')) := .call (related.signatures funcs) (calls _ _ funcs)
    have both := calling.seq (others.follow related calls)
    intro m u agree
    have here := @exec_callIndirect p s rounds call slot t f target m agree.tables
    have there := @exec_callIndirect q s' rounds call' slot t' g target' { m with store := u }
      agree.tables'
    have split (code : List Instr) (t : Nat) : .const (.i32 slot) :: .callIndirect t 0 :: code =
        [Instr.const (.i32 slot), .callIndirect t 0] ++ code := rfl
    rw [split rest t, split rest' t', Instr.execSeq_append, Instr.execSeq_append, here, there]
    exact both m u agree

end

theorem Relocation.MovesSeq.runBody (related : R.Relates p q s s')
    (calls : R.CallsFollow s s' call call') {code code' : List Instr} (moves : R.MovesSeq code code')
    (type : FuncType) (locals : List ValType) {t u : Store} (agree : R.Matches s s' t u)
    (args : List Datum) : ∃ o o' : CallOutcome, R.CallsAlike s s' o o' ∧
      Wasm.runBody (p.env rounds call) type locals code t args = o.body ∧
      Wasm.runBody (q.env rounds call') type locals code' u args = o'.body := by
  have follow : R.Follow s s' (Instr.execSeq code (p.env rounds call))
      (Instr.execSeq code' (q.env rounds call')) := moves.follow related calls
  have inside := follow ⟨t, (args ++ locals.map Datum.zero).toArray, []⟩ u agree
  have finished (m : Machine) (u : Store) (agree : R.Matches s s' m.store u) :
      ∃ o o' : CallOutcome, R.CallsAlike s s' o o' ∧ m.finish type.results.length = o.body ∧
        Machine.finish type.results.length { m with store := u } = o'.body := by
    unfold Machine.finish
    dsimp only
    split
    · exact ⟨_, _, .trap agree, rfl, rfl⟩
    · exact ⟨_, _, .done agree, rfl, rfl⟩
  unfold Wasm.runBody
  dsimp only at inside ⊢
  generalize Instr.execSeq code (p.env rounds call) _ = o at inside ⊢
  generalize Instr.execSeq code' (q.env rounds call') _ = o' at inside ⊢
  cases inside with
  | next agree => exact finished _ _ agree
  | branch agree => exact finished _ _ agree
  | ret agree => exact finished _ _ agree
  | trap agree => exact ⟨_, _, .trap agree, rfl, rfl⟩
  | exhausted => exact ⟨_, _, .exhausted, rfl, rfl⟩

end

/-- A function, and what it is in the other place. -/
inductive Relocation.Function (R : Relocation) : FuncInstance → FuncInstance → Prop
  | host {key : ImportKey} {f : HostFunction} : Function R (.host key f) (.host key f)
  | code {type : FuncType} {locals : List ValType} {body body' : List Instr}
      (moves : R.MovesSeq body body') : Function R (.code type locals body) (.code type locals body')

structure Relocation.Embeds (R : Relocation) (p q : Program) (s s' : Store) : Prop extends
    R.Relates p q s s' where
  funcs : ∀ {f g : Nat}, R.func f g → ∃ function function', p.funcs[f]? = some function ∧
    q.funcs[g]? = some function' ∧ R.Function function function'
  frames : ∀ {f g : Nat}, R.func f g → q.frame g = p.frame f

section
variable {R : Relocation} {p q : Program} {s s' : Store} (embeds : R.Embeds p q s s')

theorem callHost_moved {t u : Store} (agree : R.Matches s s' t u) (key : ImportKey) (f : HostFunction)
    (args : List Value) : R.CallsAlike s s' (callHost key f t args) (callHost key f u args) := by
  have called : R.Matches s s' { t with journal := ⟨key, f.recording, args⟩ :: t.journal }
      { u with journal := ⟨key, f.recording, args⟩ :: u.journal } :=
    { agree with journal := by rw [agree.journal] }
  unfold callHost
  dsimp only
  rw [show f.results? u.journal args = f.results? t.journal args by rw [agree.journal]]
  split
  · exact .done called
  · exact .trap called

include embeds

theorem Relocation.Embeds.runOne (rounds room : Nat)
    {call call' : (room : Nat) → Nat → Store → List Datum → CallOutcome}
    (calls : ∀ room, R.CallsFollow s s' (call room) (call' room)) {f g : Nat} (funcs : R.func f g)
    {t u : Store} (agree : R.Matches s s' t u) (args : List Datum) :
    ∃ o o' : CallOutcome, R.CallsAlike s s' o o' ∧ p.runOne rounds room call f t args = o.body ∧
      q.runOne rounds room call' g u args = o'.body := by
  obtain ⟨function, function', here, there, moves⟩ := embeds.funcs funcs
  unfold Program.runOne
  rw [here, there, embeds.frames funcs]
  cases moves with
  | @host key host =>
    have called := callHost_moved agree key host (args.filterMap Datum.value?)
    refine ⟨_, _, called, ?_, ?_⟩
    · dsimp only
      cases callHost key host t (args.filterMap Datum.value?) <;> rfl
    · dsimp only
      cases callHost key host u (args.filterMap Datum.value?) <;> rfl
  | @code type locals body body' moves =>
    dsimp only
    split
    · exact ⟨_, _, .trap agree, rfl, rfl⟩
    · exact moves.runBody embeds.toRelates (calls _) type locals agree args

/-- Calls of moved functions leave what they left. -/
theorem Relocation.Embeds.invoke (rounds depth room : Nat) :
    R.CallsFollow s s' (p.invoke rounds depth room) (q.invoke rounds depth room) := by
  induction depth generalizing room with
  | zero => exact fun f g _ t u args agree => .trap agree
  | succ depth ih =>
    intro f g funcs t u args agree
    cases rounds with
    | zero => exact .exhausted
    | succ rounds =>
      obtain ⟨o, o', alike, here, there⟩ := embeds.runOne (rounds + 1) room ih funcs agree args
      rw [Program.invoke, Program.invoke, Program.runChain_of_body here, Program.runChain_of_body there]
      exact alike

end

structure Relocation.Contexts (R : Relocation) (c d : Context) : Prop where
  types : ∀ {i j : Nat}, R.type i j → d.types[j]? = c.types[i]?
  funcs : ∀ {f g : Nat}, R.func f g → d.funcs[g]? = c.funcs[f]?
  globals : ∀ {a b : Nat}, R.global a b → d.globals[b]? = c.globals[a]?
  slots : ∀ {slot : BitVec 32} {t t' : Nat}, R.slot slot t t' → d.types[t']? = c.types[t]?
  memories : d.memories = c.memories
  locals : d.locals = c.locals

namespace Relocation

variable {R : Relocation} {c d : Context}

theorem Contexts.blockType (contexts : R.Contexts c d) {t t' : BlockType} (block : R.Block t t') :
    d.blockType? t' = c.blockType? t := by
  cases block with
  | empty => rfl
  | value => rfl
  | index types => exact contexts.types types

theorem Moves.goesOn {i j : Instr} (moves : R.Moves i j) : Frame.goesOn j = Frame.goesOn i := by
  cases moves <;> rfl

mutual

theorem Moves.assigned {i j : Instr} (moves : R.Moves i j) : Frame.assigned j = Frame.assigned i := by
  match moves with
  | .free _ => rfl
  | .globalGet _ => rfl
  | .globalSet _ => rfl
  | .call _ => rfl
  | .block _ inside => exact inside.assigned
  | .loop _ inside => exact inside.assigned
  | .ifThen _ inside => exact inside.assigned
  | .ifElse _ yes no =>
    unfold Frame.assigned
    rw [yes.assigned, no.assigned]

theorem MovesSeq.assigned {code code' : List Instr} (moves : R.MovesSeq code code') :
    Frame.assignedSeq code' = Frame.assignedSeq code := by
  match moves with
  | .nil => rfl
  | .cons first others =>
    unfold Frame.assignedSeq
    rw [first.goesOn, first.assigned, others.assigned]
  | .through _ others =>
    have same := others.assigned
    simp only [Frame.assignedSeq, Frame.goesOn, Frame.assigned, same]

end

theorem trace_free (contexts : R.Contexts c d) {i : Instr} (isFree : i.isFree = true) (t : Frame.Trace) :
    Frame.trace d i t = Frame.trace c i t := by
  have address (memory : Nat) : d.memoryAddress? memory = c.memoryAddress? memory := by
    unfold Context.memoryAddress?
    rw [contexts.memories]
  cases i with
  | localSet k => simp only [Frame.trace, Frame.Trace.assign, contexts.locals]
  | load | store | memorySize | memoryGrow =>
    simp only [Frame.trace, Instr.type?, Context.accessAddress?, address]
  | const | binary | unary => simp only [Frame.trace, Instr.type?]
  | drop | localGet | br | brIf | ret => simp only [Frame.trace]
  | _ => cases isFree

mutual

theorem Moves.trace (contexts : R.Contexts c d) {i j : Instr} (moves : R.Moves i j) (t : Frame.Trace) :
    Frame.trace d j t = Frame.trace c i t := by
  match moves with
  | .free isFree => exact trace_free contexts isFree t
  | .globalGet globals =>
    simp only [Frame.trace, Instr.type?, contexts.globals globals]
    rfl
  | .globalSet globals =>
    simp only [Frame.trace, Instr.type?, contexts.globals globals]
    rfl
  | .call funcs => simp only [Frame.trace, contexts.funcs funcs]
  | .block types inside =>
    simp only [Frame.trace, contexts.blockType types, inside.trace contexts, inside.assigned]
  | .loop types inside =>
    simp only [Frame.trace, contexts.blockType types, inside.trace contexts, inside.assigned,
      Frame.Trace.forget, contexts.locals]
  | .ifThen types inside =>
    simp only [Frame.trace, contexts.blockType types, inside.trace contexts, inside.assigned]
  | .ifElse types yes no =>
    simp only [Frame.trace, contexts.blockType types, yes.trace contexts, no.trace contexts,
      yes.assigned, no.assigned]

theorem MovesSeq.trace (contexts : R.Contexts c d) {code code' : List Instr}
    (moves : R.MovesSeq code code') (t : Frame.Trace) (done : List Frame.Flow) :
    Frame.traceSeq d code' t done = Frame.traceSeq c code t done := by
  match moves with
  | .nil => rfl
  | .cons first others =>
    simp only [Frame.traceSeq, first.trace contexts, others.trace contexts]
  | .through slots others =>
    simp only [Frame.traceSeq, Frame.trace, Instr.type?, contexts.slots slots, others.trace contexts]

end

theorem MovesSeq.size (contexts : R.Contexts c d) {code code' : List Instr}
    (moves : R.MovesSeq code code') (type : FuncType) (locals : List ValType) :
    Frame.size d type locals code' = Frame.size c type locals code := by
  have within : R.Contexts { c with locals := (type.params ++ locals).toArray }
      { d with locals := (type.params ++ locals).toArray } := { contexts with locals := rfl }
  simp only [Frame.size, moves.trace within]

end Relocation

end WasmBuilder.Wasm
