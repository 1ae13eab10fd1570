import WasmBuilder.Proofs.Simplify.Operations
import WasmBuilder.Proofs.Wasm.Heights

/-!
Shorter code.

Code can be shortened where it computes a number from constants, and behind a return. It may then use
other locals for the numbers that it keeps for itself, and name its types by other indices. The shorter
code does what the longer code does: it leaves the same results and the same store, and it traps alike.
-/

set_option autoImplicit false

namespace WasmBuilder.Wasm

/-- Which types of one module stand for which ones of another, and which functions both have. -/
structure Abridgement where
  type : Nat → Nat → Prop
  func : Nat → Prop

namespace Abridgement

inductive Block (A : Abridgement) : BlockType → BlockType → Prop
  | empty : Block A .empty .empty
  | value (t : ValType) : Block A (.value t) (.value t)
  | index {i j : Nat} (types : A.type i j) : Block A (.index i) (.index j)

end Abridgement

namespace Instr

/-- Whether plain code means the same in every function of two modules that have the same globals: it
names neither types nor functions nor locals. -/
def isNameless : Instr → Bool
  | .drop | .const _ | .binary _ | .unary _ | .globalGet _ | .globalSet _ | .load _ _ | .store _ _
  | .memorySize _ | .memoryGrow _ | .br _ | .brIf _ | .ret => true
  | _ => false

end Instr

namespace Abridgement

mutual

/-- An instruction, and what it is in the shorter code; `P` tells which locals stand for which. -/
inductive Shortens (A : Abridgement) (P : Nat → Nat → Prop) : Instr → Instr → Prop
  | nameless {i : Instr} (isNameless : i.isNameless = true) : Shortens A P i i
  | localGet {k l : Nat} (places : P k l) : Shortens A P (.localGet k) (.localGet l)
  | localSet {k l : Nat} (places : P k l) : Shortens A P (.localSet k) (.localSet l)
  | call {f : Nat} (funcs : A.func f) : Shortens A P (.call f) (.call f)
  | callIndirect {i j : Nat} (types : A.type i j) :
      Shortens A P (.callIndirect i 0) (.callIndirect j 0)
  | block {t t' : BlockType} {body body' : List Instr} (types : A.Block t t')
      (inside : ShortensSeq A P body body') : Shortens A P (.block t body) (.block t' body')
  | loop {t t' : BlockType} {body body' : List Instr} (types : A.Block t t')
      (inside : ShortensSeq A P body body') : Shortens A P (.loop t body) (.loop t' body')
  | ifThen {t t' : BlockType} {body body' : List Instr} (types : A.Block t t')
      (inside : ShortensSeq A P body body') : Shortens A P (.ifThen t body) (.ifThen t' body')
  | ifElse {t t' : BlockType} {first first' second second' : List Instr} (types : A.Block t t')
      (yes : ShortensSeq A P first first') (no : ShortensSeq A P second second') :
      Shortens A P (.ifElse t first second) (.ifElse t' first' second')

inductive ShortensSeq (A : Abridgement) (P : Nat → Nat → Prop) : List Instr → List Instr → Prop
  | nil : ShortensSeq A P [] []
  | cons {i j : Instr} {rest rest' : List Instr} (first : Shortens A P i j)
      (others : ShortensSeq A P rest rest') : ShortensSeq A P (i :: rest) (j :: rest')
  | binary {op : BinOp} {a b v : Value} {rest rest' : List Instr}
      (carried : op.constant? a b = some v) (others : ShortensSeq A P rest rest') :
      ShortensSeq A P (.const a :: .const b :: .binary op :: rest) (.const v :: rest')
  | unary {op : UnOp} {a v : Value} {rest rest' : List Instr} (carried : op.constant? a = some v)
      (others : ShortensSeq A P rest rest') :
      ShortensSeq A P (.const a :: .unary op :: rest) (.const v :: rest')
  | behindReturn (lost : List Instr) {rest rest' : List Instr}
      (others : ShortensSeq A P rest rest') :
      ShortensSeq A P (.ret :: (lost ++ rest)) (.ret :: rest')

end

namespace ShortensSeq

variable {A : Abridgement} {P : Nat → Nat → Prop}

theorem append {code code' others others' : List Instr} (one : A.ShortensSeq P code code')
    (two : A.ShortensSeq P others others') : A.ShortensSeq P (code ++ others) (code' ++ others') := by
  match one with
  | .nil => exact two
  | .cons first rest => exact .cons first (rest.append two)
  | .binary carried rest => exact .binary carried (rest.append two)
  | .unary carried rest => exact .unary carried (rest.append two)
  | .behindReturn lost rest =>
    rw [List.cons_append, List.append_assoc]
    exact .behindReturn lost (rest.append two)

theorem single {i j : Instr} (shortens : A.Shortens P i j) : A.ShortensSeq P [i] [j] :=
  .cons shortens .nil

theorem map {α β : Type} {f : α → Instr} {g : β → Instr} {xs : List α} {ys : List β}
    (each : List.Forall₂ (fun x y => A.Shortens P (f x) (g y)) xs ys) :
    A.ShortensSeq P (xs.map f) (ys.map g) := by
  induction each with
  | nil => exact .nil
  | cons first _ ih => exact .cons first ih

theorem nameless {code : List Instr} (isNameless : ∀ i ∈ code, i.isNameless = true) :
    A.ShortensSeq P code code := by
  induction code with
  | nil => exact .nil
  | cons i rest ih =>
    exact .cons (.nameless (isNameless i List.mem_cons_self))
      (ih fun j mem => isNameless j (List.mem_cons_of_mem i mem))

end ShortensSeq

def Fills (A : Abridgement) (s : Store) : Prop :=
  ∀ (table : Nat) (slots : Table) (slot g : Nat), s.tables[table]? = some slots →
    slots.get? slot = some (.func (some g)) → A.func g

end Abridgement

def Agree (P : Nat → Nat → Prop) (xs ys : Array Datum) : Prop := ∀ k l : Nat, P k l → ys[l]? = xs[k]?

namespace Agree

variable {P : Nat → Nat → Prop} {xs ys : Array Datum}

theorem lt_size_iff (agree : Agree P xs ys) {k l : Nat} (places : P k l) :
    k < xs.size ↔ l < ys.size := by
  have same := agree k l places
  rw [← not_iff_not, Nat.not_lt, Nat.not_lt, ← Array.getElem?_eq_none_iff,
    ← Array.getElem?_eq_none_iff, same]

theorem set (agree : Agree P xs ys) {k l : Nat} (places : P k l) (d : Datum)
    (unique : ∀ {x y : Nat}, P x y → (x = k ↔ y = l)) :
    Agree P (xs.setIfInBounds k d) (ys.setIfInBounds l d) := by
  intro x y here
  have inside := agree.lt_size_iff places
  rw [Array.getElem?_setIfInBounds, Array.getElem?_setIfInBounds]
  by_cases same : x = k
  · rw [if_pos same.symm, if_pos ((unique here).1 same).symm]
    exact if_congr inside.symm rfl rfl
  · rw [if_neg (Ne.symm same), if_neg fun is => same ((unique here).2 is.symm)]
    exact agree x y here

end Agree

namespace Abridgement

/-- What two ways of execution leave, in machines that differ by their locals only. -/
inductive Alike (A : Abridgement) (P : Nat → Nat → Prop) : Outcome → Outcome → Prop
  | next {m : Machine} {locals : Array Datum} (fills : A.Fills m.store)
      (agree : Agree P m.locals locals) : Alike A P (.next m) (.next { m with locals })
  | branch {l : Nat} {m : Machine} {locals : Array Datum} (fills : A.Fills m.store)
      (agree : Agree P m.locals locals) : Alike A P (.branch l m) (.branch l { m with locals })
  | ret {m : Machine} {locals : Array Datum} (fills : A.Fills m.store) :
      Alike A P (.ret m) (.ret { m with locals })
  | trap {cause : Trap} {s : Store} (fills : A.Fills s) : Alike A P (.trap cause s) (.trap cause s)
  | exhausted : Alike A P .exhausted .exhausted

def Follow (A : Abridgement) (P : Nat → Nat → Prop) (f g : Machine → Outcome) : Prop :=
  ∀ (m : Machine) (locals : Array Datum), A.Fills m.store → Agree P m.locals locals →
    A.Alike P (f m) (g { m with locals })

namespace Follow

variable {A : Abridgement} {P : Nat → Nat → Prop} {f g : Machine → Outcome}

theorem enter (follow : A.Follow P f g) (params arity : Nat) :
    A.Follow P (Machine.enter params arity f) (Machine.enter params arity g) := by
  intro m locals fills agree
  have inside := follow { m with stack := m.stack.take params } locals fills agree
  unfold Machine.enter
  dsimp only at inside ⊢
  generalize f { m with stack := m.stack.take params } = o at inside ⊢
  generalize g ⟨m.store, locals, m.stack.take params⟩ = o' at inside ⊢
  cases inside with
  | next fills agree => exact .next fills agree
  | @branch l inner locals fills agree =>
    cases l with
    | zero => exact .next fills agree
    | succ l => exact .branch fills agree
  | ret fills => exact .ret fills
  | trap fills => exact .trap fills
  | exhausted => exact .exhausted

theorem repeatLoop (follow : A.Follow P f g) (params rounds : Nat) :
    A.Follow P (Machine.repeatLoop params f rounds) (Machine.repeatLoop params g rounds) := by
  induction rounds with
  | zero => exact fun _ _ _ _ => .exhausted
  | succ rounds ih =>
    intro m locals fills agree
    have inside := follow m locals fills agree
    unfold Machine.repeatLoop
    generalize f m = o at inside ⊢
    generalize g { m with locals } = o' at inside ⊢
    cases inside with
    | next fills agree => exact .next fills agree
    | @branch l inner locals fills agree =>
      cases l with
      | zero => exact ih { inner with stack := inner.stack.take params } locals fills agree
      | succ l => exact .branch fills agree
    | ret fills => exact .ret fills
    | trap fills => exact .trap fills
    | exhausted => exact .exhausted

theorem enterLoop (follow : A.Follow P f g) (rounds params : Nat) :
    A.Follow P (Machine.enterLoop rounds params f) (Machine.enterLoop rounds params g) := by
  intro m locals fills agree
  have inside := follow.repeatLoop params rounds { m with stack := m.stack.take params } locals fills
    agree
  unfold Machine.enterLoop
  dsimp only at inside ⊢
  generalize Machine.repeatLoop params f rounds _ = o at inside ⊢
  generalize Machine.repeatLoop params g rounds _ = o' at inside ⊢
  cases inside with
  | next fills agree => exact .next fills agree
  | branch fills agree => exact .branch fills agree
  | ret fills => exact .ret fills
  | trap fills => exact .trap fills
  | exhausted => exact .exhausted

theorem popCondition {f g : Bool → Machine → Outcome} (each : ∀ b, A.Follow P (f b) (g b)) :
    A.Follow P (fun m => m.popCondition f) (fun m => m.popCondition g) := by
  intro m locals fills agree
  unfold Machine.popCondition
  dsimp only
  split
  next c rest _ => exact each _ { m with stack := rest } locals fills agree
  next => exact .trap fills

theorem seq {i j : Machine → Outcome} (first : A.Follow P i j) (rest : A.Follow P f g) :
    A.Follow P (fun m => match i m with | .next m => f m | o => o)
      (fun m => match j m with | .next m => g m | o => o) := by
  intro m locals fills agree
  have inside := first m locals fills agree
  dsimp only
  generalize i m = o at inside ⊢
  generalize j { m with locals } = o' at inside ⊢
  cases inside with
  | next fills agree => exact rest _ _ fills agree
  | branch fills agree => exact .branch fills agree
  | ret fills => exact .ret fills
  | trap fills => exact .trap fills
  | exhausted => exact .exhausted

theorem globalGet (k : Nat) : A.Follow P (Machine.globalGet k) (Machine.globalGet k) := by
  intro m locals fills agree
  unfold Machine.globalGet
  dsimp only
  split
  next d _ => exact .next (m := m.push d) fills agree
  next => exact .trap fills

theorem globalSet (k : Nat) : A.Follow P (Machine.globalSet k) (Machine.globalSet k) := by
  intro m locals fills agree
  unfold Machine.globalSet
  dsimp only
  split
  next d rest _ =>
    split
    · exact .next (m := { m with
        store := { m.store with globals := m.store.globals.setIfInBounds k d }, stack := rest })
        fills agree
    · exact .trap fills
  next => exact .trap fills

theorem pushResult {m : Machine} {locals : Array Datum} (r : Except Trap Value)
    (fills : A.Fills m.store) (agree : Agree P m.locals locals) :
    A.Alike P (m.pushResult r) (({ m with locals } : Machine).pushResult r) := by
  cases r with
  | ok v => exact .next (m := m.push (.num v)) fills agree
  | error cause => exact .trap fills

theorem binary (op : Value → Value → Except Trap Value) :
    A.Follow P (Machine.binary op) (Machine.binary op) := by
  intro m locals fills agree
  unfold Machine.binary
  dsimp only
  split
  next x y rest _ => exact pushResult (m := { m with stack := rest }) _ fills agree
  next => exact .trap fills

theorem unary (op : Value → Except Trap Value) :
    A.Follow P (Machine.unary op) (Machine.unary op) := by
  intro m locals fills agree
  unfold Machine.unary
  dsimp only
  split
  next x rest _ => exact pushResult (m := { m with stack := rest }) _ fills agree
  next => exact .trap fills

section
variable {e e' : Env} (memories : e'.memories = e.memories)

include memories

theorem load (t : NumType) (arg : MemArg) :
    A.Follow P (Machine.load e t arg) (Machine.load e' t arg) := by
  intro m locals fills agree
  unfold Machine.load Machine.loadBytes Store.memory?
  dsimp only
  rw [memories]
  split
  next d rest _ =>
    split
    next addr n memory _ _ =>
      split
      next bytes _ => exact .next (m := { m with stack := .num (.ofBytes t bytes) :: rest }) fills agree
      next => exact .trap fills
    next => exact .trap fills
  next => exact .trap fills

theorem storeNum (t : NumType) (arg : MemArg) :
    A.Follow P (Machine.storeNum e t arg) (Machine.storeNum e' t arg) := by
  intro m locals fills agree
  unfold Machine.storeNum Machine.storeBytes
  dsimp only
  rw [memories]
  split
  next v d rest _ =>
    split
    next bytes addr n _ _ _ =>
      unfold Machine.put
      dsimp only
      split
      · exact .next (m := { m with
          store := m.store.poke n (addr + arg.offset) bytes, stack := rest }) fills agree
      · exact .trap fills
    next => exact .trap fills
  next => exact .trap fills

theorem memorySize (index : Nat) :
    A.Follow P (Machine.memorySize e index) (Machine.memorySize e' index) := by
  intro m locals fills agree
  unfold Machine.memorySize Store.memory?
  dsimp only
  rw [memories]
  split
  next n memory _ => exact .next (m := m.push (memory.type.address.datum memory.pages)) fills agree
  next => exact .trap fills

theorem memoryGrow (index : Nat) :
    A.Follow P (Machine.memoryGrow e index) (Machine.memoryGrow e' index) := by
  intro m locals fills agree
  unfold Machine.memoryGrow Store.memory?
  dsimp only
  rw [memories]
  split
  next d rest _ =>
    split
    next delta n memory _ _ =>
      split
      next grown _ =>
        exact .next (m := { m with
          store := m.store.setMemory n grown
          stack := memory.type.address.datum memory.pages :: rest }) fills agree
      next => exact .next (m := { m with stack := memory.type.address.datum (-1) :: rest }) fills agree
    next => exact .trap fills
  next => exact .trap fills

theorem nameless {i : Instr} (isNameless : i.isNameless = true) : A.Follow P (i.exec e) (i.exec e') := by
  intro m locals fills agree
  cases i with
  | const v => exact .next (m := m.push (.num v)) fills agree
  | br l => exact .branch fills agree
  | ret => exact .ret fills
  | brIf l =>
    unfold Instr.exec
    refine Follow.popCondition (fun b m locals fills agree => ?_) m locals fills agree
    cases b with
    | false => exact .next fills agree
    | true => exact .branch fills agree
  | drop =>
    unfold Instr.exec Machine.drop
    dsimp only
    split
    next d rest _ => exact .next (m := { m with stack := rest }) fills agree
    next => exact .trap fills
  | binary op => exact Follow.binary op.eval m locals fills agree
  | unary op => exact Follow.unary op.eval m locals fills agree
  | globalGet k => exact Follow.globalGet k m locals fills agree
  | globalSet k => exact Follow.globalSet k m locals fills agree
  | load t arg => exact Follow.load memories t arg m locals fills agree
  | store t arg => exact Follow.storeNum memories t arg m locals fills agree
  | memorySize k => exact Follow.memorySize memories k m locals fills agree
  | memoryGrow k => exact Follow.memoryGrow memories k m locals fills agree
  | _ => cases isNameless

end

end Follow

def Leaves (A : Abridgement) : CallOutcome → Prop
  | .done _ s | .trap _ s => A.Fills s
  | .exhausted => True

def CallsFollow (A : Abridgement) (call call' : Nat → Store → List Datum → CallOutcome) : Prop :=
  ∀ f, A.func f → ∀ s args, A.Fills s → call' f s args = call f s args ∧ A.Leaves (call f s args)

structure Surrounds (A : Abridgement) (e e' : Env) : Prop where
  types : ∀ {i j : Nat}, A.type i j → e'.types[j]? = e.types[i]?
  signatures : ∀ {f : Nat}, A.func f → e'.signatures[f]? = e.signatures[f]?
  memories : e'.memories = e.memories
  rounds : e'.rounds = e.rounds
  calls : A.CallsFollow e.call e'.call

section
variable {A : Abridgement} {P : Nat → Nat → Prop} {e e' : Env} (around : A.Surrounds e e')

include around

theorem Surrounds.blockType {t t' : BlockType} (block : A.Block t t') :
    e'.blockType? t' = e.blockType? t := by
  cases block with
  | empty => rfl
  | value => rfl
  | index types => exact around.types types

theorem Surrounds.call {f : Nat} (func : A.func f) :
    A.Follow P (Machine.call e f) (Machine.call e' f) := by
  intro m locals fills agree
  unfold Machine.call
  rw [around.signatures func]
  dsimp only
  split
  next type _ =>
    obtain ⟨same, left⟩ := around.calls f func m.store (m.stack.take type.params.length).reverse fills
    rw [same]
    generalize e.call f m.store (m.stack.take type.params.length).reverse = o at left ⊢
    cases o with
    | done results t =>
      exact .next (m := { m with
        store := t, stack := results.reverse ++ m.stack.drop type.params.length }) left agree
    | trap cause t => exact .trap left
    | exhausted => exact .exhausted
  next => exact .trap fills

/-- A call through the table comes to a function that both modules have. -/
theorem Surrounds.callIndirect {i j : Nat} (types : A.type i j) (table : Nat) :
    A.Follow P (fun m => m.withSlot e i table fun f m => m.call e f)
      (fun m => m.withSlot e' j table fun f m => m.call e' f) := by
  intro m locals fills agree
  unfold Machine.withSlot
  dsimp only
  rw [around.types types]
  split
  next d rest _ =>
    split
    next slot type slots _ _ here =>
      split
      next g found =>
        have func := fills table slots slot g here found
        rw [around.signatures func]
        split
        · exact around.call func { m with stack := rest } locals fills agree
        · exact .trap fills
      next => exact .trap fills
    next => exact .trap fills
  next => exact .trap fills

end

section
variable {A : Abridgement} {P : Nat → Nat → Prop} {e e' : Env}

mutual

/-- Shorter code does what the longer code does. -/
theorem Shortens.follow (around : A.Surrounds e e')
    (unique : ∀ {k l x y : Nat}, P k l → P x y → (x = k ↔ y = l)) {i j : Instr}
    (shortens : A.Shortens P i j) : A.Follow P (i.exec e) (j.exec e') := by
  match shortens with
  | .nameless isNameless => exact .nameless around.memories isNameless
  | @Shortens.localGet _ _ k l places =>
    intro m locals fills agree
    unfold Instr.exec Machine.localGet
    dsimp only
    rw [agree k l places]
    split
    next d _ => exact .next (m := m.push d) fills agree
    next => exact .trap fills
  -- places are unique, so the other locals still agree
  | @Shortens.localSet _ _ k l places =>
    intro m locals fills agree
    unfold Instr.exec Machine.localSet
    dsimp only
    split
    next d rest _ =>
      by_cases inside : k < m.locals.size
      · rw [if_pos inside, if_pos ((agree.lt_size_iff places).1 inside)]
        exact .next (m := { m with locals := m.locals.setIfInBounds k d, stack := rest }) fills
          (agree.set places d fun there => unique places there)
      · rw [if_neg inside, if_neg fun there => inside ((agree.lt_size_iff places).2 there)]
        exact .trap fills
    next => exact .trap fills
  | .call funcs => exact around.call funcs
  | .callIndirect types => exact around.callIndirect types 0
  | .block types inside =>
    intro m locals fills agree
    unfold Instr.exec
    rw [around.blockType types]
    split
    · exact (inside.follow around unique).enter _ _ m locals fills agree
    · exact .trap fills
  | .loop types inside =>
    intro m locals fills agree
    unfold Instr.exec
    rw [around.blockType types, around.rounds]
    split
    · exact (inside.follow around unique).enterLoop _ _ m locals fills agree
    · exact .trap fills
  | .ifThen types inside =>
    intro m locals fills agree
    unfold Instr.exec
    rw [around.blockType types]
    split
    · refine Follow.popCondition (fun b => ?_) m locals fills agree
      cases b with
      | false => exact fun _ _ fills agree => .next fills agree
      | true => exact (inside.follow around unique).enter _ _
    · exact .trap fills
  | .ifElse types yes no =>
    intro m locals fills agree
    unfold Instr.exec
    rw [around.blockType types]
    split
    · refine Follow.popCondition (fun b => ?_) m locals fills agree
      cases b with
      | false => exact (no.follow around unique).enter _ _
      | true => exact (yes.follow around unique).enter _ _
    · exact .trap fills

theorem ShortensSeq.follow (around : A.Surrounds e e')
    (unique : ∀ {k l x y : Nat}, P k l → P x y → (x = k ↔ y = l))
    {code code' : List Instr} (shortens : A.ShortensSeq P code code') :
    A.Follow P (Instr.execSeq code e) (Instr.execSeq code' e') := by
  match shortens with
  | .nil => exact fun _ _ fills agree => .next fills agree
  | .cons first others => exact (first.follow around unique).seq (others.follow around unique)
  | @ShortensSeq.binary _ _ op a b v rest rest' carried others =>
    intro m locals fills agree
    have computed : Instr.execSeq (.const a :: .const b :: .binary op :: rest) e m =
        Instr.execSeq rest e (m.push (.num v)) := by
      simp only [Instr.execSeq, Instr.exec, Machine.push, Machine.binary, Machine.pushResult,
        BinOp.eval_of_constant? carried]
    rw [computed]
    exact others.follow around unique (m.push (.num v)) locals fills agree
  | @ShortensSeq.unary _ _ op a v rest rest' carried others =>
    intro m locals fills agree
    have computed : Instr.execSeq (.const a :: .unary op :: rest) e m =
        Instr.execSeq rest e (m.push (.num v)) := by
      simp only [Instr.execSeq, Instr.exec, Machine.push, Machine.unary, Machine.pushResult,
        UnOp.eval_of_constant? carried]
    rw [computed]
    exact others.follow around unique (m.push (.num v)) locals fills agree
  | .behindReturn lost others => exact fun _ _ fills _ => .ret fills

end

theorem ShortensSeq.runBody (around : A.Surrounds e e')
    (unique : ∀ {k l x y : Nat}, P k l → P x y → (x = k ↔ y = l))
    {code code' : List Instr} (shortens : A.ShortensSeq P code code') (type : FuncType)
    {locals locals' : List ValType} {s : Store} (fills : A.Fills s) {args : List Datum}
    (agree : Agree P (args ++ locals.map Datum.zero).toArray (args ++ locals'.map Datum.zero).toArray) :
    ∃ o : CallOutcome, Wasm.runBody e type locals code s args = o.body ∧
      Wasm.runBody e' type locals' code' s args = o.body ∧ A.Leaves o := by
  have inside := shortens.follow around unique ⟨s, (args ++ locals.map Datum.zero).toArray, []⟩
    (args ++ locals'.map Datum.zero).toArray fills agree
  have finished (m : Machine) (own : Array Datum) (fills : A.Fills m.store) :
      ∃ o : CallOutcome, m.finish type.results.length = o.body ∧
        Machine.finish type.results.length { m with locals := own } = o.body ∧ A.Leaves o := by
    unfold Machine.finish
    dsimp only
    split
    · exact ⟨.trap .illTyped m.store, rfl, rfl, fills⟩
    · exact ⟨.done _ m.store, rfl, rfl, fills⟩
  unfold Wasm.runBody
  dsimp only at inside ⊢
  generalize Instr.execSeq code e _ = o at inside ⊢
  generalize Instr.execSeq code' e' _ = o' at inside ⊢
  cases inside with
  | next fills => exact finished _ _ fills
  | branch fills => exact finished _ _ fills
  | ret fills => exact finished _ _ fills
  | @trap cause s fills => exact ⟨.trap cause s, rfl, rfl, fills⟩
  | exhausted => exact ⟨.exhausted, rfl, rfl, trivial⟩

end

/-- Locals that stand for each other, behind the parameters of a function or among them. Parameters
stand for themselves. -/
structure Places (P : Nat → Nat → Prop) (params locals locals' : List ValType) : Prop where
  unique : ∀ {k l x y : Nat}, P k l → P x y → (x = k ↔ y = l)
  types : ∀ {k l : Nat}, P k l → (params ++ locals')[l]? = (params ++ locals)[k]?
  params : ∀ {k l : Nat}, P k l → k < params.length ∨ l < params.length → k = l

/-- On entry, parameters hold the arguments, and locals hold zeros of their types. -/
theorem Places.agree {P : Nat → Nat → Prop} {params locals locals' : List ValType}
    (places : Places P params locals locals') {args : List Datum} (count : args.length = params.length) :
    Agree P (args ++ locals.map Datum.zero).toArray (args ++ locals'.map Datum.zero).toArray := by
  intro k l here
  have types := places.types here
  rw [List.getElem?_toArray, List.getElem?_toArray]
  by_cases own : k < params.length ∨ l < params.length
  · cases places.params here own
    have inside : k < args.length := by omega
    rw [List.getElem?_append_left inside, List.getElem?_append_left inside]
  · have behind : params.length ≤ k ∧ params.length ≤ l := by omega
    rw [List.getElem?_append_right behind.2, List.getElem?_append_right behind.1] at types
    rw [List.getElem?_append_right (count ▸ behind.2), List.getElem?_append_right (count ▸ behind.1),
      List.getElem?_map, List.getElem?_map, count, types]

/-- A function, and the shorter one in its place. -/
inductive Function (A : Abridgement) : FuncInstance → FuncInstance → Prop
  | host {key : ImportKey} {f : HostFunction} : Function A (.host key f) (.host key f)
  | code {type : FuncType} {locals locals' : List ValType} {body body' : List Instr}
      {P : Nat → Nat → Prop} (places : Places P type.params locals locals')
      (shortens : A.ShortensSeq P body body') :
      Function A (.code type locals body) (.code type locals' body')

/-- Two running modules, of which the one has shorter functions in place of those of the other one. -/
structure Embeds (A : Abridgement) (p q : Program) : Prop where
  types : ∀ {i j : Nat}, A.type i j → q.types[j]? = p.types[i]?
  signatures : ∀ {f : Nat}, A.func f → q.signatures[f]? = p.signatures[f]?
  memories : q.memories = p.memories
  funcs : ∀ {f : Nat}, A.func f → ∃ function function', p.funcs[f]? = some function ∧
    q.funcs[f]? = some function' ∧ A.Function function function'
  frames : ∀ {f : Nat}, A.func f → q.frame f = p.frame f
  checked : p.Checked
  checked' : q.Checked

section
variable {A : Abridgement} {p q : Program} (embeds : A.Embeds p q)

include embeds

theorem Embeds.strictly {call call' : Nat → Store → List Datum → CallOutcome}
    (calls : ∀ f, A.func f → ∀ s args, A.Fills s →
      (p.signatures[f]?).any (·.params.length = args.length) = true →
      call' f s args = call f s args ∧ A.Leaves (call f s args)) :
    A.CallsFollow (Wasm.strictly p.signatures call) (Wasm.strictly q.signatures call') := by
  intro f func s args fills
  unfold Wasm.strictly
  rw [embeds.signatures func]
  split
  next enough => exact calls f func s args fills enough
  next => exact ⟨rfl, fills⟩

theorem Embeds.runOne (rounds room : Nat)
    {call call' : (room : Nat) → Nat → Store → List Datum → CallOutcome}
    (yields : ∀ room, Yielding p.signatures (call room))
    (yields' : ∀ room, Yielding q.signatures (call' room))
    (calls : ∀ room, A.CallsFollow (Wasm.strictly p.signatures (call room))
      (Wasm.strictly q.signatures (call' room)))
    {f : Nat} (func : A.func f) {s : Store} (fills : A.Fills s) {args : List Datum}
    (enough : (p.signatures[f]?).any (·.params.length = args.length) = true) :
    ∃ o : CallOutcome, p.runOne rounds room call f s args = o.body ∧
      q.runOne rounds room call' f s args = o.body ∧ A.Leaves o := by
  obtain ⟨strict, _⟩ := embeds.checked.runOne rounds room yields f s args
  obtain ⟨strict', _⟩ := embeds.checked'.runOne rounds room yields' f s args
  rw [← strict, ← strict']
  obtain ⟨function, function', here, there, shortens⟩ := embeds.funcs func
  rw [embeds.checked.signatures, Array.getElem?_map, here] at enough
  unfold Program.runOne
  rw [here, there, embeds.frames func]
  cases shortens with
  | @host key host =>
    dsimp only
    have left : A.Leaves (callHost key host s (args.filterMap Datum.value?)) := by
      unfold callHost
      dsimp only
      split <;> exact fills
    refine ⟨callHost key host s (args.filterMap Datum.value?), ?_, ?_, left⟩
    all_goals cases callHost key host s (args.filterMap Datum.value?) <;> rfl
  | @code type locals locals' body body' P places shortens =>
    dsimp only
    split
    · exact ⟨.trap .callDepth s, rfl, rfl, fills⟩
    · have around : A.Surrounds
          (p.env rounds (Wasm.strictly p.signatures (call (room - p.frame f))))
          (q.env rounds (Wasm.strictly q.signatures (call' (room - p.frame f)))) :=
        ⟨embeds.types, embeds.signatures, embeds.memories, rfl, calls _⟩
      have count : type.params.length = args.length := of_decide_eq_true enough
      exact shortens.runBody around places.unique type fills (places.agree count.symm)

/-- Calls of shorter functions leave what they left. -/
theorem Embeds.invoke (rounds depth room : Nat) {f : Nat} (func : A.func f) {s : Store}
    (fills : A.Fills s) {args : List Datum}
    (enough : (p.signatures[f]?).any (·.params.length = args.length) = true) :
    q.invoke rounds depth room f s args = p.invoke rounds depth room f s args ∧
      A.Leaves (p.invoke rounds depth room f s args) := by
  induction depth generalizing room f s args with
  | zero => exact ⟨rfl, fills⟩
  | succ depth ih =>
    cases rounds with
    | zero => exact ⟨rfl, trivial⟩
    | succ rounds =>
      obtain ⟨o, here, there, left⟩ := embeds.runOne (rounds + 1) room
        (embeds.checked.yielding (rounds + 1) depth) (embeds.checked'.yielding (rounds + 1) depth)
        (fun room => embeds.strictly fun f func s args fills enough => ih room func fills enough)
        func fills enough
      rw [Program.invoke, Program.invoke, Program.runChain_of_body here,
        Program.runChain_of_body there]
      exact ⟨rfl, left⟩

end

structure Contexts (A : Abridgement) (P : Nat → Nat → Prop) (c d : Context) : Prop where
  types : ∀ {i j : Nat}, A.type i j → d.types[j]? = c.types[i]?
  funcs : ∀ {f : Nat}, A.func f → d.funcs[f]? = c.funcs[f]?
  locals : ∀ {k l : Nat}, P k l → d.locals[l]? = c.locals[k]?
  globals : d.globals = c.globals
  tables : d.tables = c.tables
  memories : d.memories = c.memories
  labels : d.labels = c.labels
  results : d.results = c.results

namespace Contexts

variable {A : Abridgement} {P : Nat → Nat → Prop} {c d : Context} (contexts : A.Contexts P c d)

include contexts

theorem blockType {t t' : BlockType} (block : A.Block t t') : d.blockType? t' = c.blockType? t := by
  cases block with
  | empty => rfl
  | value => rfl
  | index types => exact contexts.types types

theorem withLabel (types : List ValType) : A.Contexts P (c.withLabel types) (d.withLabel types) :=
  { contexts with labels := congrArg (types :: ·) contexts.labels }

theorem forBody {type : FuncType} {locals locals' : List ValType}
    (places : Places P type.params locals locals') :
    A.Contexts P (c.forBody type locals) (d.forBody type locals') where
  types := contexts.types
  funcs := contexts.funcs
  locals := by
    intro k l here
    change (type.params ++ locals').toArray[l]? = (type.params ++ locals).toArray[k]?
    rw [List.getElem?_toArray, List.getElem?_toArray, places.types here]
  globals := contexts.globals
  tables := contexts.tables
  memories := contexts.memories
  labels := rfl
  results := rfl

theorem type?_nameless {i : Instr} (isNameless : i.isNameless = true) : i.type? d = i.type? c := by
  have address (memory : Nat) : d.memoryAddress? memory = c.memoryAddress? memory := by
    unfold Context.memoryAddress?
    rw [contexts.memories]
  cases i with
  | globalGet | globalSet => simp only [Instr.type?, contexts.globals]
  | load | store | memorySize | memoryGrow =>
    simp only [Instr.type?, Context.accessAddress?, address]
  | const | binary | unary | drop | br | brIf | ret => rfl
  | _ => cases isNameless

end Contexts

end Abridgement

end WasmBuilder.Wasm
