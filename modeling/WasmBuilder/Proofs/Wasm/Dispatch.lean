import WasmBuilder.Proofs.Wasm.Numeric

/-!
Calls through the table that might as well be direct.

Plain code never writes to a table. So a call through a slot that stands in the code as a constant
comes to the same function whenever it is made, and a program in which such calls name their
functions themselves runs like the one in which they go through the table.
-/

set_option autoImplicit false

namespace WasmBuilder.Wasm

/-- The function in a slot of the table, if it is of the type that a call names. -/
def Program.target? (p : Program) (s : Store) (slot typeIndex : Nat) : Option Nat :=
  match p.types[typeIndex]?, s.tables[0]?.bind fun t => t.get? slot with
  | some type, some (Datum.func (some f)) => if p.signatures[f]? = some type then some f else none
  | _, _ => none

theorem Program.target?_eq_some {p : Program} {s : Store} {slot t f : Nat} :
    p.target? s slot t = some f ↔ ∃ type slots, p.types[t]? = some type ∧
      s.tables[0]? = some slots ∧ slots.get? slot = some (.func (some f)) ∧
      p.signatures[f]? = some type := by
  unfold target?
  constructor
  · intro target
    split at target
    next type g typed held =>
      split at target
      next fits =>
        cases target
        obtain ⟨slots, table, held⟩ := Option.bind_eq_some_iff.1 held
        exact ⟨type, slots, typed, table, held, fits⟩
      next => cases target
    next => cases target
  · rintro ⟨type, slots, typed, table, held, fits⟩
    simp only [typed, table, Option.bind_some, held, fits, if_true]

namespace Instr

def fuse (target? : Nat → Nat → Option Nat) : Instr → List Instr → List Instr
  | .const (.i32 slot), .callIndirect t 0 :: rest =>
    match target? slot.toNat t with
    | some f => .call f :: rest
    | none => .const (.i32 slot) :: .callIndirect t 0 :: rest
  | i, rest => i :: rest

mutual

def direct (target? : Nat → Nat → Option Nat) : Instr → Instr
  | .block t body => .block t (directSeq target? body)
  | .loop t body => .loop t (directSeq target? body)
  | .ifThen t body => .ifThen t (directSeq target? body)
  | .ifElse t first second => .ifElse t (directSeq target? first) (directSeq target? second)
  | i => i

def directSeq (target? : Nat → Nat → Option Nat) : List Instr → List Instr
  | [] => []
  | i :: rest => fuse target? (direct target? i) (directSeq target? rest)

end

end Instr

def FuncInstance.direct (target? : Nat → Nat → Option Nat) : FuncInstance → FuncInstance
  | .host key f => .host key f
  | .code type locals body => .code type locals (Instr.directSeq target? body)

def Program.direct (p : Program) (s : Store) : Program :=
  { p with funcs := p.funcs.map (FuncInstance.direct (p.target? s)) }

section
variable {p : Program} {s : Store} {rounds : Nat}
  {call call' : Nat → Store → List Datum → CallOutcome}

/-- A call through a slot that holds a function of the right type is a call of this function. -/
theorem exec_callIndirect {slot : BitVec 32} {t f : Nat} (target : p.target? s slot.toNat t = some f)
    {m : Machine} (tables : m.store.tables = s.tables) :
    Instr.execSeq [.const (.i32 slot), .callIndirect t 0] (p.env rounds call) m =
      Instr.exec (.call f) (p.env rounds call) m := by
  obtain ⟨type, slots, typed, table, held, fits⟩ := Program.target?_eq_some.1 target
  have here : m.store.tables[0]? = some slots := by rw [tables, table]
  have called : (m.push (.num (.i32 slot))).withSlot (p.env rounds call) t 0
      (fun f m => m.call (p.env rounds call) f) = m.call (p.env rounds call) f := by
    simp only [Machine.withSlot, Machine.push, Datum.unsigned?, Value.unsigned?, Program.env, typed,
      here, held, fits, if_true]
  simp only [Instr.execSeq, Instr.exec, called]
  cases m.call (p.env rounds call) f <;> rfl

theorem execSeq_fuse (i : Instr) (rest : List Instr) {m : Machine}
    (tables : m.store.tables = s.tables) :
    Instr.execSeq (Instr.fuse (p.target? s) i rest) (p.env rounds call) m =
      Instr.execSeq (i :: rest) (p.env rounds call) m := by
  unfold Instr.fuse
  split
  next slot t rest =>
    split
    next f target =>
      have called := @exec_callIndirect p s rounds call slot t f target m tables
      show Instr.execSeq ([Instr.call f] ++ rest) _ m =
        Instr.execSeq ([Instr.const (.i32 slot), .callIndirect t 0] ++ rest) _ m
      rw [Instr.execSeq_append, Instr.execSeq_append, called, Instr.execSeq_singleton]
    next => rfl
  next => rfl

def SameCalls (s : Store) (call' call : Nat → Store → List Datum → CallOutcome) : Prop :=
  ∀ (f : Nat) (t : Store) (args : List Datum), StoreKept s t → Numbers args →
    call' f t args = call f t args

def Alike (s : Store) (f g : Machine → Outcome) : Prop := ∀ m, MachineKept s m → f m = g m

namespace Alike

variable {f g : Machine → Outcome}

theorem enter (alike : Alike s f g) (params arity : Nat) :
    Alike s (Machine.enter params arity f) (Machine.enter params arity g) := by
  intro m kept
  unfold Machine.enter
  rw [alike _ (kept.withStack (kept.stack.take params))]

theorem enterLoop (alike : Alike s f g) (inside : ∀ m, MachineKept s m → OutcomeKept s (g m))
    (rounds params : Nat) :
    Alike s (Machine.enterLoop rounds params f) (Machine.enterLoop rounds params g) := by
  have repeated : Alike s (Machine.repeatLoop params f rounds) (Machine.repeatLoop params g rounds) := by
    induction rounds with
    | zero => exact fun m _ => rfl
    | succ rounds ih =>
      intro m kept
      have ends := inside m kept
      unfold Machine.repeatLoop
      rw [alike m kept]
      split
      next inner run =>
        rw [run] at ends
        exact ih _ (ends.withStack (ends.stack.take params))
      next => rfl
      next => rfl
  intro m kept
  unfold Machine.enterLoop
  rw [repeated _ (kept.withStack (kept.stack.take params))]

theorem popCondition {f g : Bool → Machine → Outcome} (each : ∀ b, Alike s (f b) (g b)) :
    Alike s (fun m => m.popCondition f) (fun m => m.popCondition g) := by
  intro m kept
  unfold Machine.popCondition
  dsimp only
  split
  next c rest at_ =>
    have numbers := kept.stack
    rw [at_] at numbers
    exact each _ _ (kept.withStack (Numbers.cons_iff.1 numbers).2)
  next => rfl

/-- A slot is looked up in the same way, whatever is done with the function in it. -/
theorem withSlot {e e' : Env} (types : e'.types = e.types) (signatures : e'.signatures = e.signatures)
    {f g : Nat → Machine → Outcome} (each : ∀ i, Alike s (f i) (g i)) (t table : Nat) :
    Alike s (Machine.withSlot e' t table f) (Machine.withSlot e t table g) := by
  intro m kept
  unfold Machine.withSlot
  rw [types, signatures]
  cases at_ : m.stack with
  | nil => rfl
  | cons d rest =>
    have numbers := kept.stack
    rw [at_] at numbers
    have called (i : Nat) : f i { m with stack := rest } = g i { m with stack := rest } :=
      each i _ (kept.withStack (Numbers.cons_iff.1 numbers).2)
    simp only [called]

theorem call_of_same (same : SameCalls s call' call) (f : Nat) :
    Alike s (Machine.call (p.env rounds call') f) (Machine.call (p.env rounds call) f) := by
  intro m kept
  unfold Machine.call
  dsimp only [Program.env]
  split
  next t _ => rw [same f m.store _ kept.store (kept.stack.take t.params.length).reverse]
  next => rfl

end Alike

end

section
variable {p : Program} {s : Store} {rounds : Nat}
  {call call' : Nat → Store → List Datum → CallOutcome}

mutual

theorem Instr.direct_alike (same : SameCalls s call' call) (calls : CallsKept p.signatures call)
    (i : Instr) (plain : i.isPlain = true) :
    Alike s ((i.direct (p.target? s)).exec (p.env rounds call')) (i.exec (p.env rounds call)) := by
  have typed (t : BlockType) : (p.env rounds call').blockType? t = (p.env rounds call).blockType? t := by
    cases t <;> rfl
  cases i with
  | call f => exact .call_of_same same f
  | callIndirect t table => exact .withSlot rfl rfl (fun f => .call_of_same same f) t table
  | block t body =>
    intro m kept
    unfold Instr.direct Instr.exec
    rw [typed]
    split
    · exact (directSeq_alike same calls body plain).enter _ _ m kept
    · rfl
  | loop t body =>
    intro m kept
    unfold Instr.direct Instr.exec
    rw [typed]
    split
    · exact (directSeq_alike same calls body plain).enterLoop
        (fun m => exec_kept_seq (e := p.env rounds call) calls body plain) _ _ m kept
    · rfl
  | ifThen t body =>
    intro m kept
    unfold Instr.direct Instr.exec
    rw [typed]
    split
    · refine Alike.popCondition (fun b => ?_) m kept
      cases b with
      | false => exact fun m _ => rfl
      | true => exact (directSeq_alike same calls body plain).enter _ _
    · rfl
  | ifElse t first second =>
    obtain ⟨one, two⟩ := Bool.and_eq_true_iff.1 plain
    intro m kept
    unfold Instr.direct Instr.exec
    rw [typed]
    split
    · refine Alike.popCondition (fun b => ?_) m kept
      cases b with
      | false => exact (directSeq_alike same calls second two).enter _ _
      | true => exact (directSeq_alike same calls first one).enter _ _
    · rfl
  | drop | const | binary | unary | localGet | localSet | globalGet | globalSet | load | store
  | memorySize | memoryGrow | br | brIf | ret => exact fun m _ => rfl
  | _ => cases plain

theorem Instr.directSeq_alike (same : SameCalls s call' call) (calls : CallsKept p.signatures call)
    (is : List Instr) (plain : isPlainSeq is = true) :
    Alike s (execSeq (directSeq (p.target? s) is) (p.env rounds call'))
      (execSeq is (p.env rounds call)) := by
  cases is with
  | nil => exact fun m _ => rfl
  | cons i rest =>
    obtain ⟨one, others⟩ := Bool.and_eq_true_iff.1 plain
    intro m kept
    rw [directSeq, execSeq_fuse _ _ kept.store.tables, execSeq, execSeq,
      direct_alike same calls i one m kept]
    have first := exec_kept (e := p.env rounds call) calls i one kept
    split
    next m' run =>
      rw [run] at first
      exact directSeq_alike same calls rest others m' first
    next => rfl

end

end

section
variable {p : Program} (signatures : p.signatures = p.funcs.map FuncInstance.type)
  (plain : ∀ (i : Nat) (f : FuncInstance), p.funcs[i]? = some f → f.IsPlain)

include signatures plain

omit signatures in
/-- A function runs the same when its calls through constant slots of the table are made directly. -/
theorem Program.runOne_direct {s : Store} {rounds : Nat}
    {call call' : (room : Nat) → Nat → Store → List Datum → CallOutcome}
    (same : ∀ room, SameCalls s (call' room) (call room))
    (calls : ∀ room, CallsKept p.signatures (call room)) (room f : Nat) {t : Store}
    (store : StoreKept s t) {args : List Datum} (numbers : Numbers args) :
    (p.direct s).runOne rounds room call' f t args = p.runOne rounds room call f t args := by
  unfold runOne
  rw [show (p.direct s).funcs[f]? = p.funcs[f]?.map (FuncInstance.direct (p.target? s)) from
    Array.getElem?_map ..]
  cases here : p.funcs[f]? with
  | none => rfl
  | some function =>
    cases function with
    | host key host => rfl
    | code type locals body =>
      obtain ⟨plain, types, rfl⟩ := plain f _ here
      show (if room < p.frame f then _ else _) = if room < p.frame f then _ else _
      unfold runBody
      dsimp only
      rw [← Instr.directSeq_alike (same (room - p.frame f)) (calls (room - p.frame f)) body plain _
        (.entry store numbers types)]
      rfl

/-- A program runs the same when calls through constant slots of its table are made directly. -/
theorem Program.invoke_direct (s : Store) (rounds depth room : Nat) :
    SameCalls s ((p.direct s).invoke rounds depth room) (p.invoke rounds depth room) := by
  induction depth generalizing room with
  | zero => exact fun f t args _ _ => rfl
  | succ depth ih =>
    intro f t args store numbers
    have calls := p.invoke_kept signatures plain rounds depth
    obtain ⟨o, ends, -⟩ : ∃ o : CallOutcome, p.runOne rounds room (p.invoke rounds depth) f t args =
        o.body ∧ CallKept s p.signatures[f]? o :=
      p.runOne_kept signatures plain calls f store numbers
    have same : (p.direct s).runOne rounds room ((p.direct s).invoke rounds depth) f t args =
        p.runOne rounds room (p.invoke rounds depth) f t args :=
      p.runOne_direct plain ih calls room f store numbers
    cases rounds with
    | zero => rfl
    | succ rounds =>
      rw [invoke, invoke, runChain_of_body ends, runChain_of_body (same.trans ends)]

end

end WasmBuilder.Wasm
