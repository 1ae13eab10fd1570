import WasmBuilder.Proofs.Wasm.Control

/-!
Code that handles numbers only.

Besides numbers there are vectors and references, but no code that is lowered from expressions has
any. Whatever it does, the operands, the locals and the globals stay numbers, and tables stay as they
are.
-/

set_option autoImplicit false

namespace WasmBuilder.Wasm

/-- All of them are numbers. -/
def Numbers (ds : List Datum) : Prop := ∀ d ∈ ds, ∃ x : Value, d = .num x

namespace Numbers

variable {ds es : List Datum} {d : Datum}

theorem cons_iff : Numbers (d :: ds) ↔ (∃ x : Value, d = .num x) ∧ Numbers ds := by
  simp [Numbers]

theorem append (first : Numbers ds) (second : Numbers es) : Numbers (ds ++ es) := by
  intro d mem
  rcases List.mem_append.1 mem with mem | mem
  · exact first d mem
  · exact second d mem

theorem take (numbers : Numbers ds) (n : Nat) : Numbers (ds.take n) :=
  fun d mem => numbers d (List.mem_of_mem_take mem)

theorem drop (numbers : Numbers ds) (n : Nat) : Numbers (ds.drop n) :=
  fun d mem => numbers d (List.mem_of_mem_drop mem)

theorem reverse (numbers : Numbers ds) : Numbers ds.reverse :=
  fun d mem => numbers d (List.mem_reverse.1 mem)

theorem map (values : List Value) : Numbers (values.map .num) := by
  intro d mem
  obtain ⟨x, _, rfl⟩ := List.mem_map.1 mem
  exact ⟨x, rfl⟩

theorem exists_map (numbers : Numbers ds) : ∃ values : List Value, ds = values.map .num := by
  induction ds with
  | nil => exact ⟨[], rfl⟩
  | cons d ds ih =>
    obtain ⟨⟨x, rfl⟩, others⟩ := cons_iff.1 numbers
    obtain ⟨values, rfl⟩ := ih others
    exact ⟨x :: values, rfl⟩

theorem set {a : Array Datum} (numbers : Numbers a.toList) (i : Nat) (x : Value) :
    Numbers (a.setIfInBounds i (.num x)).toList := by
  intro d mem
  rw [Array.toList_setIfInBounds] at mem
  rcases List.mem_or_eq_of_mem_set mem with mem | rfl
  · exact numbers d mem
  · exact ⟨x, rfl⟩

theorem getElem? {a : Array Datum} (numbers : Numbers a.toList) {i : Nat} (here : a[i]? = some d) :
    ∃ x : Value, d = .num x :=
  numbers d (List.mem_of_getElem? (by rwa [Array.getElem?_toList]))

end Numbers

/-- A store that comes from another one: the globals are as many and numbers, and tables are the
same. -/
structure StoreKept (s t : Store) : Prop where
  globals : Numbers t.globals.toList
  size : t.globals.size = s.globals.size
  tables : t.tables = s.tables

/-- A machine that handles numbers, and whose store comes from another one. -/
structure MachineKept (s : Store) (m : Machine) : Prop where
  store : StoreKept s m.store
  locals : Numbers m.locals.toList
  stack : Numbers m.stack

def OutcomeKept (s : Store) : Outcome → Prop
  | .next m | .branch _ m | .ret m => MachineKept s m
  | .tail _ _ _ => False
  | .trap _ t => StoreKept s t
  | .exhausted => True

def CallKept (s : Store) (type : Option FuncType) : CallOutcome → Prop
  | .done results t =>
    Numbers results ∧ StoreKept s t ∧ ∀ f ∈ type, results.length = f.results.length
  | .trap _ t => StoreKept s t
  | .exhausted => True

/-- Calls leave numbers, if they get numbers. -/
def CallsKept (signatures : Array FuncType) (call : Nat → Store → List Datum → CallOutcome) : Prop :=
  ∀ (f : Nat) (s t : Store) (args : List Datum), StoreKept s t → Numbers args →
    CallKept s signatures[f]? (call f t args)

namespace Instr

mutual

def isPlain : Instr → Bool
  | .drop | .const _ | .binary _ | .unary _ | .localGet _ | .localSet _ | .globalGet _
  | .globalSet _ | .load _ _ | .store _ _ | .memorySize _ | .memoryGrow _ | .br _ | .brIf _ | .ret
  | .call _ | .callIndirect _ _ => true
  | .block _ body | .loop _ body | .ifThen _ body => isPlainSeq body
  | .ifElse _ first second => isPlainSeq first && isPlainSeq second
  | _ => false

def isPlainSeq : List Instr → Bool
  | [] => true
  | i :: rest => isPlain i && isPlainSeq rest

end

end Instr

section
variable {s : Store} {m : Machine} {e : Env} (kept : MachineKept s m)

include kept

theorem MachineKept.push (x : Value) : MachineKept s (m.push (.num x)) :=
  { kept with stack := Numbers.cons_iff.2 ⟨⟨x, rfl⟩, kept.stack⟩ }

theorem MachineKept.withStack {stack : List Datum} (numbers : Numbers stack) :
    MachineKept s { m with stack } :=
  { kept with stack := numbers }

namespace OutcomeKept

theorem stuck : OutcomeKept s m.stuck := kept.store

theorem drop : OutcomeKept s m.drop := by
  unfold Machine.drop
  split
  next d rest at_ =>
    have numbers := kept.stack
    rw [at_] at numbers
    exact kept.withStack (Numbers.cons_iff.1 numbers).2
  next => exact stuck kept

theorem binary (op : Value → Value → Except Trap Value) : OutcomeKept s (m.binary op) := by
  unfold Machine.binary
  split
  next b a rest at_ =>
    have numbers := kept.stack
    rw [at_] at numbers
    have others := (Numbers.cons_iff.1 (Numbers.cons_iff.1 numbers).2).2
    unfold Machine.pushResult
    cases op a b with
    | ok x => exact (kept.withStack others).push x
    | error cause => exact kept.store
  next => exact stuck kept

theorem unary (op : Value → Except Trap Value) : OutcomeKept s (m.unary op) := by
  unfold Machine.unary
  split
  next a rest at_ =>
    have numbers := kept.stack
    rw [at_] at numbers
    unfold Machine.pushResult
    cases op a with
    | ok x => exact (kept.withStack (Numbers.cons_iff.1 numbers).2).push x
    | error cause => exact kept.store
  next => exact stuck kept

theorem localGet (i : Nat) : OutcomeKept s (m.localGet i) := by
  unfold Machine.localGet
  split
  next d here =>
    obtain ⟨x, rfl⟩ := kept.locals.getElem? here
    exact kept.push x
  next => exact stuck kept

theorem localSet (i : Nat) : OutcomeKept s (m.localSet i) := by
  unfold Machine.localSet
  split
  next d rest at_ =>
    have numbers := kept.stack
    rw [at_] at numbers
    obtain ⟨⟨x, rfl⟩, others⟩ := Numbers.cons_iff.1 numbers
    split
    · exact ⟨kept.store, kept.locals.set i x, others⟩
    · exact stuck kept
  next => exact stuck kept

theorem globalGet (i : Nat) : OutcomeKept s (m.globalGet i) := by
  unfold Machine.globalGet
  split
  next d here =>
    obtain ⟨x, rfl⟩ := kept.store.globals.getElem? here
    exact kept.push x
  next => exact stuck kept

theorem globalSet (i : Nat) : OutcomeKept s (m.globalSet i) := by
  unfold Machine.globalSet
  split
  next d rest at_ =>
    have numbers := kept.stack
    rw [at_] at numbers
    obtain ⟨⟨x, rfl⟩, others⟩ := Numbers.cons_iff.1 numbers
    split
    · refine ⟨⟨kept.store.globals.set i x, ?_, kept.store.tables⟩, kept.locals, others⟩
      rw [Array.size_setIfInBounds]
      exact kept.store.size
    · exact stuck kept
  next => exact stuck kept

theorem load (t : NumType) (arg : MemArg) : OutcomeKept s (m.load e t arg) := by
  unfold Machine.load Machine.loadBytes
  split
  next d rest at_ =>
    have numbers := kept.stack
    rw [at_] at numbers
    split
    · split
      next bytes _ => exact (kept.withStack (Numbers.cons_iff.1 numbers).2).push (.ofBytes t bytes)
      next => exact kept.store
    · exact stuck kept
  next => exact stuck kept

theorem store (t : NumType) (arg : MemArg) : OutcomeKept s (m.storeNum e t arg) := by
  unfold Machine.storeNum Machine.storeBytes
  split
  next x d rest at_ =>
    have numbers := kept.stack
    rw [at_] at numbers
    have others := (Numbers.cons_iff.1 (Numbers.cons_iff.1 numbers).2).2
    split
    · unfold Machine.put
      split
      · exact ⟨⟨kept.store.globals, kept.store.size, kept.store.tables⟩, kept.locals, others⟩
      · exact kept.store
    · exact stuck kept
  next => exact stuck kept

theorem memorySize (index : Nat) : OutcomeKept s (m.memorySize e index) := by
  unfold Machine.memorySize
  split
  next i memory _ => exact kept.push (memory.type.address.value memory.pages)
  next => exact stuck kept

theorem memoryGrow (index : Nat) : OutcomeKept s (m.memoryGrow e index) := by
  unfold Machine.memoryGrow
  split
  next d rest at_ =>
    have numbers := kept.stack
    rw [at_] at numbers
    have others := (Numbers.cons_iff.1 numbers).2
    split
    next delta i memory _ _ =>
      split
      · exact ⟨⟨kept.store.globals, kept.store.size, kept.store.tables⟩, kept.locals,
          Numbers.cons_iff.2 ⟨⟨_, rfl⟩, others⟩⟩
      · exact (kept.withStack others).push (memory.type.address.value (-1))
    · exact stuck kept
  next => exact stuck kept

theorem call (calls : CallsKept e.signatures e.call) (f : Nat) : OutcomeKept s (m.call e f) := by
  unfold Machine.call
  split
  next type typed =>
    have result := calls f s m.store _ kept.store (kept.stack.take type.params.length).reverse
    dsimp only
    cases called : e.call f m.store (m.stack.take type.params.length).reverse with
    | done results t =>
      rw [called] at result
      obtain ⟨numbers, store, _⟩ := result
      exact ⟨store, kept.locals, numbers.reverse.append (kept.stack.drop type.params.length)⟩
    | trap cause t =>
      rw [called] at result
      exact result
    | exhausted => trivial
  next => exact stuck kept

theorem callIndirect (calls : CallsKept e.signatures e.call) (type table : Nat) :
    OutcomeKept s (m.withSlot e type table fun f m => m.call e f) := by
  unfold Machine.withSlot
  split
  next d rest at_ =>
    have numbers := kept.stack
    rw [at_] at numbers
    have others := kept.withStack (Numbers.cons_iff.1 numbers).2
    split
    · split
      · split
        · exact call others calls _
        · exact kept.store
      · exact kept.store
    · exact stuck kept
  next => exact stuck kept

theorem popCondition {f : Bool → Machine → Outcome}
    (then_ : ∀ b m, MachineKept s m → OutcomeKept s (f b m)) : OutcomeKept s (m.popCondition f) := by
  unfold Machine.popCondition
  split
  next c rest at_ =>
    have numbers := kept.stack
    rw [at_] at numbers
    exact then_ _ _ (kept.withStack (Numbers.cons_iff.1 numbers).2)
  next => exact stuck kept

variable {body : Machine → Outcome} (inside : ∀ m, MachineKept s m → OutcomeKept s (body m))

include inside

theorem enter (params arity : Nat) : OutcomeKept s (m.enter params arity body) := by
  have ends := inside _ (kept.withStack (kept.stack.take params))
  have below := kept.stack.drop params
  unfold Machine.enter
  cases run : body { m with stack := m.stack.take params } with
  | next m' =>
    rw [run] at ends
    exact ends.withStack (ends.stack.append below)
  | branch label m' =>
    rw [run] at ends
    cases label with
    | zero => exact ends.withStack ((ends.stack.take arity).append below)
    | succ label => exact ends
  | ret | tail | trap | exhausted =>
    rw [run] at ends
    exact ends

theorem repeatLoop (params rounds : Nat) : OutcomeKept s (m.repeatLoop params body rounds) := by
  induction rounds generalizing m with
  | zero => trivial
  | succ rounds ih =>
    have ends := inside m kept
    unfold Machine.repeatLoop
    cases run : body m with
    | branch label m' =>
      rw [run] at ends
      cases label with
      | zero => exact ih (ends.withStack (ends.stack.take params))
      | succ label => exact ends
    | next | ret | tail | trap | exhausted =>
      rw [run] at ends
      exact ends

theorem enterLoop (rounds params : Nat) : OutcomeKept s (m.enterLoop rounds params body) := by
  have ends := repeatLoop (kept.withStack (kept.stack.take params)) inside params rounds
  unfold Machine.enterLoop
  cases run : { m with stack := m.stack.take params }.repeatLoop params body rounds with
  | next m' =>
    rw [run] at ends
    exact ends.withStack (ends.stack.append (kept.stack.drop params))
  | branch | ret | tail | trap | exhausted =>
    rw [run] at ends
    exact ends

end OutcomeKept

end

section
variable {s : Store} {e : Env}

mutual

theorem Instr.exec_kept (calls : CallsKept e.signatures e.call) (i : Instr)
    (plain : i.isPlain = true) {m : Machine}
    (kept : MachineKept s m) : OutcomeKept s (i.exec e m) := by
  cases i with
  | drop => exact .drop kept
  | const v => exact kept.push v
  | binary op => exact .binary kept op.eval
  | unary op => exact .unary kept op.eval
  | localGet i => exact .localGet kept i
  | localSet i => exact .localSet kept i
  | globalGet i => exact .globalGet kept i
  | globalSet i => exact .globalSet kept i
  | load t arg => exact .load kept t arg
  | store t arg => exact .store kept t arg
  | memorySize memory => exact .memorySize kept memory
  | memoryGrow memory => exact .memoryGrow kept memory
  | br label | ret => exact kept
  | brIf label =>
    unfold Instr.exec
    refine .popCondition kept fun b m kept => ?_
    cases b <;> exact kept
  -- a call keeps what the environment says that calls keep
  | call f => exact .call kept calls f
  | callIndirect t table => exact .callIndirect kept calls t table
  | block t body =>
    unfold Instr.exec
    split
    · exact .enter kept (fun m kept => exec_kept_seq calls body plain kept) _ _
    · exact .stuck kept
  | loop t body =>
    unfold Instr.exec
    split
    · exact .enterLoop kept (fun m kept => exec_kept_seq calls body plain kept) _ _
    · exact .stuck kept
  | ifThen t body =>
    unfold Instr.exec
    split
    · refine .popCondition kept fun b m kept => ?_
      cases b
      · exact kept
      · exact .enter kept (fun m kept => exec_kept_seq calls body plain kept) _ _
    · exact .stuck kept
  | ifElse t first second =>
    obtain ⟨one, two⟩ := Bool.and_eq_true_iff.1 plain
    unfold Instr.exec
    split
    · refine .popCondition kept fun b m kept => ?_
      cases b
      · exact .enter kept (fun m kept => exec_kept_seq calls second two kept) _ _
      · exact .enter kept (fun m kept => exec_kept_seq calls first one kept) _ _
    · exact .stuck kept
  | _ => cases plain

theorem Instr.exec_kept_seq (calls : CallsKept e.signatures e.call) (is : List Instr)
    (plain : isPlainSeq is = true) {m : Machine} (kept : MachineKept s m) :
    OutcomeKept s (execSeq is e m) := by
  cases is with
  | nil => exact kept
  | cons i rest =>
    obtain ⟨one, others⟩ := Bool.and_eq_true_iff.1 plain
    have first := exec_kept calls i one kept
    unfold Instr.execSeq
    cases run : i.exec e m with
    | next m' =>
      rw [run] at first
      exact exec_kept_seq calls rest others first
    | branch | ret | tail | trap | exhausted =>
      rw [run] at first
      exact first

end

/-- The machine on which a call begins: locals that are no arguments are zero. -/
theorem MachineKept.entry {t : Store} (store : StoreKept s t) {args : List Datum}
    (numbers : Numbers args) (locals : List NumType) :
    MachineKept s ⟨t, (args ++ (locals.map ValType.num).map Datum.zero).toArray, []⟩ := by
  have zeros : Numbers ((locals.map ValType.num).map Datum.zero) := by
    intro d mem
    rw [List.map_map] at mem
    obtain ⟨t, _, rfl⟩ := List.mem_map.1 mem
    exact ⟨.zero t, rfl⟩
  exact ⟨store, numbers.append zeros, nofun⟩

theorem runBody_kept (calls : CallsKept e.signatures e.call) {body : List Instr}
    (plain : Instr.isPlainSeq body = true) (type : FuncType) (locals : List NumType) {t : Store}
    (store : StoreKept s t) {args : List Datum} (numbers : Numbers args) : ∃ o : CallOutcome,
      runBody e type (locals.map .num) body t args = o.body ∧ CallKept s (some type) o := by
  have ends := Instr.exec_kept_seq calls body plain (.entry store numbers locals)
  have finished {m : Machine} (kept : MachineKept s m) : ∃ o : CallOutcome,
      m.finish type.results.length = o.body ∧ CallKept s (some type) o := by
    unfold Machine.finish
    split
    next => exact ⟨.trap .illTyped m.store, rfl, kept.store⟩
    next enough =>
      refine ⟨.done _ m.store, rfl, (kept.stack.take _).reverse, kept.store, ?_⟩
      rintro _ ⟨⟩
      rw [List.length_reverse, List.length_take]
      omega
  unfold runBody
  dsimp only
  generalize Instr.execSeq body e _ = o at ends ⊢
  cases o with
  | next m | branch label m | ret m => exact finished ends
  | tail => exact ends.elim
  | trap cause t => exact ⟨.trap cause t, rfl, ends⟩
  | exhausted => exact ⟨.exhausted, rfl, trivial⟩

end

def FuncInstance.IsPlain : FuncInstance → Prop
  | .host _ _ => True
  | .code _ locals body =>
    Instr.isPlainSeq body = true ∧ ∃ types : List NumType, locals = types.map .num

/-- What a host function answers is what its signature says, in number. -/
theorem HostFunction.length_results {f : HostFunction} {journal : List HostCall} {args values : List Value}
    (answer : f.results? journal args = some values) :
    values.length = f.signature.funcType.results.length := by
  unfold HostFunction.results? at answer
  split at answer
  · dsimp only at answer
    split at answer
    next types =>
      cases answer
      have count := congrArg List.length types
      rw [List.length_map] at count
      rw [Signature.funcType, List.length_map, count]
    next => cases answer
  · cases answer

theorem callHost_kept (key : ImportKey) (f : HostFunction) {s t : Store} (store : StoreKept s t)
    (args : List Value) : CallKept s (some f.signature.funcType) (callHost key f t args) := by
  unfold callHost
  have called : StoreKept s { t with journal := ⟨key, f.recording, args⟩ :: t.journal } :=
    ⟨store.globals, store.size, store.tables⟩
  dsimp only
  cases answer : f.results? t.journal args with
  | none => exact called
  | some values =>
    refine ⟨.map values, called, ?_⟩
    rintro _ ⟨⟩
    rw [List.length_map]
    exact HostFunction.length_results answer

section
variable {p : Program} (signatures : p.signatures = p.funcs.map FuncInstance.type)
  (plain : ∀ (i : Nat) (f : FuncInstance), p.funcs[i]? = some f → f.IsPlain)

include signatures plain

/-- What one function leaves. It names no other function to go on with. -/
theorem Program.runOne_kept {rounds room : Nat}
    {call : (room : Nat) → Nat → Store → List Datum → CallOutcome}
    (calls : ∀ room, CallsKept p.signatures (call room)) (f : Nat) {s t : Store}
    (store : StoreKept s t) {args : List Datum} (numbers : Numbers args) :
    ∃ o : CallOutcome, p.runOne rounds room call f t args = o.body ∧
      CallKept s p.signatures[f]? o := by
  unfold Program.runOne
  rw [signatures, Array.getElem?_map]
  cases here : p.funcs[f]? with
  | none => exact ⟨.trap .illTyped t, rfl, store⟩
  | some function =>
    cases function with
    | host key host =>
      refine ⟨_, ?_, callHost_kept key host store (args.filterMap Datum.value?)⟩
      dsimp only
      cases callHost key host t (args.filterMap Datum.value?) <;> rfl
    | code type locals body =>
      obtain ⟨plain, types, rfl⟩ := plain f _ here
      dsimp only
      split
      · exact ⟨.trap .callDepth t, rfl, store⟩
      · exact runBody_kept (calls _) plain type types store numbers

/-- Whatever functions of plain code do, numbers stay numbers. -/
theorem Program.invoke_kept (rounds depth room : Nat) :
    CallsKept p.signatures (p.invoke rounds depth room) := by
  induction depth generalizing room with
  | zero => exact fun f s t args store _ => store
  | succ depth ih =>
    intro f s t args store numbers
    cases rounds with
    | zero => trivial
    | succ rounds =>
      obtain ⟨o, ends, kept⟩ := p.runOne_kept signatures plain ih f store numbers
      rw [Program.invoke, Program.runChain_of_body ends]
      exact kept

end

end WasmBuilder.Wasm
