import WasmBuilder.Proofs.Wasm.Linking
import WasmBuilder.Proofs.Wasm.Numeric
import WasmBuilder.Proofs.Wasm.OpStack

/-!
The height of the operand stack.

Code that passes the check finds as many operands as it takes. So it never calls a function with fewer
arguments than the function has parameters, whatever the operands are.
-/

set_option autoImplicit false

namespace WasmBuilder.Wasm

structure OpStack.Counts (s : OpStack) (n : Nat) : Prop where
  known : s.isPolymorphic = false
  length : s.known.length = n

namespace OpStack.Counts

variable {s t : OpStack} {n : Nat}

theorem popAny (counts : s.Counts n) {a : Option ValType} (popped : s.popAny = some (a, t)) :
    ∃ k, n = k + 1 ∧ t.Counts k := by
  obtain ⟨isKnown, length⟩ := counts
  unfold OpStack.popAny at popped
  split at popped
  next top rest here =>
    cases popped
    rw [here] at length
    exact ⟨rest.length, length.symm, isKnown, rfl⟩
  next =>
    rw [isKnown] at popped
    cases popped

theorem pop (counts : s.Counts n) {type : ValType} (popped : s.pop type = some t) :
    ∃ k, n = k + 1 ∧ t.Counts k := by
  unfold OpStack.pop at popped
  split at popped
  next u rest top =>
    split at popped
    · cases popped
      exact counts.popAny top
    · cases popped
  next rest top =>
    cases popped
    exact counts.popAny top
  next => cases popped

theorem popReversed (counts : s.Counts n) {types : List ValType}
    (popped : s.popReversed types = some t) : ∃ k, n = k + types.length ∧ t.Counts k := by
  induction types generalizing s n with
  | nil =>
    cases popped
    exact ⟨n, rfl, counts⟩
  | cons type rest ih =>
    obtain ⟨u, top, others⟩ := Option.bind_eq_some_iff.1 popped
    obtain ⟨l, rfl, less⟩ := counts.pop top
    obtain ⟨k, is, least⟩ := ih less others
    exact ⟨k, by rw [is, List.length_cons, Nat.add_assoc], least⟩

theorem popAll (counts : s.Counts n) {types : List ValType} (popped : s.popAll types = some t) :
    ∃ k, n = k + types.length ∧ t.Counts k := by
  obtain ⟨k, is, counts⟩ := counts.popReversed popped
  exact ⟨k, by rw [is, List.length_reverse], counts⟩

theorem pushAll (counts : s.Counts n) (types : List ValType) :
    (s.pushAll types).Counts (n + types.length) := by
  refine ⟨counts.known, ?_⟩
  rw [OpStack.pushAll, List.length_append, List.length_reverse, List.length_map, counts.length]
  omega

theorem push (counts : s.Counts n) (type : ValType) : (s.push type).Counts (n + 1) :=
  counts.pushAll [type]

theorem params (types : List ValType) :
    OpStack.Counts ⟨(types.map some).reverse, false⟩ types.length :=
  ⟨rfl, by rw [List.length_reverse, List.length_map]⟩

theorem leaves (counts : s.Counts n) {types : List ValType} (left : s.leaves types = true) :
    n = types.length := by
  unfold OpStack.leaves at left
  split at left
  next t popped =>
    obtain ⟨k, is, rest⟩ := counts.popAll popped
    have none : k = 0 := by rw [← rest.length, List.isEmpty_iff.1 left, List.length_nil]
    rw [is, none, Nat.zero_add]
  next => cases left

end OpStack.Counts

def strictly (signatures : Array FuncType) (call : Nat → Store → List Datum → CallOutcome) :
    Nat → Store → List Datum → CallOutcome := fun f s args =>
  if (signatures[f]?).any (·.params.length = args.length) then call f s args
  else .trap .illTyped s

def Env.strict (e : Env) : Env := { e with call := strictly e.signatures e.call }

def Yielding (signatures : Array FuncType) (call : Nat → Store → List Datum → CallOutcome) : Prop :=
  ∀ (f : Nat) (type : FuncType), signatures[f]? = some type → ∀ (s : Store) (args : List Datum),
    ∀ results t, call f s args = .done results t → results.length = type.results.length

/-- The operands that are left are as many as the check says, and so are those that a branch passes
on. -/
def Outcome.Fits (labels : List (List ValType)) (s : OpStack) : Outcome → Prop
  | .next m => s.Counts m.stack.length
  | .branch l m => ∃ types, labels[l]? = some types ∧ types.length ≤ m.stack.length
  | .tail .. => False
  | .ret _ | .trap .. | .exhausted => True

def Level (labels : List (List ValType)) (s t : OpStack) (f g : Machine → Outcome) : Prop :=
  ∀ m : Machine, s.Counts m.stack.length → g m = f m ∧ (f m).Fits labels t

namespace Level

variable {labels : List (List ValType)} {s t u : OpStack} {f g h k : Machine → Outcome}

theorem stuck {m : Machine} : m.stuck.Fits labels s := trivial

theorem seq (first : Level labels s t f g) (second : Level labels t u h k) :
    Level labels s u (fun m => match f m with | .next m => h m | o => o)
      (fun m => match g m with | .next m => k m | o => o) := by
  intro m counts
  obtain ⟨same, fits⟩ := first m counts
  dsimp only
  rw [same]
  generalize f m = o at fits ⊢
  cases o with
  | next m => exact second m fits
  | branch | ret | tail | trap | exhausted => exact ⟨rfl, fits⟩

section
variable {type : FuncType} {popped inner : OpStack} {n : Nat}

theorem length_take (stack : List Datum) (counts : s.Counts n) (pops : s.popAll type.params = some popped)
    (height : stack.length = n) :
    (stack.take type.params.length).length = type.params.length ∧
      popped.Counts (stack.drop type.params.length).length := by
  obtain ⟨k, is, rest⟩ := counts.popAll pops
  rw [List.length_take, List.length_drop, height, is]
  exact ⟨by omega, by rw [Nat.add_sub_cancel]; exact rest⟩

theorem enter (pops : s.popAll type.params = some popped)
    (inside : Level (type.results :: labels) ⟨(type.params.map some).reverse, false⟩ inner f g)
    (left : inner.leaves type.results = true) :
    Level labels s (popped.pushAll type.results)
      (Machine.enter type.params.length type.results.length f)
      (Machine.enter type.params.length type.results.length g) := by
  intro m counts
  obtain ⟨taken, below⟩ := length_take m.stack counts pops rfl
  have start : OpStack.Counts ⟨(type.params.map some).reverse, false⟩
      (m.stack.take type.params.length).length := by
    rw [taken]
    exact .params type.params
  obtain ⟨same, fits⟩ := inside { m with stack := m.stack.take type.params.length } start
  unfold Machine.enter
  dsimp only
  rw [same]
  generalize f { m with stack := m.stack.take type.params.length } = o at fits ⊢
  refine ⟨rfl, ?_⟩
  -- a branch to the block is where it ends, and one past it loses a label
  cases o with
  | next r =>
    have own : r.stack.length = type.results.length := OpStack.Counts.leaves fits left
    change OpStack.Counts _ (r.stack ++ m.stack.drop type.params.length).length
    rw [List.length_append, own, Nat.add_comm]
    exact below.pushAll _
  | branch l r =>
    obtain ⟨types, label, enough⟩ := fits
    cases l with
    | zero =>
      cases label
      change OpStack.Counts _ (r.stack.take _ ++ m.stack.drop type.params.length).length
      rw [List.length_append, List.length_take, Nat.min_eq_left enough, Nat.add_comm]
      exact below.pushAll _
    | succ l => exact ⟨types, label, enough⟩
  | ret | tail | trap | exhausted => exact fits

theorem repeatLoop
    (inside : Level (type.params :: labels) ⟨(type.params.map some).reverse, false⟩ inner f g)
    (rounds : Nat) :
    Level labels ⟨(type.params.map some).reverse, false⟩ inner
      (Machine.repeatLoop type.params.length f rounds)
      (Machine.repeatLoop type.params.length g rounds) := by
  induction rounds with
  | zero => exact fun m _ => ⟨rfl, trivial⟩
  | succ rounds ih =>
    intro m counts
    obtain ⟨same, fits⟩ := inside m counts
    unfold Machine.repeatLoop
    rw [same]
    generalize f m = o at fits ⊢
    cases o with
    | branch l r =>
      obtain ⟨types, label, enough⟩ := fits
      cases l with
      | zero =>
        cases label
        refine ih { r with stack := r.stack.take type.params.length } ?_
        dsimp only
        rw [List.length_take, Nat.min_eq_left enough]
        exact .params type.params
      | succ l => exact ⟨rfl, types, label, enough⟩
    | next | ret | tail | trap | exhausted => exact ⟨rfl, fits⟩

theorem enterLoop (pops : s.popAll type.params = some popped)
    (inside : Level (type.params :: labels) ⟨(type.params.map some).reverse, false⟩ inner f g)
    (left : inner.leaves type.results = true) (rounds : Nat) :
    Level labels s (popped.pushAll type.results)
      (Machine.enterLoop rounds type.params.length f)
      (Machine.enterLoop rounds type.params.length g) := by
  intro m counts
  obtain ⟨taken, below⟩ := length_take m.stack counts pops rfl
  have start : OpStack.Counts ⟨(type.params.map some).reverse, false⟩
      (m.stack.take type.params.length).length := by
    rw [taken]
    exact .params type.params
  obtain ⟨same, fits⟩ := (repeatLoop inside rounds) { m with stack := m.stack.take type.params.length } start
  unfold Machine.enterLoop
  dsimp only
  rw [same]
  generalize Machine.repeatLoop type.params.length f rounds _ = o at fits ⊢
  refine ⟨rfl, ?_⟩
  cases o with
  | next r =>
    have own : r.stack.length = type.results.length := OpStack.Counts.leaves fits left
    change OpStack.Counts _ (r.stack ++ m.stack.drop type.params.length).length
    rw [List.length_append, own, Nat.add_comm]
    exact below.pushAll _
  | branch | ret | tail | trap | exhausted => exact fits

end

theorem popCondition {type : ValType} (pops : s.pop type = some t) {f g : Bool → Machine → Outcome}
    (each : ∀ b, Level labels t u (f b) (g b)) :
    Level labels s u (fun m => m.popCondition f) (fun m => m.popCondition g) := by
  intro m counts
  unfold Machine.popCondition
  dsimp only
  split
  next c rest here =>
    obtain ⟨k, is, counts⟩ := counts.pop pops
    rw [here, List.length_cons] at is
    cases Nat.succ.inj is
    exact each _ { m with stack := rest } counts
  next => exact ⟨rfl, trivial⟩

end Level

def Outcome.Replaces (params results : Nat) (m : Machine) : Outcome → Prop
  | .next r => r.stack.length + params = m.stack.length + results
  | .trap .. | .exhausted => True
  | .branch .. | .ret _ | .tail .. => False

namespace Outcome.Replaces

variable {m : Machine} {e : Env}

theorem pushResult {stack : List Datum} {params : Nat} (r : Except Trap Value)
    (taken : stack.length + params = m.stack.length) :
    (Machine.pushResult { m with stack } r).Replaces params 1 m := by
  cases r with
  | ok v =>
    change stack.length + 1 + params = m.stack.length + 1
    omega
  | error cause => trivial

theorem binary (op : Value → Value → Except Trap Value) : (m.binary op).Replaces 2 1 m := by
  unfold Machine.binary
  split
  next b a rest here => exact pushResult _ (by rw [here]; rfl)
  next => trivial

theorem unary (op : Value → Except Trap Value) : (m.unary op).Replaces 1 1 m := by
  unfold Machine.unary
  split
  next a rest here => exact pushResult _ (by rw [here]; rfl)
  next => trivial

theorem localGet (i : Nat) : (m.localGet i).Replaces 0 1 m := by
  unfold Machine.localGet
  split
  · exact rfl
  · trivial

theorem localSet (i : Nat) : (m.localSet i).Replaces 1 0 m := by
  unfold Machine.localSet
  split
  next v rest here =>
    split
    · exact (congrArg List.length here).symm
    · trivial
  next => trivial

theorem globalGet (i : Nat) : (m.globalGet i).Replaces 0 1 m := by
  unfold Machine.globalGet
  split
  · exact rfl
  · trivial

theorem globalSet (i : Nat) : (m.globalSet i).Replaces 1 0 m := by
  unfold Machine.globalSet
  split
  next v rest here =>
    split
    · exact (congrArg List.length here).symm
    · trivial
  next => trivial

theorem load (t : NumType) (arg : MemArg) : (m.load e t arg).Replaces 1 1 m := by
  unfold Machine.load Machine.loadBytes
  split
  next d rest here =>
    split
    · split
      · exact (congrArg (List.length · + 1) here).symm
      · trivial
    · trivial
  next => trivial

theorem store (t : NumType) (arg : MemArg) : (m.storeNum e t arg).Replaces 2 0 m := by
  unfold Machine.storeNum Machine.storeBytes
  split
  next v d rest here =>
    split
    · unfold Machine.put
      split
      · exact (congrArg List.length here).symm
      · trivial
    · trivial
  next => trivial

theorem memorySize (index : Nat) : (m.memorySize e index).Replaces 0 1 m := by
  unfold Machine.memorySize
  split
  · exact rfl
  · trivial

theorem memoryGrow (index : Nat) : (m.memoryGrow e index).Replaces 1 1 m := by
  unfold Machine.memoryGrow
  split
  next d rest here =>
    split
    · split <;> exact (congrArg (List.length · + 1) here).symm
    · trivial
  next => trivial

/-- On a stack that the check knows, the step leaves what the check says. -/
theorem fits {params results : Nat} {o : Outcome} (replaces : o.Replaces params results m)
    {labels : List (List ValType)} {s popped : OpStack} (counts : s.Counts m.stack.length)
    {type : FuncType} (pops : s.popAll type.params = some popped) (takes : type.params.length = params)
    (gives : type.results.length = results) : o.Fits labels (popped.pushAll type.results) := by
  obtain ⟨k, is, counts⟩ := counts.popAll pops
  cases o with
  | next r =>
    have height : r.stack.length = k + type.results.length := by
      have : r.stack.length + params = m.stack.length + results := replaces
      omega
    change OpStack.Counts _ r.stack.length
    rw [height]
    exact counts.pushAll _
  | trap | exhausted => trivial
  | branch | ret | tail => exact replaces.elim

end Outcome.Replaces

structure Context.Describes (c : Context) (e : Env) : Prop where
  types : c.types = e.types
  funcs : c.funcs = e.signatures
  yielding : Yielding e.signatures e.call

namespace Context.Describes

variable {c : Context} {e : Env} (describes : c.Describes e)

include describes

theorem withLabel (types : List ValType) : (c.withLabel types).Describes e :=
  { describes with }

theorem blockType (t : BlockType) : e.blockType? t = c.blockType? t := by
  cases t with
  | empty | value => rfl
  | index i => exact congrArg (·[i]?) describes.types.symm

theorem call {labels : List (List ValType)} {s popped : OpStack} {f : Nat} {type : FuncType}
    (typed : c.funcs[f]? = some type) (pops : s.popAll type.params = some popped) :
    Level labels s (popped.pushAll type.results) (Machine.call e f) (Machine.call e.strict f) := by
  intro m counts
  obtain ⟨taken, below⟩ := Level.length_take m.stack counts pops rfl
  rw [describes.funcs] at typed
  have strict : e.strict.call f m.store (m.stack.take type.params.length).reverse =
      e.call f m.store (m.stack.take type.params.length).reverse := by
    refine if_pos ?_
    rw [typed, Option.any_some, List.length_reverse, taken]
    exact decide_eq_true rfl
  have same : m.call e.strict f = m.call e f := by
    unfold Machine.call
    rw [show e.strict.signatures = e.signatures from rfl, typed]
    dsimp only
    rw [strict]
  refine ⟨same, ?_⟩
  unfold Machine.call
  rw [typed]
  dsimp only
  cases called : e.call f m.store (m.stack.take type.params.length).reverse with
  | done results t =>
    have count := describes.yielding f type typed _ _ results t called
    change OpStack.Counts _ (results.reverse ++ m.stack.drop type.params.length).length
    rw [List.length_append, List.length_reverse, count, Nat.add_comm]
    exact below.pushAll _
  | trap | exhausted => trivial

theorem callIndirect {labels : List (List ValType)} {s popped : OpStack} {t : Nat} (table : Nat)
    (type : FuncType) {slot : ValType} (typed : c.types[t]? = some type)
    (pops : s.popAll (type.params ++ [slot]) = some popped) :
    Level labels s (popped.pushAll type.results)
      (fun m => m.withSlot e t table fun f m => m.call e f)
      (fun m => m.withSlot e.strict t table fun f m => m.call e.strict f) := by
  intro m counts
  unfold OpStack.popAll at pops
  rw [List.reverse_append] at pops
  obtain ⟨rest, top, others⟩ := Option.bind_eq_some_iff.1 pops
  obtain ⟨k, is, counts⟩ := counts.pop top
  unfold Machine.withSlot
  dsimp only
  rw [show e.strict.signatures = e.signatures from rfl, show e.strict.types = e.types from rfl]
  split
  next d stack here =>
    rw [here, List.length_cons] at is
    cases Nat.succ.inj is
    split
    next slot' type' slots _ named _ =>
      rw [← describes.types, typed] at named
      cases named
      split
      next g _ =>
        split
        next same =>
          rw [← describes.funcs] at same
          exact describes.call same others { m with stack } counts
        next => exact ⟨rfl, trivial⟩
      next => exact ⟨rfl, trivial⟩
    next => exact ⟨rfl, trivial⟩
  next => exact ⟨rfl, trivial⟩

end Context.Describes

namespace Instr

variable {e : Env}

theorem level_of_replaces {i : Instr} {c : Context} {s t : OpStack} {params results : Nat}
    (checked : (do
      let type ← i.type? c
      let s ← s.popAll type.params
      return s.pushAll type.results) = some t)
    (type : ∀ type, i.type? c = some type →
      type.params.length = params ∧ type.results.length = results)
    (same : ∀ m, i.exec e.strict m = i.exec e m)
    (replaces : ∀ m, (i.exec e m).Replaces params results m) :
    Level c.labels s t (i.exec e) (i.exec e.strict) := by
  intro m counts
  obtain ⟨own, typed, rest⟩ := Option.bind_eq_some_iff.1 checked
  obtain ⟨popped, pops, left⟩ := Option.bind_eq_some_iff.1 rest
  cases left
  obtain ⟨takes, gives⟩ := type own typed
  exact ⟨same m, (replaces m).fits counts pops takes gives⟩

theorem require_eq_some {b : Bool} {u : Unit} (holds : require b = some u) : b = true := by
  cases b with
  | true => rfl
  | false => cases holds

section
variable {c : Context} {s t : OpStack}

theorem exists_of_check_block {type : BlockType} {body : List Instr}
    (checked : (Instr.block type body).check c s = some t) :
    ∃ f popped inner, c.blockType? type = some f ∧ s.popAll f.params = some popped ∧
      checkSeq body (c.withLabel f.results) ⟨(f.params.map some).reverse, false⟩ = some inner ∧
      inner.leaves f.results = true ∧ t = popped.pushAll f.results := by
  unfold check at checked
  obtain ⟨f, typed, checked⟩ := Option.bind_eq_some_iff.1 checked
  obtain ⟨popped, pops, checked⟩ := Option.bind_eq_some_iff.1 checked
  obtain ⟨inner, inside, checked⟩ := Option.bind_eq_some_iff.1 checked
  obtain ⟨_, left, checked⟩ := Option.bind_eq_some_iff.1 checked
  exact ⟨f, popped, inner, typed, pops, inside, require_eq_some left, (Option.some.inj checked).symm⟩

theorem exists_of_check_loop {type : BlockType} {body : List Instr}
    (checked : (Instr.loop type body).check c s = some t) :
    ∃ f popped inner, c.blockType? type = some f ∧ s.popAll f.params = some popped ∧
      checkSeq body (c.withLabel f.params) ⟨(f.params.map some).reverse, false⟩ = some inner ∧
      inner.leaves f.results = true ∧ t = popped.pushAll f.results := by
  unfold check at checked
  obtain ⟨f, typed, checked⟩ := Option.bind_eq_some_iff.1 checked
  obtain ⟨popped, pops, checked⟩ := Option.bind_eq_some_iff.1 checked
  obtain ⟨inner, inside, checked⟩ := Option.bind_eq_some_iff.1 checked
  obtain ⟨_, left, checked⟩ := Option.bind_eq_some_iff.1 checked
  exact ⟨f, popped, inner, typed, pops, inside, require_eq_some left, (Option.some.inj checked).symm⟩

theorem exists_of_check_ifThen {type : BlockType} {body : List Instr}
    (checked : (Instr.ifThen type body).check c s = some t) :
    ∃ f decided popped inner, c.blockType? type = some f ∧ s.pop .i32 = some decided ∧
      decided.popAll f.params = some popped ∧
      checkSeq body (c.withLabel f.results) ⟨(f.params.map some).reverse, false⟩ = some inner ∧
      inner.leaves f.results = true ∧ f.params = f.results ∧ t = popped.pushAll f.results := by
  unfold check at checked
  obtain ⟨f, typed, checked⟩ := Option.bind_eq_some_iff.1 checked
  obtain ⟨decided, top, checked⟩ := Option.bind_eq_some_iff.1 checked
  obtain ⟨popped, pops, checked⟩ := Option.bind_eq_some_iff.1 checked
  obtain ⟨inner, inside, checked⟩ := Option.bind_eq_some_iff.1 checked
  obtain ⟨_, left, checked⟩ := Option.bind_eq_some_iff.1 checked
  obtain ⟨left, same⟩ := Bool.and_eq_true_iff.1 (require_eq_some left)
  exact ⟨f, decided, popped, inner, typed, top, pops, inside, left, beq_iff_eq.1 same,
    (Option.some.inj checked).symm⟩

theorem exists_of_check_ifElse {type : BlockType} {first second : List Instr}
    (checked : (Instr.ifElse type first second).check c s = some t) :
    ∃ f decided popped one two, c.blockType? type = some f ∧ s.pop .i32 = some decided ∧
      decided.popAll f.params = some popped ∧
      checkSeq first (c.withLabel f.results) ⟨(f.params.map some).reverse, false⟩ = some one ∧
      one.leaves f.results = true ∧
      checkSeq second (c.withLabel f.results) ⟨(f.params.map some).reverse, false⟩ = some two ∧
      two.leaves f.results = true ∧ t = popped.pushAll f.results := by
  unfold check at checked
  obtain ⟨f, typed, checked⟩ := Option.bind_eq_some_iff.1 checked
  obtain ⟨decided, top, checked⟩ := Option.bind_eq_some_iff.1 checked
  obtain ⟨popped, pops, checked⟩ := Option.bind_eq_some_iff.1 checked
  obtain ⟨one, yes, checked⟩ := Option.bind_eq_some_iff.1 checked
  obtain ⟨_, left, checked⟩ := Option.bind_eq_some_iff.1 checked
  obtain ⟨two, no, checked⟩ := Option.bind_eq_some_iff.1 checked
  obtain ⟨_, left', checked⟩ := Option.bind_eq_some_iff.1 checked
  exact ⟨f, decided, popped, one, two, typed, top, pops, yes, require_eq_some left, no,
    require_eq_some left', (Option.some.inj checked).symm⟩

end

theorem length_of_bind {α : Type} {o : Option α} {f : α → FuncType} {type : FuncType}
    (typed : (do return f (← o)) = some type) : ∃ x, o = some x ∧ f x = type := by
  obtain ⟨x, here, is⟩ := Option.bind_eq_some_iff.1 typed
  exact ⟨x, here, Option.some.inj is⟩

mutual

/-- A checked instruction finds its operands, and calls no function with too few of them. -/
theorem level (i : Instr) (plain : i.isPlain = true) {c : Context} (describes : c.Describes e)
    {s t : OpStack} (checked : i.check c s = some t) :
    Level c.labels s t (i.exec e) (i.exec e.strict) := by
  cases i with
  | drop =>
    intro m counts
    obtain ⟨⟨a, popped⟩, pops, is⟩ := Option.map_eq_some_iff.1 checked
    obtain ⟨k, height, rest⟩ := counts.popAny pops
    subst is
    refine ⟨rfl, ?_⟩
    unfold exec Machine.drop
    split
    next d below here =>
      rw [here, List.length_cons] at height
      cases Nat.succ.inj height
      exact rest
    next => trivial
  -- what takes and leaves fixed numbers of operands is settled by the counts alone
  | const v =>
    have pushes (m : Machine) : ((Instr.const v).exec e m).Replaces 0 1 m := rfl
    exact level_of_replaces checked (by rintro _ ⟨⟩; exact ⟨rfl, rfl⟩) (fun _ => rfl) pushes
  | binary op =>
    exact level_of_replaces checked (by rintro _ ⟨⟩; exact ⟨rfl, rfl⟩) (fun _ => rfl) fun m =>
      .binary op.eval
  | unary op =>
    exact level_of_replaces checked (by rintro _ ⟨⟩; exact ⟨rfl, rfl⟩) (fun _ => rfl) fun m =>
      .unary op.eval
  | localGet k =>
    refine level_of_replaces checked (fun type typed => ?_) (fun _ => rfl) fun m => .localGet k
    obtain ⟨x, _, rfl⟩ := length_of_bind typed
    exact ⟨rfl, rfl⟩
  | localSet k =>
    refine level_of_replaces checked (fun type typed => ?_) (fun _ => rfl) fun m => .localSet k
    obtain ⟨x, _, rfl⟩ := length_of_bind typed
    exact ⟨rfl, rfl⟩
  | globalGet k =>
    refine level_of_replaces checked (fun type typed => ?_) (fun _ => rfl) fun m => .globalGet k
    obtain ⟨x, _, rfl⟩ := length_of_bind typed
    exact ⟨rfl, rfl⟩
  | globalSet k =>
    refine level_of_replaces checked (fun type typed => ?_) (fun _ => rfl) fun m => .globalSet k
    obtain ⟨g, _, typed⟩ := Option.bind_eq_some_iff.1 typed
    obtain ⟨_, _, typed⟩ := Option.bind_eq_some_iff.1 typed
    cases typed
    exact ⟨rfl, rfl⟩
  | load k arg =>
    refine level_of_replaces checked (fun type typed => ?_) (fun _ => rfl) fun m => .load k arg
    obtain ⟨_, _, typed⟩ := Option.bind_eq_some_iff.1 typed
    obtain ⟨x, _, rfl⟩ := length_of_bind typed
    exact ⟨rfl, rfl⟩
  | store k arg =>
    refine level_of_replaces checked (fun type typed => ?_) (fun _ => rfl) fun m => .store k arg
    obtain ⟨_, _, typed⟩ := Option.bind_eq_some_iff.1 typed
    obtain ⟨x, _, rfl⟩ := length_of_bind typed
    exact ⟨rfl, rfl⟩
  | memorySize k =>
    refine level_of_replaces checked (fun type typed => ?_) (fun _ => rfl) fun m => .memorySize k
    obtain ⟨x, _, rfl⟩ := length_of_bind typed
    exact ⟨rfl, rfl⟩
  | memoryGrow k =>
    refine level_of_replaces checked (fun type typed => ?_) (fun _ => rfl) fun m => .memoryGrow k
    obtain ⟨x, _, rfl⟩ := length_of_bind typed
    exact ⟨rfl, rfl⟩
  -- nothing is known behind a branch, and what it needs is on the stack
  | br label =>
    intro m counts
    obtain ⟨types, named, rest⟩ := Option.bind_eq_some_iff.1 checked
    obtain ⟨popped, pops, _⟩ := Option.bind_eq_some_iff.1 rest
    obtain ⟨k, height, _⟩ := counts.popAll pops
    exact ⟨rfl, types, named, by omega⟩
  | brIf label =>
    unfold check at checked
    obtain ⟨types, named, checked⟩ := Option.bind_eq_some_iff.1 checked
    obtain ⟨decided, top, checked⟩ := Option.bind_eq_some_iff.1 checked
    obtain ⟨popped, pops, checked⟩ := Option.bind_eq_some_iff.1 checked
    cases checked
    intro m counts
    unfold exec
    refine Level.popCondition top (fun b m counts => ⟨rfl, ?_⟩) m counts
    obtain ⟨k, height, rest⟩ := counts.popAll pops
    cases b with
    | true => exact ⟨types, named, by omega⟩
    | false =>
      change OpStack.Counts _ m.stack.length
      rw [height]
      exact rest.pushAll types
  | ret => exact fun m _ => ⟨rfl, trivial⟩
  | call f =>
    obtain ⟨type, typed, checked⟩ := Option.bind_eq_some_iff.1 checked
    obtain ⟨popped, pops, checked⟩ := Option.bind_eq_some_iff.1 checked
    cases checked
    exact describes.call typed pops
  | callIndirect k table =>
    obtain ⟨own, typed, checked⟩ := Option.bind_eq_some_iff.1 checked
    obtain ⟨popped, pops, checked⟩ := Option.bind_eq_some_iff.1 checked
    cases checked
    obtain ⟨⟨type, slot⟩, indirect, own⟩ := Option.bind_eq_some_iff.1 typed
    cases own
    obtain ⟨tableType, _, indirect⟩ := Option.bind_eq_some_iff.1 indirect
    obtain ⟨_, _, indirect⟩ := Option.bind_eq_some_iff.1 indirect
    obtain ⟨type, named, indirect⟩ := Option.bind_eq_some_iff.1 indirect
    cases indirect
    exact describes.callIndirect table type named pops
  -- a body is checked by itself, with nothing below its parameters
  | block type body =>
    obtain ⟨f, popped, inner, typed, pops, inside, left, rfl⟩ := exists_of_check_block checked
    have known : e.blockType? type = some f := (describes.blockType type).trans typed
    intro m counts
    unfold exec
    rw [show e.strict.blockType? type = e.blockType? type from rfl, known]
    exact Level.enter pops (levelSeq body plain (describes.withLabel _) inside) left m counts
  | loop type body =>
    obtain ⟨f, popped, inner, typed, pops, inside, left, rfl⟩ := exists_of_check_loop checked
    have known : e.blockType? type = some f := (describes.blockType type).trans typed
    intro m counts
    unfold exec
    rw [show e.strict.blockType? type = e.blockType? type from rfl, known]
    exact Level.enterLoop pops (levelSeq body plain (describes.withLabel _) inside) left e.rounds m
      counts
  | ifThen type body =>
    obtain ⟨f, decided, popped, inner, typed, top, pops, inside, left, same, rfl⟩ :=
      exists_of_check_ifThen checked
    have known : e.blockType? type = some f := (describes.blockType type).trans typed
    intro m counts
    unfold exec
    rw [show e.strict.blockType? type = e.blockType? type from rfl, known]
    refine Level.popCondition top (fun b => ?_) m counts
    cases b with
    | true => exact Level.enter pops (levelSeq body plain (describes.withLabel _) inside) left
    | false =>
      intro m counts
      obtain ⟨k, height, rest⟩ := counts.popAll pops
      refine ⟨rfl, ?_⟩
      change OpStack.Counts _ m.stack.length
      rw [height, same]
      exact rest.pushAll _
  | ifElse type first second =>
    obtain ⟨f, decided, popped, one, two, typed, top, pops, yes, left, no, left', rfl⟩ :=
      exists_of_check_ifElse checked
    obtain ⟨plain, plain'⟩ := Bool.and_eq_true_iff.1 plain
    have known : e.blockType? type = some f := (describes.blockType type).trans typed
    intro m counts
    unfold exec
    rw [show e.strict.blockType? type = e.blockType? type from rfl, known]
    refine Level.popCondition top (fun b => ?_) m counts
    cases b with
    | true => exact Level.enter pops (levelSeq first plain (describes.withLabel _) yes) left
    | false => exact Level.enter pops (levelSeq second plain' (describes.withLabel _) no) left'
  | _ => cases plain

theorem levelSeq (is : List Instr) (plain : isPlainSeq is = true) {c : Context}
    (describes : c.Describes e) {s t : OpStack} (checked : checkSeq is c s = some t) :
    Level c.labels s t (execSeq is e) (execSeq is e.strict) := by
  cases is with
  | nil =>
    cases checked
    exact fun m counts => ⟨rfl, counts⟩
  | cons i rest =>
    obtain ⟨one, others⟩ := Bool.and_eq_true_iff.1 plain
    obtain ⟨middle, first, second⟩ := Option.bind_eq_some_iff.1 checked
    exact (level i one describes first).seq (levelSeq rest others describes second)

end

end Instr

theorem length_of_next {e : Env} {c : Context} {results : List ValType} {body : List Instr}
    (plain : Instr.isPlainSeq body = true) (describes : c.Describes e)
    (checked : Instr.isTyped body c results = true) {m r : Machine} (empty : m.stack = [])
    (ran : Instr.execSeq body e m = .next r) : r.stack.length = results.length := by
  unfold Instr.isTyped at checked
  split at checked
  next t inside =>
    have start : OpStack.Counts ⟨[], false⟩ m.stack.length := ⟨rfl, by rw [empty]; rfl⟩
    obtain ⟨_, fits⟩ := Instr.levelSeq body plain describes inside m start
    rw [ran] at fits
    exact OpStack.Counts.leaves fits checked
  next => cases checked

/-- A checked body calls no function with too few arguments, and ends by itself with as many results
as it should. -/
theorem runBody_strict {e : Env} {c : Context} {type : FuncType} {body : List Instr}
    (plain : Instr.isPlainSeq body = true) (describes : c.Describes e)
    (checked : Instr.isTyped body c type.results = true) (locals : List ValType) (s : Store)
    (args : List Datum) :
    runBody e.strict type locals body s args = runBody e type locals body s args ∧
    ∃ o : CallOutcome, runBody e type locals body s args = o.body ∧
      ∀ results t, o = .done results t → results.length = type.results.length := by
  unfold Instr.isTyped at checked
  split at checked
  next t inside =>
    have start : OpStack.Counts ⟨[], false⟩ (0 : Nat) := ⟨rfl, rfl⟩
    obtain ⟨same, fits⟩ := Instr.levelSeq body plain describes inside
      ⟨s, (args ++ locals.map Datum.zero).toArray, []⟩ start
    unfold runBody
    dsimp only
    rw [same]
    refine ⟨rfl, ?_⟩
    have finished (m : Machine) : ∃ o : CallOutcome, m.finish type.results.length = o.body ∧
        ∀ results t, o = .done results t → results.length = type.results.length := by
      unfold Machine.finish
      split
      next => exact ⟨.trap .illTyped m.store, rfl, nofun⟩
      next enough =>
        refine ⟨.done _ m.store, rfl, ?_⟩
        rintro _ _ ⟨⟩
        rw [List.length_reverse, List.length_take]
        omega
    generalize Instr.execSeq body e _ = o at fits ⊢
    cases o with
    | next m | branch l m | ret m => exact finished m
    | tail => exact fits.elim
    | trap cause t => exact ⟨.trap cause t, rfl, nofun⟩
    | exhausted => exact ⟨.exhausted, rfl, nofun⟩
  next => cases checked

theorem callHost_yields (key : ImportKey) (f : HostFunction) (s : Store) (args : List Value)
    {results : List Datum} {t : Store} (done : callHost key f s args = .done results t) :
    results.length = f.signature.funcType.results.length := by
  unfold callHost at done
  dsimp only at done
  split at done
  next values answer =>
    cases done
    rw [List.length_map]
    exact HostFunction.length_results answer
  next => cases done

structure Program.Checked (p : Program) : Prop where
  signatures : p.signatures = p.funcs.map FuncInstance.type
  code : ∀ {f : Nat} {type : FuncType} {locals : List ValType} {body : List Instr},
    p.funcs[f]? = some (.code type locals body) → Instr.isPlainSeq body = true ∧
      ∃ c : Context, c.types = p.types ∧ c.funcs = p.signatures ∧
        Instr.isTyped body c type.results = true

namespace Program.Checked

variable {p : Program} (checked : p.Checked)

include checked

/-- A function of a checked program calls others with as many arguments as they take only. It ends
by itself, with as many results as it has. -/
theorem runOne (rounds room : Nat) {call : (room : Nat) → Nat → Store → List Datum → CallOutcome}
    (yields : ∀ room, Yielding p.signatures (call room)) (f : Nat) (s : Store) (args : List Datum) :
    p.runOne rounds room (fun room => strictly p.signatures (call room)) f s args =
      p.runOne rounds room call f s args ∧
    ∃ o : CallOutcome, p.runOne rounds room call f s args = o.body ∧
      ∀ type, p.signatures[f]? = some type → ∀ results t, o = .done results t →
        results.length = type.results.length := by
  unfold Program.runOne
  rw [checked.signatures, Array.getElem?_map]
  cases here : p.funcs[f]? with
  | none => exact ⟨rfl, .trap .illTyped s, rfl, nofun⟩
  | some function =>
    cases function with
    | host key host =>
      refine ⟨rfl, callHost key host s (args.filterMap Datum.value?), ?_, ?_⟩
      · dsimp only
        cases callHost key host s (args.filterMap Datum.value?) <;> rfl
      · rintro _ ⟨⟩ results t done
        exact callHost_yields key host s _ done
    | code type locals body =>
      dsimp only
      split
      · exact ⟨rfl, .trap .callDepth s, rfl, nofun⟩
      -- calls in the body find the functions that they were checked against
      · obtain ⟨plain, c, types, funcs, typed⟩ := checked.code here
        have describes : c.Describes (p.env rounds (call (room - p.frame f))) :=
          ⟨types, funcs, yields _⟩
        obtain ⟨same, o, ends, count⟩ := runBody_strict plain describes typed locals s args
        refine ⟨?_, o, ends, ?_⟩
        · rw [← checked.signatures]
          exact same
        · rintro _ ⟨⟩
          exact count

theorem yielding (rounds depth room : Nat) : Yielding p.signatures (p.invoke rounds depth room) := by
  induction depth generalizing room with
  | zero => exact fun f type _ s args results t done => by cases done
  | succ depth ih =>
    intro f type typed s args results t done
    cases rounds with
    | zero => cases done
    | succ rounds =>
      obtain ⟨_, o, ends, count⟩ := checked.runOne (rounds + 1) room ih f s args
      rw [Program.invoke, Program.runChain_of_body ends] at done
      exact count type typed results t done

end Program.Checked

section
variable {m : Module} {host : Imports} {offered : List (ImportKey × Nat)} {made : List Memory}
  {context : Context} {hostFuncs codeFuncs : List FuncInstance} {hostMemories : List Nat}
  {i : Instance} (joined : Joined m host offered made context hostFuncs codeFuncs hostMemories i)

include joined

/-- Where plain code is valid, its instances call functions with as many arguments as they take. -/
theorem Joined.checked (valid : m.isValid = true) (plain : ∀ g ∈ m.funcs, Instr.isPlainSeq g.body = true) :
    i.program.Checked where
  signatures := joined.signatures
  code := by
    intro f type locals body here
    have types : context.types = i.program.types :=
      (Module.context_eq joined.offers).1.trans joined.types.symm
    by_cases inside : f < hostFuncs.length
    · rw [joined.getElem?_host inside] at here
      obtain ⟨key, function, is⟩ :=
        (typed_of_resolveImports joined.resolved).2 _ (List.mem_of_getElem? here)
      cases is
    · obtain ⟨k, rfl⟩ : ∃ k, f = hostFuncs.length + k := ⟨f - hostFuncs.length, by omega⟩
      rw [joined.getElem?_code] at here
      obtain ⟨g, there, coded⟩ := exists_getElem?_of_forall₂ joined.coded.flip here
      have mem := List.mem_of_getElem? there
      cases coded with
      | mk typed =>
        refine ⟨plain g mem, context.forBody type g.locals, types, joined.signatures_eq.symm, ?_⟩
        unfold Module.isValid at valid
        rw [joined.offers] at valid
        simp only [Bool.and_eq_true, List.all_eq_true] at valid
        have checked := valid.2 g mem
        unfold Module.checkFunc at checked
        rw [types, joined.types, List.getElem?_toArray, typed] at checked
        exact (Bool.and_eq_true_iff.1 checked).2

end

end WasmBuilder.Wasm
