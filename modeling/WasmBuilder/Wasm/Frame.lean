import WasmBuilder.Wasm.Typing

/-!
How much of the stack a function takes while it runs.

A frame holds what code needs again behind a call, since a call leaves nothing in the registers, and
the arguments of calls that do not fit into registers. To find out, code is first reduced to what it
does with its variables (`Flow`), and then read backwards to see which of them are still needed.

Variables are the locals, and one for the instance that code belongs to. Sets of them are numbers,
read as bits. Values that are computed anew where they are needed, such as constants, take no room.
-/

set_option autoImplicit false

namespace WasmBuilder.Wasm.Frame

abbrev Vars := Nat

namespace Vars

def self : Vars := 1

def ofLocal (i : Nat) : Vars := 2 ^ (i + 1)

def union (a b : Vars) : Vars := a ||| b

def without (a b : Vars) : Vars := a ^^^ (a &&& b)

def meets (a b : Vars) : Bool := a &&& b != 0

def count (a : Nat) : Nat :=
  if a = 0 then 0 else a % 2 + count (a / 2)
termination_by a
decreasing_by omega

end Vars

def words : ValType → Nat
  | .i32 | .i64 | .ref _ => 1
  | .f32 | .f64 | .vec => 2

def wordsOf (wide vars : Vars) : Nat := Vars.count vars + Vars.count (vars &&& wide)

def wideLocals (locals : Array ValType) : Vars :=
  locals.toList.zipIdx.foldl
    (fun s p => if words p.1 = 2 then s.union (.ofLocal p.2) else s) 0

/-- What code does with variables, as far as room for them goes. The steps of a body are listed the
last one first. -/
inductive Flow where
  | use (vars : Vars)
  | assign (vars : Vars)
  /-- A call that keeps operands: unnamed ones of so many words, and those made of variables. Some
  variables hold constants, and some words of arguments go onto the stack. -/
  | call (held : Nat) (kept constants : Vars) (outgoing : Nat)
  | block (body : List Flow)
  | loop (body : List Flow)
  | choose (first second : List Flow)
  | mayJump (labels : List Nat)
  | jump (labels : List Nat)
  | leave

/-- An operand: what has to be kept to have it later. -/
structure Operand where
  vars : Vars
  /-- The words of other values that it is computed from. -/
  held : Nat

namespace Operand

def constant : Operand := ⟨0, 0⟩

def fresh (t : ValType) : Operand := ⟨0, words t⟩

def join (os : List Operand) : Operand :=
  ⟨os.foldl (fun s o => s.union o.vars) 0, (os.map (·.held)).sum⟩

def detach (var : Vars) (n : Nat) (o : Operand) : Operand :=
  if o.vars.meets var then ⟨o.vars.without var, o.held + n⟩ else o

def detachAll (wide vars : Vars) (o : Operand) : Operand :=
  ⟨o.vars.without vars, o.held + wordsOf wide (o.vars &&& vars)⟩

end Operand

structure Trace where
  stack : List Operand
  constants : Vars
  isDead : Bool := false

namespace Trace

def push (t : Trace) (o : Operand) : Trace := { t with stack := o :: t.stack }

def pop (t : Trace) (n : Nat) : Trace := { t with stack := t.stack.drop n }

def dead (t : Trace) : Trace := { t with isDead := true }

def bottom (t : Trace) (height : Nat) : List Operand := t.stack.drop (t.stack.length - height)

def leaving (t : Trace) (height : Nat) (results : List ValType) (constants : Vars) : Trace :=
  { stack := (results.map Operand.fresh).reverse ++ t.bottom height, constants }

def assign (c : Context) (i : Nat) (isConstant : Bool) (t : Trace) : Trace :=
  let var := Vars.ofLocal i
  { t with
    stack := t.stack.map (·.detach var (((c.locals[i]?).map words).getD 1))
    constants := if isConstant then t.constants.union var else t.constants.without var }

def forget (c : Context) (vars : Vars) (t : Trace) : Trace :=
  { t with
    stack := t.stack.map (·.detachAll (wideLocals c.locals) vars)
    constants := t.constants.without vars }

def read (t : Trace) (i : Nat) : Operand × Vars :=
  let var := Vars.ofLocal i
  if t.constants.meets var then (.constant, 0) else (⟨var, 0⟩, var)

end Trace

def outgoing (params : List ValType) : Nat :=
  let integers := params.filter fun t => words t = 1
  let others := params.filter fun t => words t = 2
  (integers.length - 4) + ((others.drop 8).map fun t => if t = .vec then 2 else 1).sum

def callFlow (type : FuncType) (t : Trace) : List Flow × Trace :=
  let kept := Operand.join t.stack
  ([.call kept.held kept.vars t.constants (outgoing type.params), .use .self],
    { t with stack := (type.results.map Operand.fresh).reverse ++ t.stack })

/-- Whether the result of an instruction can be computed anew from its operands: it depends on
nothing else, and it never traps. -/
def isPure : Instr → Bool
  | .const _ | .vecConst _ | .refNull _ | .selectTyped _ | .vector _ | .machineBinary _ => true
  | .binary (.intArith _ op) => op ∉ [.divS, .divU, .remS, .remU]
  | .binary _ => true
  | .unary (.trunc _ _) => false
  | .unary _ => true
  | .machineUnary (.truncU _ _) => false
  | .machineUnary _ => true
  | _ => false

def goesOn : Instr → Bool
  | .unreachable | .ret | .tailCall _ | .tailCallIndirect _ _ | .br _ | .brTable _ _ => false
  | _ => true

mutual

def assigned : Instr → Vars
  | .localSet i | .localTee i => .ofLocal i
  | .block _ body | .loop _ body | .ifThen _ body => assignedSeq body
  | .ifElse _ first second => (assignedSeq first).union (assignedSeq second)
  | _ => 0

def assignedSeq : List Instr → Vars
  | [] => 0
  | i :: rest => if goesOn i then (assigned i).union (assignedSeq rest) else assigned i

end

mutual

/-- What an instruction does with variables, and what is known behind it. -/
def trace (c : Context) : Instr → Trace → List Flow × Trace
  | .unreachable, t | .ret, t | .tailCall _, t | .tailCallIndirect _ _, t =>
    ([.leave, .use .self], t.dead)
  | .drop, t => ([], t.pop 1)
  | .select, t => ([], (t.pop 3).push (.join (t.stack.take 3)))
  | .refIsNull, t => ([], (t.pop 1).push (.join (t.stack.take 1)))
  | .localGet i, t => ([.use (t.read i).2], t.push (t.read i).1)
  | .localSet i, t =>
    let value := Operand.join (t.stack.take 1)
    ([.assign (.ofLocal i)], (t.pop 1).assign c i (value.vars = 0 && value.held = 0))
  | .localTee i, t =>
    let value := Operand.join (t.stack.take 1)
    let t := (t.pop 1).assign c i (value.vars = 0 && value.held = 0)
    ([.assign (.ofLocal i)], t.push (t.read i).1)
  | .block type body, t =>
    match c.blockType? type with
    | some f =>
      let (flows, inner) := traceSeq c body t []
      ([.block flows], inner.leaving (t.stack.length - f.params.length) f.results
        (t.constants.without (assignedSeq body)))
    | none => ([], t)
  | .loop type body, t =>
    match c.blockType? type with
    | some f =>
      let (flows, inner) := traceSeq c body (t.forget c (assignedSeq body)) []
      ([.loop flows], { inner with
        stack := inner.stack.take f.results.length ++
          inner.bottom (t.stack.length - f.params.length) })
    | none => ([], t)
  | .ifThen type body, t =>
    match c.blockType? type with
    | some f =>
      let t := t.pop 1
      let (flows, inner) := traceSeq c body t []
      ([.choose flows []], inner.leaving (t.stack.length - f.params.length) f.results
        (t.constants.without (assignedSeq body)))
    | none => ([], t)
  | .ifElse type first second, t =>
    match c.blockType? type with
    | some f =>
      let t := t.pop 1
      let height := t.stack.length - f.params.length
      let (flows, inner) := traceSeq c first t []
      let (others, inner) :=
        traceSeq c second
          { t with stack := t.stack.take f.params.length ++ inner.bottom height } []
      ([.choose flows others], inner.leaving height f.results
        (t.constants.without ((assignedSeq first).union (assignedSeq second))))
    | none => ([], t)
  | .br l, t => ([.jump [l]], t.dead)
  | .brIf l, t => ([.mayJump [l]], t.pop 1)
  | .brTable ls l, t => ([.jump (l :: ls)], t.dead)
  | .call f, t =>
    match c.funcs[f]? with
    | some type => callFlow type (t.pop type.params.length)
    | none => ([], t)
  | .callIndirect typeIndex _, t =>
    match c.types[typeIndex]? with
    | some type => callFlow type (t.pop (type.params.length + 1))
    | none => ([], t)
  | i, t =>
    match i.type? c with
    | some type =>
      let operands := t.stack.take type.params.length
      let t := t.pop type.params.length
      if isPure i then ([], t.push (.join operands))
      else
        ([.use .self], { t with stack := (type.results.map Operand.fresh).reverse ++ t.stack })
    | none => ([], t)

/-- What instructions do, up to the first one behind which control does not get; `done` is what
those in front of them did. -/
def traceSeq (c : Context) : List Instr → Trace → (done : List Flow) → List Flow × Trace
  | [], t, done => (done, t)
  | i :: rest, t, done =>
    let (flows, t) := trace c i t
    if t.isDead then (flows ++ done, t) else traceSeq c rest t (flows ++ done)

end

def neededAt (needed : List Vars) (labels : List Nat) : Vars :=
  labels.foldl (fun s l => s.union (needed.getD l 0)) 0

mutual

/-- The variables that are needed before a step, given those needed at each label and behind it. -/
def before (needed : List Vars) : Flow → Vars → Vars
  | .use vars, after => after.union vars
  | .assign vars, after => after.without vars
  | .call _ _ _ _, after => after
  | .block body, after => beforeSeq (after :: needed) body after
  | .loop body, after => beforeSeq (0 :: needed) body after
  | .choose first second, after =>
    (beforeSeq (after :: needed) first after).union (beforeSeq (after :: needed) second after)
  | .mayJump labels, after => after.union (neededAt needed labels)
  | .jump labels, _ => neededAt needed labels
  | .leave, _ => 0

def beforeSeq (needed : List Vars) : List Flow → Vars → Vars
  | [], after => after
  | f :: rest, after => beforeSeq needed rest (before needed f after)

end

structure Room where
  kept : Nat := 0
  outgoing : Nat := 0

def Room.max (a b : Room) : Room := ⟨Nat.max a.kept b.kept, Nat.max a.outgoing b.outgoing⟩

mutual

/-- The variables needed before a step, and the room for the calls in it. What a loop needs at its
start is what its body needs of variables that it has not set itself. -/
def measure (wide : Vars) (needed : List Vars) : Flow → Vars → Vars × Room
  | .call held kept constants outgoing, after =>
    (after, ⟨held + wordsOf wide ((after.union kept).without constants), outgoing⟩)
  | .block body, after => measureSeq wide (after :: needed) body after {}
  | .loop body, after =>
    let head := beforeSeq (0 :: needed) body after
    (head, (measureSeq wide (head :: needed) body after {}).2)
  | .choose first second, after =>
    let (a, r) := measureSeq wide (after :: needed) first after {}
    let (b, s) := measureSeq wide (after :: needed) second after {}
    (a.union b, r.max s)
  | f, after => (before needed f after, {})

def measureSeq (wide : Vars) (needed : List Vars) : List Flow → Vars → Room → Vars × Room
  | [], after, room => (after, room)
  | f :: rest, after, room =>
    let (middle, r) := measure wide needed f after
    measureSeq wide needed rest middle (r.max room)

end

def entryRegisters : Nat := 14

/-- The size of the frame of a function, in pairs of words. One pair is there always, for the way
back. -/
def size (c : Context) (type : FuncType) (locals : List ValType) (body : List Instr) : Nat :=
  let all := (type.params ++ locals).toArray
  let own := (List.range locals.length).foldl
    (fun s i => s.union (.ofLocal (type.params.length + i))) (0 : Vars)
  let (flows, _) := traceSeq { c with locals := all } body { stack := [], constants := own } []
  let wide := wideLocals all
  let (needed, room) := measureSeq wide [0] flows 0 {}
  let kept := Nat.max room.kept (wordsOf wide needed - entryRegisters)
  1 + (kept + 1) / 2 + (room.outgoing + 1) / 2

end WasmBuilder.Wasm.Frame
