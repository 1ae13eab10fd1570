import WasmBuilder.Wasm.Machine

/-!
Steps of the machine on memories.

An address is read as unsigned and does not wrap when an offset is added. An access that does not
lie inside as a whole traps before anything is changed.
-/

set_option autoImplicit false

namespace WasmBuilder.Wasm

def Store.memory? (s : Store) (e : Env) (index : Nat) : Option (Nat × Memory) := do
  let i ← e.memories[index]?
  return (i, ← s.memories[i]?)

namespace Machine

/-- Reads bytes at the address on the stack, and leaves what `f` makes of them. -/
def loadBytes (e : Env) (arg : MemArg) (count : Nat) (f : List UInt8 → Datum) (m : Machine) :
    Outcome :=
  match m.stack with
  | d :: rest =>
    match d.unsigned?, m.store.memory? e arg.memory with
    | some addr, some (_, memory) =>
      match memory.read (addr + arg.offset) count with
      | some bytes => .next { m with stack := f bytes :: rest }
      | none => m.trap .outOfBounds
    | _, _ => m.stuck
  | _ => m.stuck

/-- Puts bytes into the memory of a number and leaves a stack, or traps if the bytes do not all lie
inside. -/
def put (i addr : Nat) (bytes : List UInt8) (stack : List Datum) (m : Machine) : Outcome :=
  if m.store.holds i addr bytes.length then
    .next { m with store := m.store.poke i addr bytes, stack }
  else m.trap .outOfBounds

def storeBytes (e : Env) (arg : MemArg) (f : Datum → Option (List UInt8)) (m : Machine) :
    Outcome :=
  match m.stack with
  | v :: d :: rest =>
    match f v, d.unsigned?, e.memories[arg.memory]? with
    | some bytes, some addr, some i => m.put i (addr + arg.offset) bytes rest
    | _, _, _ => m.stuck
  | _ => m.stuck

def bytesOf? (t : NumType) : Datum → Option (List UInt8)
  | .num v => if v.type = t then some v.bytes else none
  | _ => none

def load (e : Env) (t : NumType) (arg : MemArg) (m : Machine) : Outcome :=
  m.loadBytes e arg t.byteWidth fun bytes => .num (.ofBytes t bytes)

def storeNum (e : Env) (t : NumType) (arg : MemArg) (m : Machine) : Outcome :=
  m.storeBytes e arg (bytesOf? t)

def loadPart (e : Env) (w : Width) (part : Part) (isSigned : Bool) (arg : MemArg) (m : Machine) :
    Outcome :=
  m.loadBytes e arg part.bytes fun bytes => .num (part.fill w isSigned bytes)

def storePart (e : Env) (w : Width) (part : Part) (arg : MemArg) (m : Machine) : Outcome :=
  m.storeBytes e arg fun d => (bytesOf? w.int d).map (·.take part.bytes)

def vecAccess (e : Env) (a : Vector.Access) (arg : MemArg) (m : Machine) : Outcome :=
  match a, m.stack with
  | .store, _ | .storeLane _ _, _ =>
    m.storeBytes e arg fun d => match d with | .vec v => some (a.stored v) | _ => none
  | .loadLane _ _, .vec old :: rest =>
    { m with stack := rest }.loadBytes e arg a.bytes fun bytes => .vec (a.loaded bytes old)
  | .loadLane _ _, _ => m.stuck
  | _, _ => m.loadBytes e arg a.bytes fun bytes => .vec (a.loaded bytes 0)

def memorySize (e : Env) (index : Nat) (m : Machine) : Outcome :=
  match m.store.memory? e index with
  | some (_, memory) => .next (m.push (memory.type.address.datum memory.pages))
  | none => m.stuck

/-- Leaves the size before growing, or minus one when the memory cannot grow by so much. -/
def memoryGrow (e : Env) (index : Nat) (m : Machine) : Outcome :=
  match m.stack with
  | d :: rest =>
    match d.unsigned?, m.store.memory? e index with
    | some delta, some (i, memory) =>
      match memory.grow delta with
      | some grown =>
        .next { m with
          store := m.store.setMemory i grown
          stack := memory.type.address.datum memory.pages :: rest }
      | none => .next { m with stack := memory.type.address.datum (-1) :: rest }
    | _, _ => m.stuck
  | _ => m.stuck

def memoryFill (e : Env) (index : Nat) (m : Machine) : Outcome :=
  match m.stack with
  | n :: .i32 byte :: d :: rest =>
    match n.unsigned?, d.unsigned?, e.memories[index]? with
    | some count, some addr, some i =>
      if m.store.holds i addr count then
        m.put i addr (List.replicate count (UInt8.ofNat byte.toNat)) rest
      else m.trap .outOfBounds
    | _, _, _ => m.stuck
  | _ => m.stuck

/-- Copies a range, as if it were read as a whole before it is written. -/
def memoryCopy (e : Env) (target source : Nat) (m : Machine) : Outcome :=
  match m.stack with
  | n :: s :: d :: rest =>
    match n.unsigned?, s.unsigned?, d.unsigned?, e.memories[target]?, m.store.memory? e source with
    | some count, some start, some addr, some i, some (_, other) =>
      match other.read start count with
      | some bytes => m.put i addr bytes rest
      | none => m.trap .outOfBounds
    | _, _, _, _, _ => m.stuck
  | _ => m.stuck

def memoryInit (e : Env) (data index : Nat) (m : Machine) : Outcome :=
  match m.stack with
  | .i32 count :: .i32 start :: d :: rest =>
    match d.unsigned?, e.memories[index]?, m.store.segments[data]? with
    | some addr, some i, some bytes =>
      if start.toNat + count.toNat ≤ bytes.length then
        m.put i addr ((bytes.drop start.toNat).take count.toNat) rest
      else m.trap .outOfBounds
    | _, _, _ => m.stuck
  | _ => m.stuck

def dataDrop (data : Nat) (m : Machine) : Outcome :=
  .next { m with
    store := { m.store with segments := m.store.segments.setIfInBounds data [] } }

/-- Reads the number at the place of an atomic access, and goes on with the memory, the address and
the number. -/
def atomically (e : Env) (op : AtomicOp) (arg : MemArg) (d : Datum)
    (f : (memory addr old : Nat) → Outcome) (m : Machine) : Outcome :=
  match d.unsigned?, m.store.memory? e arg.memory with
  | some base, some (i, memory) =>
    let addr := base + arg.offset
    if addr % op.bytes ≠ 0 then m.trap .unaligned
    else
      match memory.read addr op.bytes with
      | some bytes => f i addr (fromLittleEndian bytes)
      | none => m.trap .outOfBounds
  | _, _ => m.stuck

/-- Waits while memory holds what is expected. As nobody wakes it, it waits for as long as it
may. -/
def atomicWait (e : Env) (index old : Nat) (expected : Datum) (timeout : BitVec 64)
    (rest : List Datum) (m : Machine) : Outcome :=
  match m.store.memory? e index with
  | some (_, memory) =>
    if !memory.type.isShared then m.trap .notShared
    else if expected.unsigned? ≠ some old then .next { m with stack := .i32 1 :: rest }
    else if timeout.msb then .exhausted
    else .next { m with stack := .i32 2 :: rest }
  | none => m.stuck

def atomic (e : Env) (op : AtomicOp) (arg : MemArg) (m : Machine) : Outcome :=
  match op, m.stack with
  | .notify, _ :: d :: rest =>
    m.atomically e op arg d fun _ _ _ => .next { m with stack := .i32 0 :: rest }
  | .wait _, .i64 timeout :: expected :: d :: rest =>
    m.atomically e op arg d fun _ _ old => m.atomicWait e arg.memory old expected timeout rest
  | .load extent, d :: rest =>
    m.atomically e op arg d fun _ _ old => .next { m with stack := extent.datum old :: rest }
  | .store _, v :: d :: rest =>
    m.atomically e op arg d fun i addr _ =>
      m.put i addr (littleEndian op.bytes (v.unsigned?.getD 0)) rest
  | .update change extent, v :: d :: rest =>
    m.atomically e op arg d fun i addr old =>
      let new := change.eval (BitVec.ofNat 64 old) (BitVec.ofNat 64 (v.unsigned?.getD 0))
      m.put i addr (littleEndian op.bytes new.toNat) (extent.datum old :: rest)
  | .compareExchange extent, new :: expected :: d :: rest =>
    m.atomically e op arg d fun i addr old =>
      let wanted := expected.unsigned?.getD 0 % 2 ^ (8 * op.bytes)
      let stored := if old = wanted then new.unsigned?.getD 0 else old
      m.put i addr (littleEndian op.bytes stored) (extent.datum old :: rest)
  | _, _ => m.stuck

end Machine

end WasmBuilder.Wasm
