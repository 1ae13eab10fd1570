import WasmBuilder.Op.Name
import WasmBuilder.Wasm.Encode
import WasmBuilder.Wasm.Memory

/-!
Reading the binary form of a module.

A reader takes bytes off the front of a list. Anything malformed, unknown or left over makes the
whole binary unreadable.
-/

set_option autoImplicit false

namespace WasmBuilder.Wasm

abbrev Reader := StateT (List UInt8) Option

namespace Reader

def byte : Reader UInt8 := fun bytes =>
  match bytes with
  | b :: rest => some (b, rest)
  | [] => none

def expect (b : UInt8) : Reader Unit := do
  if (← byte) ≠ b then failure

def u32 : Reader Nat := Leb128.readUnsigned 32

def i32 : Reader Int := Leb128.readSigned 32
def i64 : Reader Int := Leb128.readSigned 64

def take (n : Nat) : Reader (List UInt8) := fun bytes =>
  if n ≤ bytes.length then some (bytes.take n, bytes.drop n) else none

def atEnd : Reader Bool := fun bytes => some (bytes.isEmpty, bytes)

def times {α : Type} (item : Reader α) : Nat → Reader (List α)
  | 0 => return []
  | n + 1 => do
    let first ← item
    let rest ← times item n
    return first :: rest

def vec {α : Type} (item : Reader α) : Reader (List α) := do times item (← u32)

def sizedBytes : Reader (List UInt8) := do take (← u32)

def name : Reader String := do
  let bytes ← sizedBytes
  if maxNameBytes < bytes.length then failure
  match String.fromUTF8? (ByteArray.mk bytes.toArray) with
  | some s => return s
  | none => failure

def whole {α : Type} (r : Reader α) (bytes : List UInt8) : Option α :=
  match r.run bytes with
  | some (a, []) => some a
  | _ => none

def found {α : Type} : Option α → Reader α
  | some a => return a
  | none => failure

/-- A type of values. That a reference may be null can be said in front of it. -/
def valType : Reader ValType := do
  let b ← byte
  if b = nullableByte then return .ref (← found (RefType.ofCode? (← byte)))
  else found (ValType.ofCode? b)

def refType : Reader RefType := do
  match ← valType with
  | .ref t => return t
  | _ => failure

def funcType : Reader FuncType := do
  expect 0x60
  let params ← vec valType
  let results ← vec valType
  return ⟨params, results⟩

def limits : Reader (AddressType × Bool × Limits) := do
  let flags ← byte
  if 8 ≤ flags then failure
  let address := if flags &&& 4 = 0 then AddressType.w32 else .w64
  let size := Leb128.readUnsigned address.bits
  let minimum ← size
  let maximum ← if flags &&& 1 = 0 then pure none else do pure (some (← size))
  return (address, flags &&& 2 ≠ 0, ⟨minimum, maximum⟩)

def tableType : Reader TableType := do
  let element ← refType
  match ← limits with
  | (address, false, sizes) => return ⟨element, address, sizes⟩
  | _ => failure

def memoryType : Reader MemoryType := do
  let (address, isShared, sizes) ← limits
  return ⟨address, sizes, isShared⟩

def globalType : Reader GlobalType := do
  let t ← valType
  match ← byte with
  | 0x00 => return ⟨t, false⟩
  | 0x01 => return ⟨t, true⟩
  | _ => failure

/-- An empty block, one value, or a type index, which is written as a nonnegative number. -/
def blockType : Reader BlockType := fun bytes =>
  match bytes with
  | 0x40 :: rest => some (.empty, rest)
  | b :: _ =>
    if b = nullableByte ∨ (ValType.ofCode? b).isSome then
      (valType bytes).map fun (t, rest) => (.value t, rest)
    else
      match Leb128.readSigned 33 bytes with
      | some (.ofNat i, rest) => some (.index i, rest)
      | _ => none
  | [] => none

def value (t : NumType) : Reader Value := do
  return .ofBytes t (← take t.byteWidth)

def memArg : Reader MemArg := do
  let flags ← u32
  let memory ← if flags / 64 % 2 = 1 then u32 else pure 0
  let align := if flags / 64 % 2 = 1 then flags - 64 else flags
  let offset ← Leb128.readUnsigned 64
  if 64 ≤ align then failure
  return { align, offset, memory }

/-- An instruction whose code is a number behind the shared byte. Data segments can only be named
when their number was announced. -/
def sharedInstr (announced : Bool) : Reader Instr := do
  let number ← u32
  match MachineUnOp.all.find? (·.code = .shared number) with
  | some op => return .machineUnary op
  | none =>
    match number, announced with
    | 8, true => return .memoryInit (← u32) (← u32)
    | 9, true => return .dataDrop (← u32)
    | 10, _ => return .memoryCopy (← u32) (← u32)
    | 11, _ => return .memoryFill (← u32)
    | 12, _ => return .tableInit (← u32) (← u32)
    | 13, _ => return .elemDrop (← u32)
    | 14, _ => return .tableCopy (← u32) (← u32)
    | 15, _ => return .tableGrow (← u32)
    | 16, _ => return .tableSize (← u32)
    | 17, _ => return .tableFill (← u32)
    | _, _ => failure

def vectorInstr : Reader Instr := do
  let number ← u32
  if number = 12 then return .vecConst (Vector.Access.laneOfBytes 128 (← take 16))
  else if number = 13 then
    let op := Vector.Op.shuffle ((← take 16).map UInt8.toNat)
    if op.isProper then return .vector op else failure
  else
    match Vector.Op.ofNumber? number, Vector.Access.ofNumber? number,
      Vector.Access.onLane? number with
    | some op, _, _ => return .vector op
    | _, some a, _ => return .vecAccess a (← memArg)
    | _, _, some a => do
      let arg ← memArg
      return .vecAccess (a (← byte).toNat) arg
    | _, _, _ => do return .vector (← found (Vector.Op.onLane? number (← byte).toNat))

def atomicInstr : Reader Instr := do
  let number ← u32
  if number = 3 then
    expect 0x00
    return .atomicFence
  else return .atomic (← found (AtomicOp.ofNumber? number)) (← memArg)

def numericInstr (code : UInt8) : Reader Instr :=
  let types := [NumType.i32, .i64, .f32, .f64]
  let known : Option (Reader Instr) :=
    (types.find? (·.loadCode = code)).map
      (fun t => (return .load t (← memArg) : Reader Instr)) <|>
    (types.find? (·.storeCode = code)).map
      (fun t => (return .store t (← memArg) : Reader Instr)) <|>
    (partAccesses.find? fun p => loadPartCode p.1 p.2 true = code).map
      (fun p => (return .loadPart p.1 p.2 true (← memArg) : Reader Instr)) <|>
    (partAccesses.find? fun p => loadPartCode p.1 p.2 false = code).map
      (fun p => (return .loadPart p.1 p.2 false (← memArg) : Reader Instr)) <|>
    (partAccesses.find? fun p => storePartCode p.1 p.2 = code).map
      (fun p => (return .storePart p.1 p.2 (← memArg) : Reader Instr)) <|>
    (BinOp.all.find? (·.code = code)).map
      (fun op => (return .binary op : Reader Instr)) <|>
    (UnOp.all.find? (·.code = code)).map
      (fun op => (return .unary op : Reader Instr)) <|>
    (MachineBinOp.all.find? (·.code = code)).map
      (fun op => (return .machineBinary op : Reader Instr)) <|>
    (MachineUnOp.all.find? (·.code = .plain code)).map
      (fun op => (return .machineUnary op : Reader Instr))
  known.getD failure

def plainInstr (announced : Bool) (code : UInt8) : Reader Instr := do
  match code with
  | 0x00 => return .unreachable
  | 0x01 => return .nop
  | 0x0c => return .br (← u32)
  | 0x0d => return .brIf (← u32)
  | 0x0e => return .brTable (← vec u32) (← u32)
  | 0x0f => return .ret
  | 0x10 => return .call (← u32)
  | 0x11 => return .callIndirect (← u32) (← u32)
  | 0x12 => return .tailCall (← u32)
  | 0x13 => return .tailCallIndirect (← u32) (← u32)
  | 0x1a => return .drop
  | 0x1b => return .select
  | 0x1c =>
    match ← vec valType with
    | [t] => return .selectTyped t
    | _ => failure
  | 0x20 => return .localGet (← u32)
  | 0x21 => return .localSet (← u32)
  | 0x22 => return .localTee (← u32)
  | 0x23 => return .globalGet (← u32)
  | 0x24 => return .globalSet (← u32)
  | 0x25 => return .tableGet (← u32)
  | 0x26 => return .tableSet (← u32)
  | 0x3f => return .memorySize (← u32)
  | 0x40 => return .memoryGrow (← u32)
  | 0x41 => return .const (.i32 (BitVec.ofInt 32 (← i32)))
  | 0x42 => return .const (.i64 (BitVec.ofInt 64 (← i64)))
  | 0x43 => return .const (← value .f32)
  | 0x44 => return .const (← value .f64)
  | 0xd0 => return .refNull (← found (RefType.ofCode? (← byte)))
  | 0xd1 => return .refIsNull
  | 0xd2 => return .refFunc (← u32)
  | _ =>
    if code = sharedByte then sharedInstr announced
    else if code = Instr.vectorByte then vectorInstr
    else if code = Instr.atomicByte then atomicInstr
    else numericInstr code

inductive Terminator where
  | stop
  | otherwise
  deriving DecidableEq

/-- Instructions up to their end marker. Every instruction takes a byte, so the number of bytes
bounds how far this goes. -/
def instrs (announced : Bool) : (bound : Nat) → Reader (List Instr × Terminator)
  | 0 => failure
  | bound + 1 => do
    let code ← byte
    match code with
    | 0x0b => return ([], .stop)
    | 0x05 => return ([], .otherwise)
    | _ => do
      let first ← match code with
        | 0x02 => do
          let t ← blockType
          match ← instrs announced bound with
          | (body, .stop) => pure (.block t body)
          | _ => failure
        | 0x03 => do
          let t ← blockType
          match ← instrs announced bound with
          | (body, .stop) => pure (.loop t body)
          | _ => failure
        | 0x04 => do
          let t ← blockType
          match ← instrs announced bound with
          | (body, .stop) => pure (.ifThen t body)
          | (thenBody, .otherwise) =>
            match ← instrs announced bound with
            | (elseBody, .stop) => pure (.ifElse t thenBody elseBody)
            | _ => failure
        | _ => plainInstr announced code
      let (rest, terminator) ← instrs announced bound
      return (first :: rest, terminator)

def expr (announced : Bool) : Reader (List Instr) := do
  match ← instrs announced ((← get).length + 1) with
  | (body, .stop) => return body
  | _ => failure

def constantExpr : Reader (List Instr) := expr false

def importItem : Reader Import := do
  let space ← name
  let item ← name
  let type ← match ← byte with
    | 0x00 => do pure (ImportType.func (← u32))
    | 0x01 => do pure (ImportType.table (← tableType))
    | 0x02 => do pure (ImportType.memory (← memoryType))
    | 0x03 => do pure (ImportType.global (← globalType))
    | _ => failure
  return ⟨⟨space, item⟩, type⟩

def global : Reader Global := do
  let type ← globalType
  let init ← constantExpr
  return ⟨type, init⟩

def exportItem : Reader Export := do
  let text ← name
  let kind ← match ← byte with
    | 0x00 => pure ExportKind.func
    | 0x01 => pure ExportKind.table
    | 0x02 => pure ExportKind.memory
    | 0x03 => pure ExportKind.global
    | _ => failure
  return ⟨text, kind, ← u32⟩

def slot (type : RefType) : Reader Slot := do
  match ← constantExpr with
  | [.refFunc f] => return .func f
  | [.refNull t] => if t = type then return .null else failure
  | [.globalGet g] => return .global g
  | _ => failure

/-- References for a table. The form tells whether the segment is active, whether its table is named
or is the first one, and whether slots are written as expressions. -/
def element : Reader Element := do
  let form ← u32
  if 8 ≤ form then failure
  let placement ← match form % 4 with
    | 0 => do pure (Placement.active 0 (← constantExpr))
    | 2 => do pure (Placement.active (← u32) (← constantExpr))
    | 1 => pure .passive
    | _ => pure .declared
  if form < 4 then
    if form ≠ 0 then expect 0x00
    return ⟨placement, .func, (← vec u32).map .func⟩
  else
    let type ← if form = 4 then pure .func else refType
    return ⟨placement, type, ← vec (slot type)⟩

def dataItem : Reader Data := do
  let placement ← match ← u32 with
    | 0 => do pure (Placement.active 0 (← constantExpr))
    | 1 => pure .passive
    | 2 => do pure (Placement.active (← u32) (← constantExpr))
    | _ => failure
  return ⟨placement, ← sizedBytes⟩

/-- A run of locals of one type. Runs too long for any function are refused before they are
spelled out. -/
def localRun : Reader (Nat × ValType) := do
  let n ← u32
  let t ← valType
  return (n, t)

def code (announced : Bool) : Reader (List ValType × List Instr) := do
  let bytes ← sizedBytes
  let body : Reader (List ValType × List Instr) := do
    let runs ← vec localRun
    if 50000 < (runs.map (·.1)).sum then failure
    return (runs.flatMap fun r => List.replicate r.1 r.2, ← expr announced)
  match whole body bytes with
  | some f => return f
  | none => failure

def rawSection : Reader (UInt8 × List UInt8) := do
  let id ← byte
  return (id, ← sizedBytes)

def rawSections : (bound : Nat) → Reader (List (UInt8 × List UInt8))
  | 0 => return []
  | bound + 1 => do
    if ← atEnd then return []
    let first ← rawSection
    return first :: (← rawSections bound)

end Reader

def sectionRank? (id : UInt8) : Option Nat :=
  ([1, 2, 3, 4, 5, 6, 7, 8, 9, 12, 10, 11] : List UInt8).findIdx? (· = id)

def sectionsInOrder (ids : List UInt8) : Bool :=
  match ids.mapM sectionRank? with
  | some ranks => ranks.Pairwise (· < ·)
  | none => false

def sectionItems {α : Type} (sections : List (UInt8 × List UInt8)) (id : UInt8)
    (item : Reader α) : Option (List α) :=
  match sections.lookup id with
  | some bytes => (Reader.vec item).whole bytes
  | none => some []

def sectionNumber? (sections : List (UInt8 × List UInt8)) (id : UInt8) : Option (Option Nat) :=
  match sections.lookup id with
  | some bytes => (Reader.u32.whole bytes).map some
  | none => some none

/-- Reads a whole binary. Custom sections are skipped, apart from their names. -/
def Module.decode (bytes : List UInt8) : Option Module := do
  require' (bytes.take header.length = header)
  let (all, _) ← (Reader.rawSections bytes.length).run (bytes.drop header.length)
  let (custom, sections) := all.partition (·.1 = 0)
  custom.forM fun c => do let _ ← Reader.name.run c.2
  require' (sectionsInOrder (sections.map (·.1)))
  let typeIndices ← sectionItems sections 3 Reader.u32
  let dataCount ← sectionNumber? sections 12
  let codes ← sectionItems sections 10 (Reader.code dataCount.isSome)
  require' (typeIndices.length = codes.length)
  let data ← sectionItems sections 11 Reader.dataItem
  require' (dataCount.all (· = data.length))
  return {
    types := ← sectionItems sections 1 Reader.funcType
    imports := ← sectionItems sections 2 Reader.importItem
    funcs := typeIndices.zipWith (fun t c => ⟨t, c.1, c.2⟩) codes
    tables := ← sectionItems sections 4 Reader.tableType
    memories := ← sectionItems sections 5 Reader.memoryType
    globals := ← sectionItems sections 6 Reader.global
    exports := ← sectionItems sections 7 Reader.exportItem
    start := ← sectionNumber? sections 8
    elements := ← sectionItems sections 9 Reader.element
    data }
where
  require' (b : Bool) : Option Unit := if b then some () else none

end WasmBuilder.Wasm
