import WasmBuilder.Wasm.Module
import WasmBuilder.Wasm.Leb128
import WasmBuilder.Wasm.Opcode

/-!
The binary form of a module.

Numbers take their shortest form. The sections of types, functions, exports and code are always
written, even when they are empty; all others only when they hold something.
-/

set_option autoImplicit false

namespace WasmBuilder

def littleEndian (count : Nat) (n : Nat) : List UInt8 :=
  match count with
  | 0 => []
  | count + 1 => UInt8.ofNat (n % 256) :: littleEndian count (n / 256)

@[simp] theorem length_littleEndian (count n : Nat) : (littleEndian count n).length = count := by
  induction count generalizing n with
  | zero => rfl
  | succ count ih => simp [littleEndian, ih]

def Value.bytes : Value → List UInt8
  | .i32 v => littleEndian 4 v.toNat
  | .i64 v => littleEndian 8 v.toNat
  | .f32 v => littleEndian 4 v.toNat
  | .f64 v => littleEndian 8 v.toNat

theorem Value.length_bytes (v : Value) : v.bytes.length = v.type.byteWidth := by
  cases v <;> exact length_littleEndian ..

namespace Wasm

def encodeVec {α : Type} (item : α → List UInt8) (xs : List α) : List UInt8 :=
  Leb128.unsigned xs.length ++ xs.flatMap item

def encodeBytes (bytes : List UInt8) : List UInt8 := Leb128.unsigned bytes.length ++ bytes

def encodeName (s : String) : List UInt8 := encodeBytes s.toUTF8.toList

def BlockType.encode : BlockType → List UInt8
  | .empty => [0x40]
  | .value t => [t.code]
  | .index i => Leb128.signed i

namespace Instr

/-- Alignment and offset of a memory access. A memory other than the first is named between them,
and announced by a bit of the alignment. -/
def encodeMemArg (a : MemArg) : List UInt8 :=
  if a.memory = 0 then Leb128.unsigned a.align ++ Leb128.unsigned a.offset
  else
    Leb128.unsigned (a.align + 64) ++ Leb128.unsigned a.memory ++ Leb128.unsigned a.offset

def encodeOpCode : OpCode → List UInt8
  | .plain code => [code]
  | .shared number => sharedByte :: Leb128.unsigned number

def vectorByte : UInt8 := 0xfd

def atomicByte : UInt8 := 0xfe

def encodeVectorOp (op : Vector.Op) : List UInt8 :=
  vectorByte :: Leb128.unsigned op.number ++
    match op with
    | .shuffle places => places.map UInt8.ofNat
    | .extract _ _ index | .replace _ index | .extractFloat _ index | .replaceFloat _ index =>
      [UInt8.ofNat index]
    | _ => []

def encodeVectorAccess (a : Vector.Access) (arg : MemArg) : List UInt8 :=
  vectorByte :: Leb128.unsigned a.number ++ encodeMemArg arg ++
    match a with
    | .loadLane _ index | .storeLane _ index => [UInt8.ofNat index]
    | _ => []

def encodeConst : Value → List UInt8
  | .i32 v => 0x41 :: Leb128.signed v.toInt
  | .i64 v => 0x42 :: Leb128.signed v.toInt
  | .f32 v => 0x43 :: (Value.f32 v).bytes
  | .f64 v => 0x44 :: (Value.f64 v).bytes

mutual

def encode : Instr → List UInt8
  | .unreachable => [0x00]
  | .nop => [0x01]
  | .block t body => 0x02 :: t.encode ++ encodeSeq body ++ [0x0b]
  | .loop t body => 0x03 :: t.encode ++ encodeSeq body ++ [0x0b]
  | .ifThen t body => 0x04 :: t.encode ++ encodeSeq body ++ [0x0b]
  | .ifElse t thenBody elseBody =>
    0x04 :: t.encode ++ encodeSeq thenBody ++ 0x05 :: encodeSeq elseBody ++ [0x0b]
  | .br l => 0x0c :: Leb128.unsigned l
  | .brIf l => 0x0d :: Leb128.unsigned l
  | .brTable ls l => 0x0e :: encodeVec Leb128.unsigned ls ++ Leb128.unsigned l
  | .ret => [0x0f]
  | .call f => 0x10 :: Leb128.unsigned f
  | .callIndirect t table => 0x11 :: Leb128.unsigned t ++ Leb128.unsigned table
  | .tailCall f => 0x12 :: Leb128.unsigned f
  | .tailCallIndirect t table => 0x13 :: Leb128.unsigned t ++ Leb128.unsigned table
  | .drop => [0x1a]
  | .select => [0x1b]
  | .selectTyped t => [0x1c, 0x01, t.code]
  | .localGet i => 0x20 :: Leb128.unsigned i
  | .localSet i => 0x21 :: Leb128.unsigned i
  | .localTee i => 0x22 :: Leb128.unsigned i
  | .globalGet i => 0x23 :: Leb128.unsigned i
  | .globalSet i => 0x24 :: Leb128.unsigned i
  | .load t arg => t.loadCode :: encodeMemArg arg
  | .store t arg => t.storeCode :: encodeMemArg arg
  | .loadPart w part isSigned arg => loadPartCode w part isSigned :: encodeMemArg arg
  | .storePart w part arg => storePartCode w part :: encodeMemArg arg
  | .memorySize memory => 0x3f :: Leb128.unsigned memory
  | .memoryGrow memory => 0x40 :: Leb128.unsigned memory
  | .memoryInit data memory =>
    encodeOpCode (.shared 8) ++ Leb128.unsigned data ++ Leb128.unsigned memory
  | .dataDrop data => encodeOpCode (.shared 9) ++ Leb128.unsigned data
  | .memoryCopy target source =>
    encodeOpCode (.shared 10) ++ Leb128.unsigned target ++ Leb128.unsigned source
  | .memoryFill memory => encodeOpCode (.shared 11) ++ Leb128.unsigned memory
  | .tableInit element table =>
    encodeOpCode (.shared 12) ++ Leb128.unsigned element ++ Leb128.unsigned table
  | .elemDrop element => encodeOpCode (.shared 13) ++ Leb128.unsigned element
  | .tableCopy target source =>
    encodeOpCode (.shared 14) ++ Leb128.unsigned target ++ Leb128.unsigned source
  | .tableGrow table => encodeOpCode (.shared 15) ++ Leb128.unsigned table
  | .tableSize table => encodeOpCode (.shared 16) ++ Leb128.unsigned table
  | .tableFill table => encodeOpCode (.shared 17) ++ Leb128.unsigned table
  | .tableGet table => 0x25 :: Leb128.unsigned table
  | .tableSet table => 0x26 :: Leb128.unsigned table
  | .refNull t => [0xd0, t.code]
  | .refIsNull => [0xd1]
  | .refFunc f => 0xd2 :: Leb128.unsigned f
  | .vecConst v => vectorByte :: Leb128.unsigned 12 ++ littleEndian 16 v.toNat
  | .vector op => encodeVectorOp op
  | .vecAccess a arg => encodeVectorAccess a arg
  | .atomic op arg => atomicByte :: Leb128.unsigned op.number ++ encodeMemArg arg
  | .atomicFence => [atomicByte, 0x03, 0x00]
  | .const v => encodeConst v
  | .binary op => [op.code]
  | .unary op => [op.code]
  | .machineBinary op => [op.code]
  | .machineUnary op => encodeOpCode op.code

def encodeSeq : List Instr → List UInt8
  | [] => []
  | i :: rest => encode i ++ encodeSeq rest

end

end Instr

def encodeExpr (body : List Instr) : List UInt8 := Instr.encodeSeq body ++ [0x0b]

def FuncType.encode (t : FuncType) : List UInt8 :=
  0x60 :: encodeVec (fun t => [t.code]) t.params ++ encodeVec (fun t => [t.code]) t.results

/-- Sizes behind a byte of flags: whether there is a maximum, whether memory is shared, and whether
sizes have 64 bits. -/
def encodeLimits (address : AddressType) (isShared : Bool) (l : Limits) : List UInt8 :=
  let flags : UInt8 :=
    (if l.maximum.isSome then 1 else 0) + (if isShared then 2 else 0) +
      if address = .w64 then 4 else 0
  flags :: Leb128.unsigned l.minimum ++ (l.maximum.map Leb128.unsigned).getD []

def TableType.encode (t : TableType) : List UInt8 :=
  t.element.code :: encodeLimits t.address false t.limits

def MemoryType.encode (t : MemoryType) : List UInt8 := encodeLimits t.address t.isShared t.limits

def GlobalType.encode (g : GlobalType) : List UInt8 :=
  [g.type.code, if g.isMutable then 0x01 else 0x00]

def Import.encode (i : Import) : List UInt8 :=
  encodeName i.key.space ++ encodeName i.key.name ++
    match i.type with
    | .func t => 0x00 :: Leb128.unsigned t
    | .table t => 0x01 :: t.encode
    | .memory t => 0x02 :: t.encode
    | .global g => 0x03 :: g.encode

def Global.encode (g : Global) : List UInt8 := g.type.encode ++ encodeExpr g.init

def ExportKind.code : ExportKind → UInt8
  | .func => 0x00
  | .table => 0x01
  | .memory => 0x02
  | .global => 0x03

def Export.encode (e : Export) : List UInt8 :=
  encodeName e.name ++ e.kind.code :: Leb128.unsigned e.index

def Slot.encode (type : RefType) : Slot → List UInt8
  | .func f => encodeExpr [.refFunc f]
  | .null => encodeExpr [.refNull type]
  | .global g => encodeExpr [.globalGet g]

def Element.funcs? (e : Element) : Option (List Nat) :=
  if e.type = .func then e.slots.mapM Slot.func? else none

/-- Functions are listed by their numbers if every slot has one, else slot by slot. An active
segment is written in the form that names its table. -/
def Element.encode (e : Element) : List UInt8 :=
  match e.funcs? with
  | some funcs => placed 0 ++ 0x00 :: encodeVec Leb128.unsigned funcs
  | none => placed 4 ++ e.type.code :: encodeVec (Slot.encode e.type) e.slots
where
  placed (form : Nat) : List UInt8 :=
    match e.placement with
    | .active table offset =>
      Leb128.unsigned (form + 2) ++ Leb128.unsigned table ++ encodeExpr offset
    | .passive => Leb128.unsigned (form + 1)
    | .declared => Leb128.unsigned (form + 3)

def Data.encode (d : Data) : List UInt8 :=
  match d.placement with
  | .active memory offset =>
    0x02 :: Leb128.unsigned memory ++ encodeExpr offset ++ encodeBytes d.bytes
  | .passive | .declared => 0x01 :: encodeBytes d.bytes

def groupRuns : List ValType → List (Nat × ValType)
  | [] => []
  | t :: rest =>
    match groupRuns rest with
    | (n, u) :: groups => if t = u then (n + 1, u) :: groups else (1, t) :: (n, u) :: groups
    | [] => [(1, t)]

def Func.encode (f : Func) : List UInt8 :=
  encodeBytes <|
    encodeVec (fun (n, t) => Leb128.unsigned n ++ [t.code]) (groupRuns f.locals) ++
      encodeExpr f.body

def frame (id : UInt8) (content : List UInt8) : List UInt8 := id :: encodeBytes content

def optionalSection {α : Type} (id : UInt8) (item : α → List UInt8) (xs : List α) : List UInt8 :=
  if xs.isEmpty then [] else frame id (encodeVec item xs)

def header : List UInt8 := [0x00, 0x61, 0x73, 0x6d, 0x01, 0x00, 0x00, 0x00]

def Module.encode (m : Module) : List UInt8 :=
  header ++
  frame 1 (encodeVec FuncType.encode m.types) ++
  optionalSection 2 Import.encode m.imports ++
  frame 3 (encodeVec (fun f => Leb128.unsigned f.typeIndex) m.funcs) ++
  optionalSection 4 TableType.encode m.tables ++
  optionalSection 5 MemoryType.encode m.memories ++
  optionalSection 6 Global.encode m.globals ++
  frame 7 (encodeVec Export.encode m.exports) ++
  (match m.start with | some f => frame 8 (Leb128.unsigned f) | none => []) ++
  optionalSection 9 Element.encode m.elements ++
  frame 10 (encodeVec Func.encode m.funcs) ++
  optionalSection 11 Data.encode m.data

end Wasm

end WasmBuilder
