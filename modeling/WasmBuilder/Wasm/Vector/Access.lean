import WasmBuilder.Wasm.Vector.Eval

/-!
Loads and stores of vectors and of single lanes.
-/

set_option autoImplicit false

namespace WasmBuilder.Wasm.Vector

inductive Access where
  | load
  /-- Loads lanes of half the width, and widens them. -/
  | loadExtend (lane : Lane) (isSigned : Bool)
  | loadSplat (lane : Lane)
  | loadZero (lane : Lane)
  | store
  /-- Loads one lane of a vector that is there already. -/
  | loadLane (lane : Lane) (index : Nat)
  | storeLane (lane : Lane) (index : Nat)
  deriving DecidableEq, Repr

namespace Access

def log2 : Access → Nat
  | load | store => 4
  | loadExtend _ _ => 3
  | loadSplat lane | loadZero lane | loadLane lane _ | storeLane lane _ => lane.log2

def bytes (a : Access) : Nat := 2 ^ a.log2

def isProper : Access → Bool
  | loadExtend lane _ => lane ≠ .i8
  | loadZero lane => lane = .i32 || lane = .i64
  | loadLane lane index | storeLane lane index => index < lane.count
  | load | loadSplat _ | store => true

def type : Access → FuncType
  | load | loadExtend _ _ | loadSplat _ | loadZero _ => ⟨[], [.vec]⟩
  | store | storeLane _ _ => ⟨[.vec], []⟩
  | loadLane _ _ => ⟨[.vec], [.vec]⟩

def number : Access → Nat
  | load => 0
  | loadExtend lane s => 2 * lane.log2 - 1 + signOffset s
  | loadSplat lane => 7 + lane.log2
  | store => 11
  | loadLane lane _ => 84 + lane.log2
  | storeLane lane _ => 88 + lane.log2
  | loadZero lane => 90 + lane.log2

def all : List Access :=
  ([load, store] ++ Lane.all.flatMap fun l =>
    [loadExtend l true, loadExtend l false, loadSplat l, loadZero l]).filter isProper

def ofNumber? (n : Nat) : Option Access := all.find? (·.number = n)

/-- The access of a number, if it is one of a single lane; the index of the lane is still to come. -/
def onLane? (n : Nat) : Option (Nat → Access) :=
  (Lane.all.flatMap fun l => [loadLane l, storeLane l]).find? fun a => (a 0).number = n

def laneOfBytes (w : Nat) (bytes : List UInt8) : BitVec w :=
  bytes.foldr (fun b rest => rest <<< 8 ||| BitVec.ofNat w b.toNat) 0

def bytesOf (v : BitVec 128) : List UInt8 := (lanes 8 v).map fun b => UInt8.ofNat b.toNat

/-- The vector that a load leaves, of bytes in memory and of the vector that is there already. -/
def loaded (a : Access) (bytes : List UInt8) (old : BitVec 128) : BitVec 128 :=
  let whole := laneOfBytes 128 bytes
  match a with
  | loadExtend lane s =>
    match lane.half? with
    | some half => ofLanes ((halfLanes half.bits false whole).map (widen s lane.bits))
    | none => whole
  | loadSplat lane => ofLanes (List.replicate lane.count (whole.setWidth lane.bits))
  | loadLane lane index => Op.replaceLane old index (whole.setWidth lane.bits)
  | load | loadZero _ | store | storeLane _ _ => whole

def stored (a : Access) (v : BitVec 128) : List UInt8 :=
  match a with
  | storeLane lane index => ((bytesOf v).drop (index * lane.bytes)).take lane.bytes
  | _ => bytesOf v

end Access

end WasmBuilder.Wasm.Vector
