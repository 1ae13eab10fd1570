import WasmBuilder.NumType

/-!
The types of binary modules: numbers, vectors and references, functions over them, and what the
items of a module are declared as.

Programs are built from numbers alone; finished binaries may use all of these.
-/

set_option autoImplicit false

namespace WasmBuilder.Wasm

/-- What a reference leads to, if it is not null. -/
inductive RefType where
  | func
  | external
  deriving DecidableEq, Repr

namespace RefType

def all : List RefType := [func, external]

end RefType

/-- The type of an operand, a local or a global. -/
inductive ValType where
  | num (type : NumType)
  | vec
  | ref (type : RefType)
  deriving DecidableEq, Repr

namespace ValType

@[match_pattern] abbrev i32 : ValType := num .i32
@[match_pattern] abbrev i64 : ValType := num .i64
@[match_pattern] abbrev f32 : ValType := num .f32
@[match_pattern] abbrev f64 : ValType := num .f64
@[match_pattern] abbrev funcref : ValType := ref .func
@[match_pattern] abbrev externref : ValType := ref .external

def all : List ValType := NumType.all.map num ++ [vec] ++ RefType.all.map ref

def isRef : ValType → Bool
  | ref _ => true
  | num _ | vec => false

end ValType

/-- What a function takes from the stack and leaves there. -/
structure FuncType where
  params : List ValType
  results : List ValType
  deriving DecidableEq, Repr

/-- The integers that count the pages of a memory or the slots of a table. -/
inductive AddressType where
  | w32
  | w64
  deriving DecidableEq, Repr

namespace AddressType

def bits : AddressType → Nat
  | w32 => 32
  | w64 => 64

def valType : AddressType → ValType
  | w32 => .i32
  | w64 => .i64

def narrower : AddressType → AddressType → AddressType
  | w64, w64 => w64
  | _, _ => w32

end AddressType

structure Limits where
  minimum : Nat
  maximum : Option Nat
  deriving DecidableEq, Repr

structure TableType where
  element : RefType
  address : AddressType
  limits : Limits
  deriving DecidableEq, Repr

structure MemoryType where
  address : AddressType
  limits : Limits
  isShared : Bool
  deriving DecidableEq, Repr

namespace MemoryType

def ofLimits (l : Limits) : MemoryType := ⟨.w32, l, false⟩

end MemoryType

structure GlobalType where
  type : ValType
  isMutable : Bool
  deriving DecidableEq, Repr

end WasmBuilder.Wasm

namespace WasmBuilder

def Signature.funcType (s : Signature) : Wasm.FuncType := ⟨s.params.map .num, s.results.map .num⟩

theorem Signature.funcType_injective {s t : Signature} (h : s.funcType = t.funcType) : s = t := by
  have inj : ∀ {xs ys : List NumType}, xs.map Wasm.ValType.num = ys.map Wasm.ValType.num → xs = ys :=
    fun h => (List.map_inj_right fun _ _ h => by injection h).mp h
  cases s
  cases t
  simp only [funcType, Wasm.FuncType.mk.injEq] at h
  rw [inj h.1, inj h.2]

end WasmBuilder
