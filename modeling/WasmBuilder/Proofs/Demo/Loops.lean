import Mathlib.Data.Nat.Choose.Basic
import Mathlib.Data.Nat.Factorial.Basic
import WasmBuilder.Proofs.Demo.Compiled

/-!
What the counting loops compute.

Their module is the same with and without simplification. Before each round of a loop its variables
hold what the rounds so far come to, so that the last round leaves a sum or a factorial, in the
arithmetic of words.
-/

set_option autoImplicit false

namespace WasmBuilder.Demo

open Wasm (Bounds Datum FuncInstance Instance Instr Machine Rounds ofNat_slt toInt_ofNat_of_lt
  whileCode)

def sumToCond : List Instr := [.localGet 1, .localGet 0, .binary (.intRel .w32 .ltS)]

def sumToBody : List Instr :=
  [.localGet 2, .localGet 1, .binary (.intArith .w32 .add), .localSet 2,
   .localGet 1, .const (.i32 1), .binary (.intArith .w32 .add), .localSet 1]

def sumToSetup : List Instr := [.const (.i32 0), .localSet 1, .const (.i32 0), .localSet 2]

def sumToCode : List Instr :=
  sumToSetup ++ whileCode sumToCond sumToBody ++ [Instr.localGet 2, .ret]

def factorialCond : List Instr := [.localGet 0, .const (.i64 1), .binary (.intRel .w64 .gtS)]

def factorialBody : List Instr :=
  [.localGet 1, .localGet 0, .binary (.intArith .w64 .mul), .localSet 1,
   .localGet 0, .const (.i64 1), .binary (.intArith .w64 .sub), .localSet 0]

def factorialSetup : List Instr := [.const (.i64 1), .localSet 1]

def factorialCode : List Instr :=
  factorialSetup ++ whileCode factorialCond factorialBody ++ [Instr.localGet 1, .ret]

def loopsModule : Wasm.Module where
  types := [⟨[.num .i32], [.num .i32]⟩, ⟨[.num .i64], [.num .i64]⟩]
  funcs := [⟨0, [.num .i32, .num .i32], sumToCode⟩, ⟨1, [.num .i64], factorialCode⟩]
  exports := [⟨"sumTo", .func, 0⟩, ⟨"factorial", .func, 1⟩]

def loopsBuild : Build := Build.left (mount .loop []) {}

def loopsInstance (journal : List HostCall) : Instance where
  exports := loopsModule.exports
  program :=
    { types := loopsModule.types.toArray
      funcs := #[.code ⟨[.num .i32], [.num .i32]⟩ [.num .i32, .num .i32] sumToCode,
        .code ⟨[.num .i64], [.num .i64]⟩ [.num .i64] factorialCode]
      frames := #[1, 1]
      memories := #[] }
  store := { globals := #[], memories := #[], journal }
  memories := []

set_option maxRecDepth 10000 in
theorem mount_loop (args : Arguments) :
    mount .loop args {} = .ok ⟨[("sumTo", 0), ("factorial", 1)]⟩ loopsBuild := by
  cbv

set_option maxRecDepth 10000 in
theorem lowersTo_loopsModule : loopsBuild.LowersTo loopsModule where
  usable := by cbv
  settled := by cbv
  lowered := by cbv

set_option maxRecDepth 10000 in
theorem isValid_loopsModule : loopsModule.isValid = true := by cbv

set_option maxRecDepth 10000 in
theorem length_encode_loopsModule : loopsModule.encode.length < 2 ^ 32 := by cbv

set_option maxRecDepth 10000 in
theorem link_loopsModule (journal : List HostCall) :
    Wasm.link loopsModule loopsBuild.imports (Wasm.offeredNumbers loopsBuild.imports) [] journal =
      some (loopsInstance journal) := by
  cbv

set_option maxRecDepth 10000 in
theorem created_loopsBuild :
    Wasm.createMemories (Wasm.offeredMemories loopsBuild.imports) = .ok [] := by
  cbv

theorem start_loopsBuild (optimize validate : Bool) (bounds : Bounds) (journal : List HostCall) :
    Build.start { optimize, validate } bounds (loopsBuild, journal) =
      .ok (loopsInstance journal) (loopsBuild, journal) :=
  lowersTo_loopsModule.starts optimize validate isValid_loopsModule
    length_encode_loopsModule created_loopsBuild (link_loopsModule journal) rfl

section
variable (e : Wasm.Env) (s : Wasm.Store)

def sumToState (n : BitVec 32) (k : Nat) : Machine :=
  ⟨s, #[.i32 n, .i32 (BitVec.ofNat 32 k), .i32 (BitVec.ofNat 32 (k * (k - 1) / 2))], []⟩

theorem sumTo_test (n : BitVec 32) {k : Nat} (inside : k ≤ n.toInt.toNat) :
    Instr.execSeq sumToCond e (sumToState s n k) =
      .next ((sumToState s n k).push (.ofBool (decide (k < n.toInt.toNat)))) := by
  rw [← ofNat_slt n inside]
  rfl

theorem sumTo_rounds (n : BitVec 32) :
    Rounds e sumToCond sumToBody (sumToState s n) n.toInt.toNat where
  empty _ _ := rfl
  holds k below := by rw [sumTo_test e s n (Nat.le_of_lt below), decide_eq_true below]
  goesOn k below := by
    have next : BitVec.ofNat 32 k + 1 = BitVec.ofNat 32 (k + 1) := (BitVec.ofNat_add k 1).symm
    have sum : BitVec.ofNat 32 (k * (k - 1) / 2) + BitVec.ofNat 32 k =
        BitVec.ofNat 32 ((k + 1) * (k + 1 - 1) / 2) := by
      rw [Nat.triangle_succ, BitVec.ofNat_add]
    have last : sumToState s n (k + 1) = ⟨s, #[.i32 n, .i32 (BitVec.ofNat 32 k + 1),
        .i32 (BitVec.ofNat 32 (k * (k - 1) / 2) + BitVec.ofNat 32 k)], []⟩ := by
      rw [next, sum, sumToState]
    rw [last]
    rfl

theorem execSeq_sumTo (n : BitVec 32) (enough : n.toInt.toNat < e.rounds) :
    Instr.execSeq sumToCode e ⟨s, #[.i32 n, .i32 0, .i32 0], []⟩ =
      .ret ((sumToState s n n.toInt.toNat).push
        (.i32 (BitVec.ofNat 32 (n.toInt.toNat * (n.toInt.toNat - 1) / 2)))) := by
  have first : Instr.execSeq sumToSetup e ⟨s, #[.i32 n, .i32 0, .i32 0], []⟩ =
      .next (sumToState s n 0) := rfl
  have loop := (sumTo_rounds e s n).stops enough
    (by rw [sumTo_test e s n (Nat.le_refl _), decide_eq_false (Nat.lt_irrefl _)])
  rw [sumToCode, List.append_assoc, Instr.execSeq_append_next first,
    Instr.execSeq_append_next loop]
  rfl

def factorialState (n : BitVec 64) (k : Nat) : Machine :=
  ⟨s, #[.i64 (n - BitVec.ofNat 64 k), .i64 (BitVec.ofNat 64 (n.toInt.toNat.descFactorial k))], []⟩

theorem factorial_test (n : BitVec 64) {k : Nat} (inside : k ≤ n.toInt.toNat - 1) :
    Instr.execSeq factorialCond e (factorialState s n k) =
      .next ((factorialState s n k).push (.ofBool (decide (k < n.toInt.toNat - 1)))) := by
  have bound := n.toInt_lt
  have least := n.le_toInt
  have low : (n - BitVec.ofNat 64 k).toInt = n.toInt - k := by
    rw [BitVec.toInt_sub, toInt_ofNat_of_lt (by omega), Int.bmod_eq_of_le] <;> omega
  have one : (1#64).toInt = 1 := rfl
  have test : (1#64).slt (n - BitVec.ofNat 64 k) = decide (k < n.toInt.toNat - 1) := by
    rw [BitVec.slt_eq_decide, low]
    exact decide_eq_decide.2 (by omega)
  rw [← test]
  rfl

theorem factorial_rounds (n : BitVec 64) :
    Rounds e factorialCond factorialBody (factorialState s n) (n.toInt.toNat - 1) where
  empty _ _ := rfl
  holds k below := by rw [factorial_test e s n (Nat.le_of_lt below), decide_eq_true below]
  goesOn k below := by
    have bound := n.toInt_lt
    -- the factor of this round has not gone below zero
    have next : n - BitVec.ofNat 64 k - 1 = n - BitVec.ofNat 64 (k + 1) := by
      rw [BitVec.ofNat_add]
      bv_omega
    have factor : n - BitVec.ofNat 64 k = BitVec.ofNat 64 (n.toInt.toNat - k) := by
      apply BitVec.eq_of_toInt_eq
      rw [BitVec.toInt_sub, toInt_ofNat_of_lt (by omega), toInt_ofNat_of_lt (by omega),
        Int.bmod_eq_of_le] <;> omega
    have product : BitVec.ofNat 64 (n.toInt.toNat.descFactorial k) * (n - BitVec.ofNat 64 k) =
        BitVec.ofNat 64 (n.toInt.toNat.descFactorial (k + 1)) := by
      rw [factor, Nat.descFactorial_succ, Nat.mul_comm, BitVec.ofNat_mul]
    have last : factorialState s n (k + 1) = ⟨s, #[.i64 (n - BitVec.ofNat 64 k - 1),
        .i64 (BitVec.ofNat 64 (n.toInt.toNat.descFactorial k) * (n - BitVec.ofNat 64 k))], []⟩ := by
      rw [next, product, factorialState]
    rw [last]
    rfl

theorem execSeq_factorial (n : BitVec 64) (enough : n.toInt.toNat - 1 < e.rounds) :
    Instr.execSeq factorialCode e ⟨s, #[.i64 n, .i64 0], []⟩ =
      .ret ((factorialState s n (n.toInt.toNat - 1)).push
        (.i64 (BitVec.ofNat 64 n.toInt.toNat.factorial))) := by
  have first : Instr.execSeq factorialSetup e ⟨s, #[.i64 n, .i64 0], []⟩ =
      .next (factorialState s n 0) := by
    have same : n - BitVec.ofNat 64 0 = n := BitVec.sub_zero n
    rw [factorialState, same]
    rfl
  have loop := (factorial_rounds e s n).stops enough
    (by rw [factorial_test e s n (Nat.le_refl _), decide_eq_false (Nat.lt_irrefl _)])
  -- the factor that no round multiplies is one
  have all : n.toInt.toNat.descFactorial (n.toInt.toNat - 1) = n.toInt.toNat.factorial := by
    cases n.toInt.toNat with
    | zero => rfl
    | succ m =>
      have whole := Nat.descFactorial_succ (m + 1) m
      rw [Nat.descFactorial_self, Nat.add_sub_cancel_left, Nat.one_mul] at whole
      exact whole.symm
  rw [factorialCode, List.append_assoc, Instr.execSeq_append_next first,
    Instr.execSeq_append_next loop, ← all]
  rfl

end

section
variable (journal : List HostCall) {bounds : Bounds} (room : 0 < bounds.room)

include room

theorem call_sumTo (n : BitVec 32) (enough : n.toInt.toNat < bounds.rounds) :
    Instance.call bounds "sumTo" [.i32 n] (loopsInstance journal) =
      .ok [.i32 (BitVec.ofNat 32 (n.toInt.toNat * (n.toInt.toNat - 1) / 2))]
        (loopsInstance journal) := by
  have offers : (loopsInstance journal).Offers "sumTo" 0 ⟨[.num .i32], [.num .i32]⟩
      [.num .i32, .num .i32] sumToCode :=
    ⟨rfl, rfl, by simp [Instance.funcType?, loopsInstance, FuncInstance.type]⟩
  have fits : [Wasm.ValType.num .i32] = [Value.i32 n].map fun v => .num v.type := rfl
  exact offers.returns fits room room (by omega) (.inl (execSeq_sumTo _ _ n enough)) (Nat.le_refl 1)

theorem call_factorial (n : BitVec 64) (enough : n.toInt.toNat < bounds.rounds) :
    Instance.call bounds "factorial" [.i64 n] (loopsInstance journal) =
      .ok [.i64 (BitVec.ofNat 64 n.toInt.toNat.factorial)] (loopsInstance journal) := by
  have offers : (loopsInstance journal).Offers "factorial" 1 ⟨[.num .i64], [.num .i64]⟩
      [.num .i64] factorialCode :=
    ⟨rfl, rfl, by simp [Instance.funcType?, loopsInstance, FuncInstance.type]⟩
  have fits : [Wasm.ValType.num .i64] = [Value.i64 n].map fun v => .num v.type := rfl
  have fewer := Nat.lt_of_le_of_lt (Nat.sub_le n.toInt.toNat 1) enough
  exact offers.returns fits room room (by omega) (.inl (execSeq_factorial _ _ n fewer)) (Nat.le_refl 1)

end

/-- The loops end, and compute their closed forms in the arithmetic of words. A bound on rounds that
the number of rounds stays below changes nothing. -/
theorem loops_compute (args : Arguments) (optimize validate : Bool) (bounds : Bounds)
    (journal : List HostCall) : ∃ library b i, mount .loop args {} = .ok library b ∧
      Build.start { optimize, validate } bounds (b, journal) = .ok i (b, journal) ∧
      (∀ (n : BitVec 32) (bounds : Bounds), 0 < bounds.room → n.toInt.toNat < bounds.rounds →
        Instance.call bounds "sumTo" [.i32 n] i =
          .ok [.i32 (BitVec.ofInt 32 (if 0 < n.toInt then n.toInt * (n.toInt - 1) / 2 else 0))] i) ∧
      ∀ (n : BitVec 64) (bounds : Bounds), 0 < bounds.room → n.toInt.toNat < bounds.rounds →
        Instance.call bounds "factorial" [.i64 n] i =
          .ok [.i64 (BitVec.ofNat 64 (if 1 < n.toInt then n.toInt.toNat.factorial else 1))] i := by
  refine ⟨_, loopsBuild, loopsInstance journal, mount_loop args,
    start_loopsBuild optimize validate bounds journal, ?_, ?_⟩
  · intro n bounds room enough
    have sum : (if 0 < n.toInt then n.toInt * (n.toInt - 1) / 2 else 0) =
        ((n.toInt.toNat * (n.toInt.toNat - 1) / 2 : Nat) : Int) := by
      generalize n.toInt = z
      split
      next above =>
        obtain ⟨m, rfl⟩ : ∃ m : Nat, z = (m + 1 : Nat) := ⟨z.toNat - 1, by omega⟩
        simp
      next below => simp [show z.toNat = 0 by omega]
    rw [call_sumTo journal room n enough, sum, BitVec.ofInt_natCast]
  · intro n bounds room enough
    have product : (if 1 < n.toInt then n.toInt.toNat.factorial else 1) =
        n.toInt.toNat.factorial := by
      split
      next => rfl
      next below =>
        obtain none | one : n.toInt.toNat = 0 ∨ n.toInt.toNat = 1 := by omega
        · rw [none]
          rfl
        · rw [one]
          rfl
    rw [call_factorial journal room n enough, product]

/-- A sum and a factorial that do not fit their words, and the most negative of all numbers. -/
theorem loops_compute_of_wrapping : ∃ library b i, mount .loop [] {} = .ok library b ∧
    Build.start { optimize := false } {} (b, []) = .ok i (b, []) ∧
    Instance.call {} "sumTo" [.i32 100000] i = .ok [.i32 704982704] i ∧
    Instance.call {} "sumTo" [.i32 0x80000000] i = .ok [.i32 0] i ∧
    Instance.call {} "factorial" [.i64 25] i = .ok [.i64 7034535277573963776] i := by
  obtain ⟨library, b, i, mounted, started, sums, products⟩ := loops_compute [] false true {} []
  refine ⟨library, b, i, mounted, started, ?_, ?_, ?_⟩
  · exact sums 100000 {} (by decide) (by decide)
  · exact sums 0x80000000 {} (by decide) (by decide)
  · exact products 25 {} (by decide) (by decide)

end WasmBuilder.Demo
