import Mathlib.Algebra.BigOperators.Group.Finset.Basic
import WasmBuilder.Proofs.Demo.Compiled
import WasmBuilder.Proofs.Wasm.Bytes

/-!
What is read from a memory and written to it.

Only the limits of the memory depend on the arguments, and the module is the same with and without
simplification. Calls are followed from any contents and any size of the memory: before each round the
loop has added the words so far, and the first word that does not lie inside ends it.
-/

set_option autoImplicit false

namespace WasmBuilder.Demo

open Wasm (Bounds Datum FuncInstance Instance Instr Machine Rounds ofNat_slt whileCode)

def storeLoadRead : List Instr := [.load .i64 ⟨3, 0, 0⟩, .ret]

def storeLoadWrite : List Instr := .store .i64 ⟨3, 0, 0⟩ :: .localGet 0 :: storeLoadRead

def storeLoadCode : List Instr := .localGet 0 :: .localGet 1 :: storeLoadWrite

def sumWordsCond : List Instr := [.localGet 2, .localGet 1, .binary (.intRel .w32 .ltS)]

def sumWordsPlace : List Instr :=
  [.localGet 3, .localGet 0, .localGet 2, .const (.i32 4), .binary (.intArith .w32 .mul),
   .binary (.intArith .w32 .add)]

def sumWordsNext : List Instr :=
  [.binary (.intArith .w32 .add), .localSet 3,
   .localGet 2, .const (.i32 1), .binary (.intArith .w32 .add), .localSet 2]

def sumWordsBody : List Instr := sumWordsPlace ++ .load .i32 ⟨2, 0, 0⟩ :: sumWordsNext

def sumWordsSetup : List Instr := [.const (.i32 0), .localSet 2, .const (.i32 0), .localSet 3]

def sumWordsCode : List Instr :=
  sumWordsSetup ++ whileCode sumWordsCond sumWordsBody ++ [Instr.localGet 3, .ret]

def memoryKey : ImportKey := ⟨"namespace", "name"⟩

def memorySizes (pages : Nat) : MemoryLimits := ⟨pages, some (max pages 100)⟩

def memoryModule (l : MemoryLimits) : Wasm.Module where
  types := [⟨[.num .i32, .num .i64], [.num .i64]⟩, ⟨[.num .i32, .num .i32], [.num .i32]⟩,
    ⟨[], [.num .i32]⟩, ⟨[.num .i32], [.num .i32]⟩]
  imports := [⟨memoryKey, .memory (.ofLimits ⟨l.initial, l.maximum⟩)⟩]
  funcs := [⟨0, [], storeLoadCode⟩, ⟨1, [.num .i32, .num .i32], sumWordsCode⟩,
    ⟨2, [], [.memorySize 0, .ret]⟩, ⟨3, [], [.localGet 0, .memoryGrow 0, .ret]⟩]
  exports := [⟨"storeLoad", .func, 0⟩, ⟨"sumWords", .func, 1⟩, ⟨"pages", .func, 2⟩,
    ⟨"grow", .func, 3⟩]

def Arguments.pages (args : Arguments) : Nat := ((args.integer "pages" 1).setWidth 32).toNat

def memoryBuild (args : Arguments) : Build := Build.left (mount .memory args) {}

def memoryInstance (pages : Nat) (journal : List HostCall) : Instance where
  exports := (memoryModule (memorySizes pages)).exports
  program :=
    { types := (memoryModule (memorySizes pages)).types.toArray
      funcs := #[.code ⟨[.num .i32, .num .i64], [.num .i64]⟩ [] storeLoadCode,
        .code ⟨[.num .i32, .num .i32], [.num .i32]⟩ [.num .i32, .num .i32] sumWordsCode,
        .code ⟨[], [.num .i32]⟩ [] [.memorySize 0, .ret],
        .code ⟨[.num .i32], [.num .i32]⟩ [] [.localGet 0, .memoryGrow 0, .ret]]
      frames := #[1, 1, 1, 1]
      memories := #[0] }
  store := { globals := #[], memories := #[.ofLimits (memorySizes pages)], journal }
  memories := [(memoryKey, 0)]

section
variable (args : Arguments)

set_option maxRecDepth 10000 in
theorem mount_memory : mount .memory args {} =
    .ok ⟨[("storeLoad", 0), ("sumWords", 1), ("pages", 2), ("grow", 3)]⟩ (memoryBuild args) := by
  cbv

set_option maxRecDepth 10000 in
theorem memory_memoryBuild :
    (memoryBuild args).memory = some ⟨memoryKey, args.pages, max args.pages 100⟩ := by
  cbv

set_option maxRecDepth 10000 in
theorem offered_memoryBuild :
    Wasm.offeredMemories (memoryBuild args).imports = [(memoryKey, memorySizes args.pages)] := by
  cbv

set_option maxRecDepth 10000 in
theorem lower_memoryBuild :
    (memoryBuild args).lower none = .ok (memoryModule (memorySizes args.pages)) := by
  have sizes : Lower.memoryImport (some ⟨memoryKey, args.pages, max args.pages 100⟩) =
      .ok (memoryModule (memorySizes args.pages)).imports := by
    rw [Lower.memoryImport, if_neg (Nat.not_lt.2 (Nat.le_max_left ..))]
    rfl
  -- the limits are compared first, so that only the rest is evaluated
  unfold Build.lower
  rw [memory_memoryBuild, sizes]
  cbv

set_option maxRecDepth 10000 in
theorem lowersTo_memoryModule :
    (memoryBuild args).LowersTo (memoryModule (memorySizes args.pages)) where
  usable := by cbv
  settled := by cbv
  lowered := lower_memoryBuild args

end

section
variable {pages : Nat}

set_option maxRecDepth 10000 in
theorem isValid_memoryModule (pages maximum : Nat) : (memoryModule ⟨pages, some maximum⟩).isValid =
    (decide (pages ≤ 65536) && (decide (pages ≤ maximum) && decide (maximum ≤ 65536))) := by
  cbv
  -- validation compares in another order and more than once
  simp only [Nat.le_eq]
  by_cases a : pages ≤ 65536 <;> by_cases b : pages ≤ maximum <;> by_cases c : maximum ≤ 65536 <;>
    simp [a, b, c]

theorem isValid_memoryModule_iff :
    (memoryModule (memorySizes pages)).isValid = true ↔ pages ≤ 65536 := by
  rw [memorySizes, isValid_memoryModule]
  simp only [Bool.and_eq_true, decide_eq_true_eq]
  omega

set_option maxRecDepth 10000 in
theorem length_encode_memoryModule (most : pages ≤ 65536) :
    (memoryModule (memorySizes pages)).encode.length < 2 ^ 32 := by
  have least := Wasm.length_unsigned_le pages
  have greatest := Wasm.length_unsigned_le (max pages 100)
  have number := Wasm.length_unsigned_le (0 + 1)
  have name : (Wasm.encodeName memoryKey.space ++ Wasm.encodeName memoryKey.name).length = 15 := by cbv
  -- only the section of imports depends on the sizes
  have others : ([Wasm.itemSection 1 Wasm.FuncType.encode (memoryModule (memorySizes 0)).types,
      Wasm.itemSection 3 (fun f => Wasm.Leb128.unsigned f.typeIndex)
        (memoryModule (memorySizes 0)).funcs,
      Wasm.itemSection 7 Wasm.Export.encode (memoryModule (memorySizes 0)).exports,
      Wasm.itemSection 10 Wasm.Func.encode (memoryModule (memorySizes 0)).funcs].flatMap
        fun s => Wasm.frame s.1 s.2).length ≤ 400 := by cbv
  have imports : (Wasm.itemSection 2 Wasm.Import.encode
      (memoryModule (memorySizes pages)).imports).2.length ≤ 150000 := by
    simp only [memoryModule, memorySizes, Wasm.itemSection, Wasm.encodeVec, Wasm.Import.encode,
      Wasm.MemoryType.encode, Wasm.encodeLimits, Wasm.MemoryType.ofLimits, List.length_append,
      List.flatMap_cons, List.flatMap_nil, List.length_cons, List.length_nil, Option.map_some,
      Option.getD_some] at name ⊢
    omega
  have all := Wasm.length_encode_le (m := memoryModule (memorySizes pages)) [_] [_, _, _] rfl others
    imports
  omega

set_option maxRecDepth 10000 in
theorem link_memoryModule (pages : Nat) (host : Imports) (journal : List HostCall) :
    Wasm.link (memoryModule (memorySizes pages)) host [(memoryKey, 0)] [.ofLimits (memorySizes pages)]
      journal = some (memoryInstance pages journal) := by
  have fits := Wasm.satisfies_ofLimits (memorySizes pages)
  have resolved : Wasm.resolveImports host (memoryModule (memorySizes pages)).types [(memoryKey, 0)]
      [Wasm.Memory.ofLimits (memorySizes pages)].toArray
      (memoryModule (memorySizes pages)).imports = some ([], [0]) := by
    simp [Wasm.resolveImports, memoryModule, fits]
  unfold Wasm.link
  rw [resolved]
  cbv

theorem start_memoryBuild (args : Arguments) (most : args.pages ≤ 65536) (optimize validate : Bool)
    (bounds : Bounds) (journal : List HostCall) :
    Build.start { optimize, validate } bounds (memoryBuild args, journal) =
      .ok (memoryInstance args.pages journal) (memoryBuild args, journal) := by
  have offers : Wasm.creatable (memorySizes args.pages) = true := by
    simp only [Wasm.creatable, Wasm.Limits.fits, memorySizes, Bool.and_eq_true]
    exact ⟨decide_eq_true most, decide_eq_true (Nat.le_max_left ..),
      decide_eq_true (max_le most (by decide))⟩
  have created : Wasm.createMemories (Wasm.offeredMemories (memoryBuild args).imports) =
      .ok [.ofLimits (memorySizes args.pages)] := by
    rw [offered_memoryBuild, Wasm.createMemories_eq_ok (by simpa using offers)]
    rfl
  -- it is the only memory that the host has, so it is the first one in the store
  have numbers : Wasm.offeredNumbers (memoryBuild args).imports = [(memoryKey, 0)] := by
    rw [Wasm.offeredNumbers, offered_memoryBuild]
    rfl
  have linked := link_memoryModule args.pages (memoryBuild args).imports journal
  rw [← numbers] at linked
  exact (lowersTo_memoryModule args).starts optimize validate (isValid_memoryModule_iff.2 most)
    (length_encode_memoryModule most) created linked rfl

end

def wordPlace (addr : BitVec 32) (k : Nat) : Nat := (addr.toNat + 4 * k) % 2 ^ 32

def wordSum (memory : Wasm.Memory) (addr : BitVec 32) (count : Nat) : Nat :=
  ∑ k ∈ Finset.range count, memory.word (wordPlace addr k)

def WordsInside (memory : Wasm.Memory) (addr : BitVec 32) (count : Nat) : Prop :=
  ∀ k < count, wordPlace addr k + 4 ≤ memory.size

instance (memory : Wasm.Memory) (addr : BitVec 32) (count : Nat) :
    Decidable (WordsInside memory addr count) :=
  Nat.decidableBallLT count fun k _ => wordPlace addr k + 4 ≤ memory.size

section
variable {e : Wasm.Env} {s : Wasm.Store} {memory : Wasm.Memory} (index : e.memories[0]? = some 0)
  (here : s.memories[0]? = some memory) (addr count : BitVec 32)

def sumWordsState (s : Wasm.Store) (memory : Wasm.Memory) (addr count : BitVec 32) (k : Nat) :
    Machine :=
  ⟨s, #[.i32 addr, .i32 count, .i32 (BitVec.ofNat 32 k),
    .i32 (BitVec.ofNat 32 (wordSum memory addr k))], []⟩

theorem sumWords_test {k : Nat} (inside : k ≤ count.toInt.toNat) :
    Instr.execSeq sumWordsCond e (sumWordsState s memory addr count k) =
      .next ((sumWordsState s memory addr count k).push
        (.ofBool (decide (k < count.toInt.toNat)))) := by
  rw [← ofNat_slt count inside]
  rfl

include index here

theorem sumWords_round (k : Nat) :
    Instr.execSeq sumWordsBody e (sumWordsState s memory addr count k) =
      if wordPlace addr k + 4 ≤ memory.size then .next (sumWordsState s memory addr count (k + 1))
      else .trap .outOfBounds s := by
  -- words of the address arithmetic wrap around as numbers do in the end
  have place : (addr + BitVec.ofNat 32 k * 4).toNat = wordPlace addr k := by
    rw [BitVec.toNat_add, BitVec.toNat_mul, BitVec.toNat_ofNat, wordPlace]
    change (addr.toNat + k % 2 ^ 32 * 4 % 2 ^ 32) % 2 ^ 32 = _
    omega
  have front : Instr.execSeq sumWordsPlace e (sumWordsState s memory addr count k) =
      .next ⟨s, (sumWordsState s memory addr count k).locals,
        [.i32 (addr + BitVec.ofNat 32 k * 4), .i32 (BitVec.ofNat 32 (wordSum memory addr k))]⟩ := rfl
  have sum : BitVec.ofNat 32 (wordSum memory addr k) +
      BitVec.ofNat 32 (memory.word (wordPlace addr k)) =
      BitVec.ofNat 32 (wordSum memory addr (k + 1)) := by
    rw [← BitVec.ofNat_add, wordSum, wordSum, Finset.sum_range_succ]
  have last : sumWordsState s memory addr count (k + 1) =
      ⟨s, #[.i32 addr, .i32 count, .i32 (BitVec.ofNat 32 k + 1), .i32 (BitVec.ofNat 32
        (wordSum memory addr k) + BitVec.ofNat 32 (memory.word (wordPlace addr k)))], []⟩ := by
    rw [sumWordsState, ← sum, BitVec.ofNat_add k 1]
    rfl
  rw [sumWordsBody, Instr.execSeq_append_next front, Instr.execSeq,
    Wasm.exec_load_word index here, place, last]
  by_cases inside : wordPlace addr k + 4 ≤ memory.size
  · rw [if_pos inside, if_pos inside]
    rfl
  · rw [if_neg inside, if_neg inside]

theorem sumWords_rounds {n : Nat} (most : n ≤ count.toInt.toNat)
    (inside : WordsInside memory addr n) :
    Rounds e sumWordsCond sumWordsBody (sumWordsState s memory addr count) n where
  empty _ _ := rfl
  holds k below := by rw [sumWords_test addr count (by omega), decide_eq_true (by omega)]
  goesOn k below := by rw [sumWords_round index here, if_pos (inside k below)]

theorem execSeq_sumWords (enough : count.toInt.toNat < e.rounds) :
    Instr.execSeq sumWordsCode e ⟨s, #[.i32 addr, .i32 count, .i32 0, .i32 0], []⟩ =
      if WordsInside memory addr count.toInt.toNat then
        .ret ((sumWordsState s memory addr count count.toInt.toNat).push
          (.i32 (BitVec.ofNat 32 (wordSum memory addr count.toInt.toNat))))
      else .trap .outOfBounds s := by
  have first : Instr.execSeq sumWordsSetup e ⟨s, #[.i32 addr, .i32 count, .i32 0, .i32 0], []⟩ =
      .next (sumWordsState s memory addr count 0) := rfl
  rw [sumWordsCode, List.append_assoc, Instr.execSeq_append_next first]
  split
  next inside =>
    have loop := (sumWords_rounds index here addr count (Nat.le_refl _) inside).stops enough
      (by rw [sumWords_test addr count (Nat.le_refl _), decide_eq_false (Nat.lt_irrefl _)])
    rw [Instr.execSeq_append_next loop]
    rfl
  next outside =>
    -- the first word outside ends the loop, and all words in front of it are read
    have some_ : ∃ k, k < count.toInt.toNat ∧ ¬ wordPlace addr k + 4 ≤ memory.size := by
      simpa [WordsInside] using outside
    obtain ⟨below, last⟩ := Nat.find_spec some_
    have inside : WordsInside memory addr (Nat.find some_) := fun k less => by
      have other := Nat.find_min some_ less
      omega
    have loop := (sumWords_rounds index here addr count (Nat.le_of_lt below) inside).traps (by omega)
      (by rw [sumWords_test addr count (Nat.le_of_lt below), decide_eq_true below])
      (by rw [sumWords_round index here, if_neg last])
    rw [Instr.execSeq_append, loop]

theorem execSeq_storeLoad (v : BitVec 64) :
    Instr.execSeq storeLoadCode e ⟨s, #[.i32 addr, .i64 v], []⟩ =
      if addr.toNat + 8 ≤ memory.size then
        .ret ⟨s.setMemory 0 (memory.poke addr.toNat (littleEndian 8 v.toNat)), #[.i32 addr, .i64 v],
          [.i64 v]⟩
      else .trap .outOfBounds s := by
  have write := Wasm.exec_store index here 3 #[.i32 addr, .i64 v] [] (.i64 v) addr
  simp only [Value.type, Value.bytes, length_littleEndian] at write
  have first : Instr.execSeq storeLoadCode e ⟨s, #[.i32 addr, .i64 v], []⟩ =
      Instr.execSeq storeLoadWrite e ⟨s, #[.i32 addr, .i64 v], [.i64 v, .i32 addr]⟩ := rfl
  rw [first, storeLoadWrite, Instr.execSeq, write]
  by_cases inside : addr.toNat + 8 ≤ memory.size
  · -- what was written is inside, so it is read again
    have load := Wasm.exec_load_poke index here 3 #[.i32 addr, .i64 v] [] (.i64 v) inside
    simp only [Value.type, Value.bytes] at load
    have second (t : Wasm.Store) :
        Instr.execSeq (.localGet 0 :: storeLoadRead) e ⟨t, #[.i32 addr, .i64 v], []⟩ =
          Instr.execSeq storeLoadRead e ⟨t, #[.i32 addr, .i64 v], [.i32 addr]⟩ := rfl
    rw [if_pos inside, if_pos inside]
    dsimp only
    rw [second, storeLoadRead, Instr.execSeq, load]
    rfl
  · rw [if_neg inside, if_neg inside]

end

section
variable (pages : Nat) (journal : List HostCall) {s : Wasm.Store} {memory : Wasm.Memory}
  (here : s.memories[0]? = some memory) {bounds : Bounds} (room : 0 < bounds.room)
  (addr : BitVec 32)

include here room

theorem call_sumWords (count : BitVec 32) (enough : count.toInt.toNat < bounds.rounds) :
    Instance.call bounds "sumWords" [.i32 addr, .i32 count]
        { memoryInstance pages journal with store := s } =
      if WordsInside memory addr count.toInt.toNat then
        .ok [.i32 (BitVec.ofNat 32 (wordSum memory addr count.toInt.toNat))]
          { memoryInstance pages journal with store := s }
      else .error (.trapped "sumWords" .outOfBounds)
        { memoryInstance pages journal with store := s } := by
  have offers : Instance.Offers { memoryInstance pages journal with store := s } "sumWords" 1
      ⟨[.num .i32, .num .i32], [.num .i32]⟩ [.num .i32, .num .i32] sumWordsCode :=
    ⟨rfl, rfl, by simp [Instance.funcType?, memoryInstance, FuncInstance.type]⟩
  have fits : [Wasm.ValType.num .i32, .num .i32] =
      [Value.i32 addr, .i32 count].map fun v => .num v.type := rfl
  have run := execSeq_sumWords
    (e := Instance.bodyEnv { memoryInstance pages journal with store := s } bounds 1) rfl here addr
    count enough
  split at run
  next inside =>
    rw [if_pos inside]
    exact offers.returns fits room room (by omega) (.inl run) (Nat.le_refl 1)
  next outside =>
    rw [if_neg outside]
    exact offers.traps fits room room (by omega) run

theorem call_storeLoad (v : BitVec 64) (some_ : 0 < bounds.rounds) :
    Instance.call bounds "storeLoad" [.i32 addr, .i64 v]
        { memoryInstance pages journal with store := s } =
      if addr.toNat + 8 ≤ memory.size then
        .ok [.i64 v] { memoryInstance pages journal with
          store := s.setMemory 0 (memory.poke addr.toNat (littleEndian 8 v.toNat)) }
      else .error (.trapped "storeLoad" .outOfBounds)
        { memoryInstance pages journal with store := s } := by
  have offers : Instance.Offers { memoryInstance pages journal with store := s } "storeLoad" 0
      ⟨[.num .i32, .num .i64], [.num .i64]⟩ [] storeLoadCode :=
    ⟨rfl, rfl, by simp [Instance.funcType?, memoryInstance, FuncInstance.type]⟩
  have fits : [Wasm.ValType.num .i32, .num .i64] =
      [Value.i32 addr, .i64 v].map fun v => .num v.type := rfl
  have run := execSeq_storeLoad
    (e := Instance.bodyEnv { memoryInstance pages journal with store := s } bounds 0) rfl here addr v
  split at run
  next inside =>
    rw [if_pos inside]
    exact offers.returns fits room room some_ (.inl run) (Nat.le_refl 1)
  next outside =>
    rw [if_neg outside]
    exact offers.traps fits room room some_ run

end

/-- Wherever the build compiles, it starts as an instance on which words are added up exactly and
numbers are read where they were written, whatever the memory holds and however large it is by then. -/
theorem words_and_stores (args : Arguments) (optimize validate : Bool) (bounds : Bounds)
    (journal : List HostCall) : ∃ library b, mount .memory args {} = .ok library b ∧
      ∀ bytes c, Build.compile { optimize } b = .ok bytes c →
        ∃ i, Build.start { optimize, validate } bounds (b, journal) = .ok i (b, journal) ∧
          i.memories = [(memoryKey, 0)] ∧
          ∀ (s : Wasm.Store) (memory : Wasm.Memory) (bounds : Bounds),
            s.memories[0]? = some memory → 0 < bounds.room → 0 < bounds.rounds →
            (∀ addr count : BitVec 32, count.toInt.toNat < bounds.rounds →
              Instance.call bounds "sumWords" [.i32 addr, .i32 count] { i with store := s } =
                if WordsInside memory addr count.toInt.toNat then
                  .ok [.i32 (BitVec.ofNat 32 (wordSum memory addr count.toInt.toNat))]
                    { i with store := s }
                else .error (.trapped "sumWords" .outOfBounds) { i with store := s }) ∧
            ∀ (addr : BitVec 32) (v : BitVec 64),
              if addr.toNat + 8 ≤ memory.size then
                ∃ after, memory.Rewritten after addr.toNat 8 v.toNat ∧
                  Instance.call bounds "storeLoad" [.i32 addr, .i64 v] { i with store := s } =
                    .ok [.i64 v] { i with store := s.setMemory 0 after }
              else Instance.call bounds "storeLoad" [.i32 addr, .i64 v] { i with store := s } =
                .error (.trapped "storeLoad" .outOfBounds) { i with store := s } := by
  refine ⟨_, memoryBuild args, mount_memory args, fun bytes c compiled => ?_⟩
  have most := isValid_memoryModule_iff.1 ((lowersTo_memoryModule args).valid_of_compile _ compiled).1
  have started := start_memoryBuild args most optimize validate bounds journal
  refine ⟨memoryInstance args.pages journal, started, rfl, fun s memory bounds here room some_ => ?_⟩
  constructor
  · intro addr count enough
    exact call_sumWords args.pages journal here room addr count enough
  · intro addr v
    have call := call_storeLoad args.pages journal here room addr v some_
    split at call
    next inside =>
      rw [if_pos inside]
      exact ⟨_, memory.rewritten_poke addr.toNat 8 v.toNat, call⟩
    next outside =>
      rw [if_neg outside]
      exact call

def wholeMemory : Wasm.Memory :=
  ((Wasm.Memory.ofLimits (memorySizes 65536)).poke 0xfffffffc [0xff, 0xff, 0xff, 0xff]).poke 0 [2]

theorem wordSum_wholeMemory : wordSum wholeMemory 0xfffffffc 2 = 2 ^ 32 + 1 := by
  have first : wordPlace 0xfffffffc 0 = 0xfffffffc := by decide
  have second : wordPlace 0xfffffffc 1 = 0 := by decide
  rw [wordSum, Finset.sum_range_succ, Finset.sum_range_one, first, second]
  simp [wholeMemory, Wasm.Memory.word, Wasm.Memory.poke, Wasm.Memory.byte, Std.HashMap.getD_insert,
    Wasm.Memory.ofLimits, Wasm.Memory.ofType]

def smallMemory : Wasm.Memory := .ofLimits (memorySizes 1)

def storeOf (memory : Wasm.Memory) : Wasm.Store := { globals := #[], memories := #[memory] }

/-- Addresses and sums that wrap around, a word that goes beyond the end, and a negative count. Of a
memory of one page the third word is outside. -/
theorem words_and_stores_of_wrapping : ∃ library b bytes i,
    mount .memory [("pages", .int 65536)] {} = .ok library b ∧
    Build.compile { optimize := false } b = .ok bytes b ∧
    Build.start { optimize := false } {} (b, []) = .ok i (b, []) ∧
    (Instance.call {} "sumWords" [.i32 0xfffffffc, .i32 2] { i with store := storeOf wholeMemory } =
        .ok [.i32 1] { i with store := storeOf wholeMemory } ∧
      Instance.call {} "sumWords" [.i32 0xfffffffd, .i32 2] { i with store := storeOf wholeMemory } =
        .error (.trapped "sumWords" .outOfBounds) { i with store := storeOf wholeMemory } ∧
      Instance.call {} "sumWords" [.i32 0, .i32 0x80000000] { i with store := storeOf wholeMemory } =
        .ok [.i32 0] { i with store := storeOf wholeMemory }) ∧
    Instance.call {} "sumWords" [.i32 65528, .i32 3] { i with store := storeOf smallMemory } =
        .error (.trapped "sumWords" .outOfBounds) { i with store := storeOf smallMemory } ∧
      Instance.call {} "storeLoad" [.i32 65529, .i64 7] { i with store := storeOf smallMemory } =
        .error (.trapped "storeLoad" .outOfBounds) { i with store := storeOf smallMemory } ∧
      ∃ after, smallMemory.Rewritten after 65528 8 7 ∧
        Instance.call {} "storeLoad" [.i32 65528, .i64 7] { i with store := storeOf smallMemory } =
          .ok [.i64 7] { i with store := (storeOf smallMemory).setMemory 0 after } := by
  obtain ⟨library, b, mounted, all⟩ := words_and_stores [("pages", .int 65536)] false true {} []
  obtain ⟨-, rfl⟩ := EStateM.Result.ok.inj ((mount_memory _).symm.trans mounted)
  have compiles := (lowersTo_memoryModule [("pages", .int 65536)]).compiles false true
    fun _ => isValid_memoryModule_iff.2 (by decide)
  obtain ⟨i, started, -, calls⟩ := all _ _ compiles
  refine ⟨library, _, _, i, mounted, compiles, started, ?_, ?_⟩
  · obtain ⟨sums, -⟩ := calls (storeOf wholeMemory) wholeMemory {} rfl (by decide) (by decide)
    have two : (2 : BitVec 32).toInt.toNat = 2 := by decide
    refine ⟨?_, ?_, ?_⟩
    · rw [sums 0xfffffffc 2 (by decide), if_pos (by decide), two, wordSum_wholeMemory]
      rfl
    · rw [sums 0xfffffffd 2 (by decide), if_neg (by decide)]
    · rw [sums 0 0x80000000 (by decide), if_pos (by decide)]
      rfl
  · obtain ⟨sums, stores⟩ := calls (storeOf smallMemory) smallMemory {} rfl (by decide) (by decide)
    refine ⟨?_, ?_, ?_⟩
    · rw [sums 65528 3 (by decide), if_neg (by decide)]
    · have store := stores 65529 7
      rwa [if_neg (by decide)] at store
    · have store := stores 65528 7
      rwa [if_pos (by decide)] at store

end WasmBuilder.Demo
