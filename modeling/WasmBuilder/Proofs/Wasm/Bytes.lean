import WasmBuilder.Proofs.Wasm.Linking

/-!
Bytes of a memory, and numbers that stand in them.

Writing changes the bytes that it is about, and nothing else. A number that is read where one was just
written is that number.
-/

set_option autoImplicit false

namespace WasmBuilder.Wasm

theorem getElem?_littleEndian {count : Nat} (n : Nat) {j : Nat} (inside : j < count) :
    (littleEndian count n)[j]? = some (UInt8.ofNat (n / 256 ^ j % 256)) := by
  induction count generalizing n j with
  | zero => cases inside
  | succ count ih =>
    cases j with
    | zero => simp [littleEndian]
    | succ j =>
      rw [littleEndian, List.getElem?_cons_succ, ih _ (Nat.lt_of_succ_lt_succ inside), Nat.pow_succ',
        Nat.div_div_eq_div_mul]

namespace Memory

variable {m : Memory} {addr a : Nat}

@[simp] theorem size_poke (m : Memory) (addr : Nat) (bytes : List UInt8) :
    (m.poke addr bytes).size = m.size := by
  induction bytes generalizing m addr with
  | nil => rfl
  | cons b rest ih => rw [poke, ih]; rfl

@[simp] theorem type_poke (m : Memory) (addr : Nat) (bytes : List UInt8) :
    (m.poke addr bytes).type = m.type := by
  induction bytes generalizing m addr with
  | nil => rfl
  | cons b rest ih => rw [poke, ih]

@[simp] theorem pages_poke (m : Memory) (addr : Nat) (bytes : List UInt8) :
    (m.poke addr bytes).pages = m.pages := by
  induction bytes generalizing m addr with
  | nil => rfl
  | cons b rest ih => rw [poke, ih]

theorem byte_poke_of_outside {bytes : List UInt8} (outside : a < addr ∨ addr + bytes.length ≤ a) :
    (m.poke addr bytes).byte a = m.byte a := by
  induction bytes generalizing m addr with
  | nil => rfl
  | cons b rest ih =>
    -- the bytes behind the first one begin one further
    rw [List.length_cons] at outside
    have other : (addr == a) = false := beq_false_of_ne (by omega)
    rw [poke, ih (by omega)]
    simp [byte, Std.HashMap.getD_insert, other]

theorem byte_poke (addr : Nat) {bytes : List UInt8} {n : Nat} {b : UInt8}
    (here : bytes[n]? = some b) : (m.poke addr bytes).byte (addr + n) = b := by
  induction bytes generalizing m addr n with
  | nil => cases here
  | cons first rest ih =>
    rw [poke]
    cases n with
    | zero =>
      cases here
      -- the bytes behind leave the first one alone
      refine (byte_poke_of_outside (.inl (Nat.lt_add_one addr))).trans ?_
      simp [byte]
    | succ n => rw [← ih (addr + 1) here, Nat.add_assoc, Nat.add_comm 1]

theorem read_poke {bytes : List UInt8} (inside : addr + bytes.length ≤ m.size) :
    (m.poke addr bytes).read addr bytes.length = some bytes := by
  have fits : (m.poke addr bytes).holds addr bytes.length = true := by
    rw [holds, size_poke]
    exact decide_eq_true inside
  rw [read, if_pos fits]
  congr 1
  refine List.ext_getElem (by simp) fun n _ within => ?_
  rw [List.getElem_map, List.getElem_range]
  exact byte_poke addr (List.getElem?_eq_getElem within)

/-- Two memories that differ in `count` bytes from `addr` on, which hold a number in the later one. -/
structure Rewritten (before after : Memory) (addr count n : Nat) : Prop where
  type : after.type = before.type
  pages : after.pages = before.pages
  number : ∀ j < count, after.byte (addr + j) = UInt8.ofNat (n / 256 ^ j % 256)
  others : ∀ a, a < addr ∨ addr + count ≤ a → after.byte a = before.byte a

theorem rewritten_poke (m : Memory) (addr count n : Nat) :
    m.Rewritten (m.poke addr (littleEndian count n)) addr count n where
  type := type_poke ..
  pages := pages_poke ..
  number _ inside := byte_poke addr (getElem?_littleEndian n inside)
  others _ outside := byte_poke_of_outside (by rwa [length_littleEndian])

def word (m : Memory) (addr : Nat) : Nat :=
  (m.byte addr).toNat + 2 ^ 8 * (m.byte (addr + 1)).toNat + 2 ^ 16 * (m.byte (addr + 2)).toNat +
    2 ^ 24 * (m.byte (addr + 3)).toNat

theorem read_word (m : Memory) (addr : Nat) : m.read addr 4 =
    if addr + 4 ≤ m.size then
      some [m.byte addr, m.byte (addr + 1), m.byte (addr + 2), m.byte (addr + 3)]
    else none := by
  unfold read holds
  simp only [decide_eq_true_eq]
  rfl

theorem word_eq (m : Memory) (addr : Nat) : fromLittleEndian
    [m.byte addr, m.byte (addr + 1), m.byte (addr + 2), m.byte (addr + 3)] = m.word addr := by
  simp only [fromLittleEndian, word]
  omega

end Memory

section
variable {e : Env} {s : Store} {memory : Memory} (index : e.memories[0]? = some 0)
  (here : s.memories[0]? = some memory) (align : Nat) (locals : Array Datum) (rest : List Datum)

include here

theorem poke_eq_setMemory (addr : Nat) (bytes : List UInt8) :
    s.poke 0 addr bytes = s.setMemory 0 (memory.poke addr bytes) := by
  have same : s.memories.modify 0 (·.poke addr bytes) =
      s.memories.setIfInBounds 0 (memory.poke addr bytes) := by
    apply Array.ext_getElem?
    intro i
    rw [Array.getElem?_modify, Array.getElem?_setIfInBounds]
    cases i with
    | zero =>
      obtain ⟨inside, rfl⟩ := Array.getElem?_eq_some_iff.1 here
      simp [inside]
    | succ i => simp
  rw [Store.poke, Store.setMemory, same]

theorem memory_setMemory (other : Memory) : (s.setMemory 0 other).memories[0]? = some other := by
  have inside : 0 < s.memories.size := (Array.getElem?_eq_some_iff.1 here).1
  rw [Store.setMemory, Array.getElem?_setIfInBounds_self_of_lt inside]

include index

theorem exec_store (v : Value) (addr : BitVec 32) : (Instr.store v.type ⟨align, 0, 0⟩).exec e
    ⟨s, locals, .num v :: .i32 addr :: rest⟩ =
      if addr.toNat + v.bytes.length ≤ memory.size then
        .next ⟨s.setMemory 0 (memory.poke addr.toNat v.bytes), locals, rest⟩
      else .trap .outOfBounds s := by
  have holds : s.holds 0 addr.toNat v.bytes.length =
      decide (addr.toNat + v.bytes.length ≤ memory.size) := by
    rw [Store.holds, here]
    rfl
  rw [← poke_eq_setMemory here]
  simp only [Instr.exec, Machine.storeNum, Machine.storeBytes, Machine.bytesOf?, if_true, index]
  change (if s.holds 0 addr.toNat v.bytes.length then _ else _) = _
  rw [holds]
  simp only [decide_eq_true_eq]
  rfl

theorem exec_load (t : NumType) (addr : BitVec 32) : (Instr.load t ⟨align, 0, 0⟩).exec e
    ⟨s, locals, .i32 addr :: rest⟩ =
      match memory.read addr.toNat t.byteWidth with
      | some bytes => .next ⟨s, locals, .num (.ofBytes t bytes) :: rest⟩
      | none => .trap .outOfBounds s := by
  have found : s.memory? e 0 = some (0, memory) := by
    simp [Store.memory?, index, here]
  simp only [Instr.exec, Machine.load, Machine.loadBytes, found]
  rfl

theorem exec_load_poke (v : Value) {addr : BitVec 32}
    (inside : addr.toNat + v.bytes.length ≤ memory.size) : (Instr.load v.type ⟨align, 0, 0⟩).exec e
      ⟨s.setMemory 0 (memory.poke addr.toNat v.bytes), locals, .i32 addr :: rest⟩ =
        .next ⟨s.setMemory 0 (memory.poke addr.toNat v.bytes), locals, .num v :: rest⟩ := by
  rw [exec_load index (memory_setMemory here _), ← v.length_bytes, Memory.read_poke inside]
  dsimp only
  rw [v.ofBytes_bytes]

theorem exec_load_word (addr : BitVec 32) : (Instr.load .i32 ⟨align, 0, 0⟩).exec e
    ⟨s, locals, .i32 addr :: rest⟩ =
      if addr.toNat + 4 ≤ memory.size then
        .next ⟨s, locals, .i32 (BitVec.ofNat 32 (memory.word addr.toNat)) :: rest⟩
      else .trap .outOfBounds s := by
  rw [exec_load index here, show NumType.i32.byteWidth = 4 from rfl, Memory.read_word]
  by_cases inside : addr.toNat + 4 ≤ memory.size
  · rw [if_pos inside, if_pos inside, ← Memory.word_eq]
    rfl
  · rw [if_neg inside, if_neg inside]

end

end WasmBuilder.Wasm
