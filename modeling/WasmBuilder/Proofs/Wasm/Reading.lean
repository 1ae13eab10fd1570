import WasmBuilder.Proofs.Simplify.Operations

/-!
Reading back what was written.

A reader inverts the form in which something is written if it takes exactly these bytes off the front
of any list. Readers that come one after the other invert forms that stand one behind the other, so
that this goes from numbers and names up to bodies of functions.
-/

set_option autoImplicit false

namespace WasmBuilder.Wasm

namespace Leb128

theorem readSigned_signed (bits : Nat) (z : Int) (rest : List UInt8)
    (h : -(2 ^ (bits - 1)) ≤ z ∧ z < 2 ^ (bits - 1)) :
    readSigned bits (signed z ++ rest) = some (z, rest) := by
  induction z using signed.induct generalizing bits with
  | case1 z small =>
    -- the last byte, where the seventh bit is the sign
    have low : z.emod 128 = z % 128 := rfl
    have byte : (UInt8.ofNat (z % 128).toNat).toNat = (z % 128).toNat := by
      simp only [UInt8.toNat_ofNat']
      omega
    have short : (z % 128).toNat < 128 := by omega
    have seven : (z % 128).toNat % 128 = (z % 128).toNat := Nat.mod_eq_of_lt short
    have value :
        (if (z % 128).toNat < 64 then ((z % 128).toNat : Int) else (z % 128).toNat - 128) = z := by
      split <;> omega
    rw [signed, if_pos small, low]
    simp only [List.cons_append, List.nil_append, readSigned, byte, seven, short, if_true, value, h,
      and_self]
  | case2 z large ih =>
    -- the quotient is read with seven bits less
    have low : z.emod 128 = z % 128 := rfl
    have byte : (continued (z % 128).toNat).toNat = (z % 128).toNat + 128 := by
      simp only [continued, UInt8.toNat_ofNat']
      omega
    have seven : ((z % 128).toNat + 128) % 128 = (z % 128).toNat := by omega
    have more : ¬ (z % 128).toNat + 128 < 128 := by omega
    have wide : ¬ bits ≤ 7 := by
      intro narrow
      have bound : 2 ^ (bits - 1) ≤ 2 ^ 6 := Nat.pow_le_pow_right (by decide) (by omega)
      have bound : (2 : Int) ^ (bits - 1) ≤ 2 ^ 6 := by exact_mod_cast bound
      omega
    have split : (2 : Int) ^ (bits - 1) = 128 * 2 ^ (bits - 7 - 1) := by
      rw [show bits - 1 = 7 + (bits - 7 - 1) by omega, Int.pow_add]
      rfl
    have inside : -(2 ^ (bits - 7 - 1)) ≤ z / 128 ∧ z / 128 < 2 ^ (bits - 7 - 1) := by omega
    rw [signed, if_neg large, low]
    simp only [List.cons_append, readSigned, byte, seven, more, if_false, wide,
      ih (bits - 7) inside, Option.map_some, Option.some.injEq, Prod.mk.injEq, and_true]
    omega

end Leb128

theorem length_le_flatMap {α : Type} {form : α → List UInt8} {xs : List α}
    (some_ : ∀ x ∈ xs, form x ≠ []) : xs.length ≤ (xs.flatMap form).length := by
  induction xs with
  | nil => exact Nat.zero_le _
  | cons x xs ih =>
    have first := List.length_pos_iff.2 (some_ x List.mem_cons_self)
    have others := ih fun y mem => some_ y (List.mem_cons_of_mem x mem)
    simp only [List.flatMap_cons, List.length_cons, List.length_append]
    omega

section
variable {α β : Type}

/-- The reader takes these bytes off the front of any list, and makes `a` of them. Lengths are
written as words, so longer lists of bytes are left out. -/
def Reads (r : Reader α) (bytes : List UInt8) (a : α) : Prop :=
  bytes.length < 2 ^ 32 → ∀ rest, r (bytes ++ rest) = some (a, rest)

namespace Reads

theorem pure (a : α) : Reads (Pure.pure a) [] a := fun _ _ => rfl

theorem bind {r : Reader α} {f : α → Reader β} {first second : List UInt8} {a : α} {b : β}
    (here : Reads r first a) (then_ : Reads (f a) second b) :
    Reads (r >>= f) (first ++ second) b := by
  intro small rest
  rw [List.length_append] at small
  have before := here (by omega) (second ++ rest)
  have after := then_ (by omega) rest
  rw [List.append_assoc]
  simp only [Bind.bind, StateT.bind, before, Option.bind_some, after]

theorem map {r : Reader α} {bytes : List UInt8} {a : α} (here : Reads r bytes a) (f : α → β) :
    Reads (do return f (← r)) bytes (f a) := by
  have both := here.bind (f := fun a => Pure.pure (f a)) (pure (f a))
  rwa [List.append_nil] at both

theorem of_eq {r : Reader α} {bytes bytes' : List UInt8} {a : α} (here : Reads r bytes a)
    (same : bytes' = bytes) : Reads r bytes' a := same ▸ here

theorem byte (b : UInt8) : Reads Reader.byte [b] b := fun _ _ => rfl

theorem expect (b : UInt8) : Reads (Reader.expect b) [b] () := by
  intro _ rest
  simp [Reader.expect, Reader.byte, Bind.bind, StateT.bind, Pure.pure, StateT.pure]

theorem unsigned {bits n : Nat} (fits : n < 2 ^ bits) :
    Reads (Leb128.readUnsigned bits) (Leb128.unsigned n) n :=
  fun _ rest => Leb128.readUnsigned_unsigned bits n rest fits

theorem u32 {n : Nat} (fits : n < 2 ^ 32) : Reads Reader.u32 (Leb128.unsigned n) n := unsigned fits

theorem signed {bits : Nat} {z : Int} (fits : -(2 ^ (bits - 1)) ≤ z ∧ z < 2 ^ (bits - 1)) :
    Reads (Leb128.readSigned bits) (Leb128.signed z) z :=
  fun _ rest => Leb128.readSigned_signed bits z rest fits

theorem take (bytes : List UInt8) : Reads (Reader.take bytes.length) bytes bytes := by
  intro _ rest
  simp [Reader.take]

/-- A reader that inverts the form of items inverts their forms in a row. -/
theorem times {item : Reader β} {form : α → List UInt8} {f : α → β} (xs : List α)
    (each : ∀ x ∈ xs, Reads item (form x) (f x)) :
    Reads (Reader.times item xs.length) (xs.flatMap form) (xs.map f) := by
  induction xs with
  | nil => exact pure []
  | cons x xs ih =>
    have first := each x List.mem_cons_self
    have others := ih fun y mem => each y (List.mem_cons_of_mem x mem)
    exact first.bind (others.map fun ys => f x :: ys)

theorem vec {item : Reader β} {form : α → List UInt8} {f : α → β} (xs : List α)
    (each : ∀ x ∈ xs, Reads item (form x) (f x)) (some_ : ∀ x ∈ xs, form x ≠ []) :
    Reads (Reader.vec item) (encodeVec form xs) (xs.map f) := by
  intro small
  -- the number of items is written as a word where the items are
  have count := length_le_flatMap some_
  have few : xs.length < 2 ^ 32 := by
    rw [encodeVec, List.length_append] at small
    omega
  exact ((u32 few).bind (times xs each)) small

theorem items {item : Reader α} {form : α → List UInt8} (xs : List α)
    (each : ∀ x ∈ xs, Reads item (form x) x) (some_ : ∀ x ∈ xs, form x ≠ []) :
    Reads (Reader.vec item) (encodeVec form xs) xs := by
  have all := vec xs each some_
  rwa [List.map_id'] at all

theorem sizedBytes (bytes : List UInt8) : Reads Reader.sizedBytes (encodeBytes bytes) bytes := by
  intro small
  have few : bytes.length < 2 ^ 32 := by
    rw [encodeBytes, List.length_append] at small
    omega
  exact ((u32 few).bind (take bytes)) small

end Reads

end

theorem toList_loop (bytes : ByteArray) (i : Nat) (acc : List UInt8) :
    ByteArray.toList.loop bytes i acc = acc.reverse ++ bytes.data.toList.drop i := by
  induction i, acc using ByteArray.toList.loop.induct bytes with
  | case1 i acc inside ih =>
    rw [ByteArray.toList.loop, if_pos inside, ih]
    have here : i < bytes.data.toList.length := inside
    have byte : bytes.get! i = bytes.data.toList[i] := getElem!_pos bytes.data i inside
    rw [List.reverse_cons, List.append_assoc, List.drop_eq_getElem_cons here, byte]
    rfl
  | case2 i acc outside =>
    have past : bytes.data.toList.length ≤ i := Nat.le_of_not_lt outside
    rw [ByteArray.toList.loop, if_neg outside, List.drop_eq_nil_of_le past, List.append_nil]

theorem toList_toUTF8 (s : String) : s.toUTF8.toList = s.toByteArray.data.toList := by
  rw [ByteArray.toList, toList_loop]
  rfl

def BlockType.fits : BlockType → Bool
  | .empty | .value _ => true
  | .index i => i < 2 ^ 32

namespace Reads

theorem name {s : String} (short : s.utf8ByteSize ≤ maxNameBytes) :
    Reads Reader.name (encodeName s) s := by
  have bytes : (⟨s.toUTF8.toList.toArray⟩ : ByteArray) = s.toByteArray := by
    rw [toList_toUTF8]
  have text : String.fromUTF8? ⟨s.toUTF8.toList.toArray⟩ = some s := by
    rw [bytes, String.fromUTF8?, dif_pos s.isValidUTF8]
    rfl
  have length : ¬ maxNameBytes < s.toUTF8.toList.length := by
    rw [toList_toUTF8]
    exact Nat.not_lt.2 short
  unfold Reader.name encodeName
  refine ((sizedBytes _).bind ?_).of_eq (List.append_nil _).symm
  rw [text, if_neg length]
  exact pure s

theorem valType (t : ValType) : Reads Reader.valType [t.code] t := by
  intro _ rest
  rcases t with (_ | _ | _ | _) | _ | (_ | _) <;> rfl

theorem refType (t : RefType) : Reads Reader.refType [t.code] t := by
  intro _ rest
  cases t <;> rfl

theorem funcType (t : FuncType) : Reads Reader.funcType t.encode t := by
  have types (ts : List ValType) :
      Reads (Reader.vec Reader.valType) (encodeVec (fun t => [t.code]) ts) ts :=
    items ts (fun t _ => valType t) fun _ _ => List.cons_ne_nil _ _
  exact (expect 0x60).bind ((types t.params).bind ((types t.results).map (FuncType.mk t.params)))

def limitFlags (address : AddressType) (isShared bounded : Bool) : UInt8 :=
  (if bounded then 1 else 0) + (if isShared then 2 else 0) + if address = .w64 then 4 else 0

theorem limitFlags_tell (address : AddressType) (isShared bounded : Bool) :
    let flags := limitFlags address isShared bounded
    ¬ 8 ≤ flags ∧ (if flags &&& 4 = 0 then AddressType.w32 else .w64) = address ∧
      decide (flags &&& 2 ≠ 0) = isShared ∧ decide (flags &&& 1 = 0) = !bounded := by
  cases address <;> cases isShared <;> cases bounded <;> decide

theorem limits {l : Limits} {address : AddressType} {isShared : Bool}
    (least : l.minimum < 2 ^ address.bits) (most : ∀ m ∈ l.maximum, m < 2 ^ address.bits) :
    Reads Reader.limits (encodeLimits address isShared l) (address, isShared, l) := by
  obtain ⟨minimum, maximum⟩ := l
  obtain ⟨known, wide, shared, bounded⟩ := limitFlags_tell address isShared maximum.isSome
  refine (byte (limitFlags address isShared maximum.isSome)).bind ?_
  -- what is read behind the flags only depends on what they tell
  generalize limitFlags address isShared maximum.isSome = flags at known wide shared bounded
  rw [if_neg known]
  dsimp only
  rw [wide, shared]
  cases maximum with
  | none =>
    simp only [of_decide_eq_true bounded, if_true]
    exact ((unsigned least).map fun n => (address, isShared, Limits.mk n none)).of_eq
      (List.append_nil _)
  | some m =>
    simp only [of_decide_eq_false bounded, if_false]
    exact (unsigned least).bind ((unsigned (most m rfl)).map fun m =>
      (address, isShared, Limits.mk minimum (some m)))

theorem tableType {t : TableType} (least : t.limits.minimum < 2 ^ t.address.bits)
    (most : ∀ m ∈ t.limits.maximum, m < 2 ^ t.address.bits) :
    Reads Reader.tableType t.encode t :=
  (refType t.element).bind ((limits least most).bind (pure t) |>.of_eq (List.append_nil _).symm)

theorem memoryType {t : MemoryType} (least : t.limits.minimum < 2 ^ t.address.bits)
    (most : ∀ m ∈ t.limits.maximum, m < 2 ^ t.address.bits) :
    Reads Reader.memoryType t.encode t :=
  (limits least most).bind (pure t) |>.of_eq (List.append_nil _).symm

theorem globalType (t : GlobalType) : Reads Reader.globalType t.encode t := by
  refine (valType t.type).bind ?_
  obtain ⟨type, _ | _⟩ := t <;> exact fun _ _ => rfl

theorem head_signed (n : Nat) : ∃ b rest, Leb128.signed n = b :: rest ∧ b ≠ 0x40 ∧
    ¬ (b = nullableByte ∨ (ValType.ofCode? b).isSome) := by
  -- of bytes, all forms with another meaning lie between 64 and 127
  have apart (b : UInt8) (outside : b.toNat < 64 ∨ 128 ≤ b.toNat) : b ≠ 0x40 ∧
      ¬ (b = nullableByte ∨ (ValType.ofCode? b).isSome) := by
    revert b
    decide +kernel
  rw [Leb128.signed]
  split
  next small =>
    refine ⟨_, _, rfl, apart _ (.inl ?_)⟩
    have low : ((n : Int).emod 128).toNat = n := by
      show ((n : Int) % 128).toNat = n
      omega
    rw [low, UInt8.toNat_ofNat']
    omega
  next =>
    refine ⟨_, _, rfl, apart _ (.inr ?_)⟩
    rw [Leb128.continued, UInt8.toNat_ofNat']
    omega

theorem blockType {t : BlockType} (small : t.fits = true) :
    Reads Reader.blockType t.encode t := by
  cases t with
  | empty => exact fun _ _ => rfl
  | value t =>
    intro _ rest
    rcases t with (_ | _ | _ | _) | _ | (_ | _) <;> rfl
  | index i =>
    intro _ rest
    obtain ⟨b, tail, form, other, apart⟩ := head_signed i
    have inside : i < 2 ^ 32 := of_decide_eq_true small
    have number := Leb128.readSigned_signed 33 i rest (by omega)
    rw [BlockType.encode, form, List.cons_append]
    rw [form, List.cons_append] at number
    unfold Reader.blockType
    split
    next same => cases same; exact absurd rfl other
    next same =>
      cases same
      rw [if_neg apart, number]
    next same => cases same

theorem memArg {a : MemArg} (align : a.align < 64) (offset : a.offset < 2 ^ 64)
    (memory : a.memory < 2 ^ 32) : Reads Reader.memArg (Instr.encodeMemArg a) a := by
  obtain ⟨align', offset', memory'⟩ := a
  dsimp only at align offset memory
  unfold Instr.encodeMemArg
  split
  next first =>
    -- the first memory is not named, and no bit announces it
    cases first
    have plain : ¬ align' / 64 % 2 = 1 := by omega
    have last := (unsigned offset).map fun n => MemArg.mk align' n 0
    refine (u32 (show align' < 2 ^ 32 by omega)).bind ?_
    simp only [plain, if_false, Nat.not_le.2 align]
    exact (pure 0).bind last
  next =>
    have named : (align' + 64) / 64 % 2 = 1 := by omega
    have less : align' + 64 - 64 = align' := Nat.add_sub_cancel ..
    refine ((u32 (show align' + 64 < 2 ^ 32 by omega)).bind ?_).of_eq (List.append_assoc ..)
    simp only [named, if_true, less, Nat.not_le.2 align, if_false]
    exact (u32 memory).bind ((unsigned offset).map fun n => MemArg.mk align' n memory')

theorem value (v : Value) : Reads (Reader.value v.type) v.bytes v := by
  have read := (take v.bytes).map (Value.ofBytes v.type)
  rwa [v.length_bytes, v.ofBytes_bytes] at read

end Reads

namespace Instr

mutual

def fits : Instr → Bool
  | .drop | .ret | .const _ | .binary _ | .unary _ => true
  | .localGet i | .localSet i | .globalGet i | .globalSet i | .memorySize i | .memoryGrow i | .br i
  | .brIf i | .call i => i < 2 ^ 32
  | .callIndirect t table => t < 2 ^ 32 && table < 2 ^ 32
  | .load _ a | .store _ a => a.align < 64 && a.offset < 2 ^ 64 && a.memory < 2 ^ 32
  | .block t body | .loop t body | .ifThen t body => t.fits && fitsSeq body
  | .ifElse t first second => t.fits && fitsSeq first && fitsSeq second
  | _ => false

def fitsSeq : List Instr → Bool
  | [] => true
  | i :: rest => fits i && fitsSeq rest

end

def hasBody : Instr → Bool
  | .block _ _ | .loop _ _ | .ifThen _ _ | .ifElse _ _ _ => true
  | _ => false

/-- An instruction is read by its first byte, which ends no sequence and opens no body. -/
structure Opens (announced : Bool) (i : Instr) (code : UInt8) (operands : List UInt8) : Prop where
  form : i.encode = code :: operands
  single : code ∉ ([0x0b, 0x05, 0x02, 0x03, 0x04] : List UInt8)
  read : Reads (Reader.plainInstr announced code) operands i

variable (announced : Bool)

theorem opens_const (v : Value) : ∃ code operands, Opens announced (.const v) code operands := by
  cases v with
  | i32 v =>
    have read := (@Reads.signed 32 _ ⟨v.le_toInt, v.toInt_lt⟩).map
      fun z => Instr.const (.i32 (BitVec.ofInt 32 z))
    rw [BitVec.ofInt_toInt] at read
    exact ⟨_, _, rfl, by decide, read⟩
  | i64 v =>
    have read := (@Reads.signed 64 _ ⟨v.le_toInt, v.toInt_lt⟩).map
      fun z => Instr.const (.i64 (BitVec.ofInt 64 z))
    rw [BitVec.ofInt_toInt] at read
    exact ⟨_, _, rfl, by decide, read⟩
  | f32 v | f64 v => exact ⟨_, _, rfl, by decide, (Reads.value _).map Instr.const⟩

theorem opens_of_fits {i : Instr} (small : i.fits = true) (flat : i.hasBody = false) :
    ∃ code operands, Opens announced i code operands := by
  cases i with
  | drop | ret => exact ⟨_, _, rfl, by decide, .pure _⟩
  | localGet i | localSet i | globalGet i | globalSet i | memorySize i | memoryGrow i | br i
  | brIf i | call i =>
    exact ⟨_, _, rfl, by decide, (Reads.u32 (of_decide_eq_true small)).map _⟩
  | callIndirect t table =>
    obtain ⟨type, table⟩ := Bool.and_eq_true_iff.1 small
    exact ⟨_, _, rfl, by decide, (Reads.u32 (of_decide_eq_true type)).bind
      ((Reads.u32 (of_decide_eq_true table)).map _)⟩
  | binary op =>
    refine ⟨op.code, [], rfl, ?_, fun _ => op.plainInstr_code announced⟩
    rcases op with ⟨w, op⟩ | ⟨w, op⟩ | ⟨w, op⟩ | ⟨w, op⟩ <;> cases w <;> cases op <;> decide
  | unary op =>
    refine ⟨op.code, [], rfl, ?_, fun _ => op.plainInstr_code announced⟩
    cases op with
    | eqz w | neg w | abs w | sqrt w => cases w <;> decide
    | wrap | extendS | extendU | demote | promote => decide
    | convert target source | trunc target source => cases target <;> cases source <;> decide
  | const v => exact opens_const announced v
  | load t a | store t a =>
    simp only [fits, Bool.and_eq_true, decide_eq_true_eq] at small
    have read := Reads.memArg small.1.1 small.1.2 small.2
    cases t <;> exact ⟨_, _, rfl, by decide, read.map _⟩
  | block | loop | ifThen | ifElse => cases flat
  | _ => cases small

end Instr

def Reader.Terminator.code : Reader.Terminator → UInt8
  | .stop => 0x0b
  | .otherwise => 0x05

section
variable {announced : Bool} {bound : Nat}

/-- An instruction without a body in front of others. -/
theorem Instr.Opens.cons {i : Instr} {code : UInt8} {operands bytes : List UInt8} {is : List Instr}
    {t : Reader.Terminator} (opens : Instr.Opens announced i code operands)
    (later : Reads (Reader.instrs announced bound) bytes (is, t)) :
    Reads (Reader.instrs announced (bound + 1)) (i.encode ++ bytes) (i :: is, t) := by
  have single := opens.single
  simp only [List.mem_cons, List.not_mem_nil, or_false, not_or] at single
  obtain ⟨stop, otherwise, block, loop, choice⟩ := single
  rw [opens.form]
  refine (Reads.byte code).bind ?_
  -- the byte is none of those that are looked at first
  simp only
  exact opens.read.bind (later.map _)

omit bound in
theorem shorter {bound : Nat} {b : UInt8} {t : BlockType} {body : List Instr}
    (inside : (b :: t.encode ++ Instr.encodeSeq body ++ [0x0b]).length ≤ bound) :
    (Instr.encodeSeq body).length < bound := by
  simp only [List.length_append, List.length_cons] at inside
  omega

end

theorem Instr.encode_ne_nil (i : Instr) : i.encode ≠ [] := by
  cases i with
  | const v => cases v <;> exact List.cons_ne_nil _ _
  | machineUnary op =>
    unfold Instr.encode encodeOpCode
    cases op.code <;> exact List.cons_ne_nil _ _
  | _ => exact List.cons_ne_nil _ _

section
variable (announced : Bool)

mutual

/-- An instruction in front of others. The bound counts down with each instruction, and a body is
shorter than what it stands in. -/
theorem reads_cons (i : Instr) (small : i.fits = true) {bound : Nat}
    (inside : i.encode.length ≤ bound) {bytes : List UInt8} {is : List Instr} {t : Reader.Terminator}
    (later : Reads (Reader.instrs announced bound) bytes (is, t)) :
    Reads (Reader.instrs announced (bound + 1)) (i.encode ++ bytes) (i :: is, t) := by
  cases i with
  | block type body =>
    obtain ⟨type', body'⟩ := Bool.and_eq_true_iff.1 small
    have inner := reads_seq body body' (shorter inside) .stop
    refine .of_eq ((Reads.byte 0x02).bind ((Reads.blockType type').bind
      (inner.bind ((Reads.pure _).bind (later.map _))))) ?_
    simp [Instr.encode, Reader.Terminator.code]
  | loop type body =>
    obtain ⟨type', body'⟩ := Bool.and_eq_true_iff.1 small
    have inner := reads_seq body body' (shorter inside) .stop
    refine .of_eq ((Reads.byte 0x03).bind ((Reads.blockType type').bind
      (inner.bind ((Reads.pure _).bind (later.map _))))) ?_
    simp [Instr.encode, Reader.Terminator.code]
  | ifThen type body =>
    obtain ⟨type', body'⟩ := Bool.and_eq_true_iff.1 small
    have inner := reads_seq body body' (shorter inside) .stop
    refine .of_eq ((Reads.byte 0x04).bind ((Reads.blockType type').bind
      (inner.bind ((Reads.pure _).bind (later.map _))))) ?_
    simp [Instr.encode, Reader.Terminator.code]
  | ifElse type first second =>
    obtain ⟨both, second'⟩ := Bool.and_eq_true_iff.1 small
    obtain ⟨type', first'⟩ := Bool.and_eq_true_iff.1 both
    have within : (Instr.encodeSeq first).length < bound ∧
        (Instr.encodeSeq second).length < bound := by
      simp only [Instr.encode, List.length_append, List.length_cons] at inside
      omega
    -- only the first body ends in front of another one
    have yes := reads_seq first first' within.1 .otherwise
    have no := reads_seq second second' within.2 .stop
    refine .of_eq ((Reads.byte 0x04).bind ((Reads.blockType type').bind
      (yes.bind (no.bind ((Reads.pure _).bind (later.map _)))))) ?_
    simp [Instr.encode, Reader.Terminator.code]
  | _ =>
    obtain ⟨code, operands, opens⟩ := Instr.opens_of_fits announced small rfl
    exact opens.cons later

theorem reads_seq (is : List Instr) (small : Instr.fitsSeq is = true) {bound : Nat}
    (inside : (Instr.encodeSeq is).length < bound) (t : Reader.Terminator) :
    Reads (Reader.instrs announced bound) (Instr.encodeSeq is ++ [t.code]) (is, t) := by
  cases bound with
  | zero => cases inside
  | succ bound =>
    cases is with
    | nil => cases t <;> exact (Reads.byte _).bind (Reads.pure _)
    | cons i rest =>
      obtain ⟨first, others⟩ := Bool.and_eq_true_iff.1 small
      have length : (Instr.encodeSeq (i :: rest)).length =
          i.encode.length + (Instr.encodeSeq rest).length := List.length_append
      rw [length] at inside
      -- the bound is one higher than the bytes that are left, and each instruction takes some
      have taken := List.length_pos_iff.2 i.encode_ne_nil
      have later := reads_seq rest others (show _ < bound by omega) t
      rw [Instr.encodeSeq, List.append_assoc]
      exact reads_cons i first (by omega) later

end

theorem Reads.expr {body : List Instr} (small : Instr.fitsSeq body = true) :
    Reads (Reader.expr announced) (encodeExpr body) body := by
  intro short rest
  have inside : (Instr.encodeSeq body).length < (encodeExpr body ++ rest).length + 1 := by
    simp only [encodeExpr, List.length_append]
    omega
  have read := reads_seq announced body small inside .stop short rest
  simp only [Reader.expr, Bind.bind, StateT.bind, get, getThe, MonadStateOf.get, StateT.get, Pure.pure]
  exact (congrArg (Option.bind · _) read).trans rfl

end

end WasmBuilder.Wasm
