import WasmBuilder.Proofs.Lowering.Written
import WasmBuilder.Wasm.Encode

/-!
The stream of instructions that code is written as, and what that of lowered code is made of.

Structured code is written as one stream of words, in which a control instruction is a word where it
begins, where its second part begins, and where it ends. The bytes of code are those of its words. Each
stretch of the stream of lowered code either leaves machine locals alone, accesses a variable, or is a
spill: the numbers of a composite are stored in scratch locals, and some of them are loaded again right
behind.
-/

set_option autoImplicit false

namespace WasmBuilder

namespace Wasm

inductive Word where
  | single (i : Instr)
  | block (type : BlockType)
  | loop (type : BlockType)
  | choose (type : BlockType)
  | otherwise
  | ends

namespace Word

def encode : Word → List UInt8
  | single i => i.encode
  | block type => 0x02 :: type.encode
  | loop type => 0x03 :: type.encode
  | choose type => 0x04 :: type.encode
  | otherwise => [0x05]
  | ends => [0x0b]

def local? : Word → Option Nat
  | single (.localGet k) | single (.localSet k) | single (.localTee k) => some k
  | _ => none

def target? : Word → Option Nat
  | single (.localSet k) | single (.localTee k) => some k
  | _ => none

end Word

namespace Instr

mutual

def words : Instr → List Word
  | .block type body => .block type :: (wordsSeq body ++ [Word.ends])
  | .loop type body => .loop type :: (wordsSeq body ++ [Word.ends])
  | .ifThen type body => .choose type :: (wordsSeq body ++ [Word.ends])
  | .ifElse type first second =>
    .choose type :: (wordsSeq first ++ .otherwise :: (wordsSeq second ++ [Word.ends]))
  | i => [.single i]

def wordsSeq : List Instr → List Word
  | [] => []
  | i :: rest => words i ++ wordsSeq rest

end

theorem wordsSeq_append (first second : List Instr) :
    wordsSeq (first ++ second) = wordsSeq first ++ wordsSeq second := by
  induction first with
  | nil => rfl
  | cons i rest ih => rw [List.cons_append, wordsSeq, wordsSeq, ih, List.append_assoc]

theorem wordsSeq_map {α : Type} {f : α → Instr} (alone : ∀ x, words (f x) = [.single (f x)])
    (xs : List α) : wordsSeq (xs.map f) = xs.map fun x => .single (f x) := by
  induction xs with
  | nil => rfl
  | cons x rest ih => rw [List.map_cons, wordsSeq, alone, ih, List.map_cons, List.singleton_append]

mutual

theorem encode_eq_flatMap_words (i : Instr) : i.encode = (words i).flatMap Word.encode := by
  cases i with
  | block type body | loop type body | ifThen type body =>
    simp [encode, words, Word.encode, encodeSeq_eq_flatMap_words body]
  | ifElse type first second =>
    simp [encode, words, Word.encode, encodeSeq_eq_flatMap_words first,
      encodeSeq_eq_flatMap_words second]
  | _ => simp only [words, List.flatMap_singleton, Word.encode]

theorem encodeSeq_eq_flatMap_words (code : List Instr) :
    encodeSeq code = (wordsSeq code).flatMap Word.encode := by
  cases code with
  | nil => rfl
  | cons i rest =>
    rw [encodeSeq, wordsSeq, List.flatMap_append, encode_eq_flatMap_words i,
      encodeSeq_eq_flatMap_words rest]

end

end Instr

end Wasm

namespace Lower

open Wasm (Instr Word)
open Wasm.Instr (wordsSeq wordsSeq_append wordsSeq_map)

/-- A field of a composite that is no variable: the numbers of the composite go into scratch locals, and
those of the field come back. -/
structure Spill where
  composite : ExprId
  types : List NumType
  numbers : List Nat
  offset : Nat
  width : Nat

namespace Spill

variable (x : Spill) (base : Nat)

def locals : List Nat := x.numbers.map (base + ·)

def stores : List Word := (x.locals base).reverse.map fun k => .single (.localSet k)

def reloads : List Word :=
  (((x.locals base).drop x.offset).take x.width).map fun k => .single (.localGet k)

end Spill

/-- A stretch of the stream. -/
inductive Entry where
  | quiet (word : Word)
  | read (k : Nat)
  | write (k : Nat)
  | spill (x : Spill)

namespace Entry

def words (base : Nat) : Entry → List Word
  | quiet word => [word]
  | read k => [.single (.localGet k)]
  | write k => [.single (.localSet k)]
  | spill x => x.stores base ++ x.reloads base

def spill? : Entry → Option Spill
  | spill x => some x
  | _ => none

end Entry

def Layout.Reads (l : Layout) (id : ExprId) (k : Nat) : Prop :=
  ∃ slot shape base, l.localBase slot = .ok base ∧
    ((l.arena.node id = .ok (.localGet slot shape) ∧ base ≤ k ∧ k < base + shape.width) ∨
      ∃ composite index offset width, l.arena.node id = .ok (.extract composite index offset width) ∧
        l.arena.node composite = .ok (.localGet slot shape) ∧ k ∈ Layout.slice base offset width)

def Entry.Stems (l : Layout) : Entry → Prop
  | quiet word => word.local? = none
  | read k => ∃ id, l.Reads id k
  | write k => ∃ id, l.Writes id k
  | spill x => l.arena.slots x.composite = .ok x.types ∧ x.offset + x.width ≤ x.types.length

def Streams (l : Layout) (spills : List Spill) (words : List Word) : Prop :=
  ∃ log : List Entry, log.filterMap Entry.spill? = spills ∧ (∀ e ∈ log, e.Stems l) ∧
    words = log.flatMap (Entry.words l.scratchBase)

def Coded (l : Layout) (spills : List Spill) (code : List Instr) : Prop :=
  Streams l spills (wordsSeq code)

section
variable {l : Layout} {xs ys : List Spill} {first second code : List Instr}

namespace Streams

variable {v w : List Word}

theorem append (one : Streams l xs v) (two : Streams l ys w) : Streams l (xs ++ ys) (v ++ w) := by
  obtain ⟨log, rfl, stems, rfl⟩ := one
  obtain ⟨more, rfl, stems', rfl⟩ := two
  exact ⟨log ++ more, List.filterMap_append .., List.forall_mem_append.2 ⟨stems, stems'⟩,
    List.flatMap_append.symm⟩

theorem of_entries {α : Type} (entry : α → Entry) {items : List α}
    (alone : ∀ x ∈ items, (entry x).spill? = none ∧ (entry x).Stems l) :
    Streams l [] (items.flatMap fun x => (entry x).words l.scratchBase) := by
  refine ⟨items.map entry, ?_, ?_, (List.flatMap_map ..).symm⟩
  · refine List.filterMap_eq_nil_iff.2 fun e mem => ?_
    obtain ⟨x, isItem, rfl⟩ := List.mem_map.1 mem
    exact (alone x isItem).1
  · intro e mem
    obtain ⟨x, isItem, rfl⟩ := List.mem_map.1 mem
    exact (alone x isItem).2

theorem quiet (none : ∀ word ∈ w, word.local? = none) : Streams l [] w := by
  have all := of_entries (l := l) .quiet fun word mem => ⟨rfl, none word mem⟩
  rwa [show (fun word => Entry.words l.scratchBase (.quiet word)) = fun word => [word] from rfl,
    List.flatMap_singleton'] at all

theorem reads {ks : List Nat} (each : ∀ k ∈ ks, ∃ id, l.Reads id k) :
    Streams l [] (ks.map fun k => .single (.localGet k)) := by
  rw [List.map_eq_flatMap]
  exact of_entries .read fun k mem => ⟨rfl, each k mem⟩

theorem writes {ks : List Nat} (each : ∀ k ∈ ks, ∃ id, l.Writes id k) :
    Streams l [] (ks.map fun k => .single (.localSet k)) := by
  rw [List.map_eq_flatMap]
  exact of_entries .write fun k mem => ⟨rfl, each k mem⟩

theorem spill {x : Spill} (slots : l.arena.slots x.composite = .ok x.types)
    (fits : x.offset + x.width ≤ x.types.length) :
    Streams l [x] (x.stores l.scratchBase ++ x.reloads l.scratchBase) := by
  refine ⟨[.spill x], rfl, fun e mem => ?_, (List.flatMap_singleton ..).symm⟩
  cases List.mem_singleton.1 mem
  exact ⟨slots, fits⟩

/-- No machine local is accessed where a control instruction begins and ends. -/
theorem around {opening closing : Word} (stream : Streams l xs w) (begins : opening.local? = none)
    (ends : closing.local? = none) : Streams l xs (opening :: (w ++ [closing])) := by
  have before : Streams l [] [opening] := quiet (List.forall_mem_singleton.2 begins)
  have behind : Streams l [] [closing] := quiet (List.forall_mem_singleton.2 ends)
  have all := before.append (stream.append behind)
  rwa [List.append_nil] at all

end Streams

namespace Coded

theorem nil : Coded l [] [] := Streams.quiet nofun

theorem append (one : Coded l xs first) (two : Coded l ys second) :
    Coded l (xs ++ ys) (first ++ second) := by
  rw [Coded, wordsSeq_append]
  exact Streams.append one two

theorem of_stream {i : Instr} (stream : Streams l xs (Instr.words i)) : Coded l xs [i] := by
  rw [Coded, wordsSeq, wordsSeq, List.append_nil]
  exact stream

theorem map {α : Type} {f : α → Instr} (alone : ∀ x, Instr.words (f x) = [.single (f x)])
    (none : ∀ x, Word.local? (.single (f x)) = none) (items : List α) : Coded l [] (items.map f) := by
  rw [Coded, wordsSeq_map alone]
  refine Streams.quiet fun word mem => ?_
  obtain ⟨x, _, rfl⟩ := List.mem_map.1 mem
  exact none x

theorem alone {i : Instr} (single : Instr.words i = [.single i])
    (none : Word.local? (.single i) = none) : Coded l [] [i] :=
  of_stream (single ▸ Streams.quiet (List.forall_mem_singleton.2 none))

theorem reads {ks : List Nat} (each : ∀ k ∈ ks, ∃ id, l.Reads id k) :
    Coded l [] (ks.map .localGet) := by
  rw [Coded, wordsSeq_map fun _ => rfl]
  exact Streams.reads each

theorem writes {ks : List Nat} (each : ∀ k ∈ ks, ∃ id, l.Writes id k) :
    Coded l [] (ks.map .localSet) := by
  rw [Coded, wordsSeq_map fun _ => rfl]
  exact Streams.writes each

theorem spill {x : Spill} (slots : l.arena.slots x.composite = .ok x.types)
    (fits : x.offset + x.width ≤ x.types.length) :
    Coded l [x] ((x.locals l.scratchBase).reverse.map .localSet ++
      (((x.locals l.scratchBase).drop x.offset).take x.width).map .localGet) := by
  rw [Coded, wordsSeq_append, wordsSeq_map fun _ => rfl, wordsSeq_map fun _ => rfl]
  exact Streams.spill slots fits

theorem around {i : Instr} {opening : Word} (inside : Coded l xs code)
    (is : Instr.words i = opening :: (wordsSeq code ++ [Word.ends]))
    (begins : opening.local? = none) :
    Coded l xs [i] :=
  of_stream (is ▸ Streams.around inside begins rfl)

theorem ifElse {type : Wasm.BlockType} (one : Coded l xs first) (two : Coded l ys second) :
    Coded l (xs ++ ys) [.ifElse type first second] := by
  have between : Streams l [] [.otherwise] := Streams.quiet (List.forall_mem_singleton.2 rfl)
  have arms := (Streams.append one between).append two
  rw [List.append_nil, List.append_assoc] at arms
  refine of_stream ?_
  have all : Streams l (xs ++ ys) (.choose type ::
      (wordsSeq first ++ ([Word.otherwise] ++ wordsSeq second) ++ [Word.ends])) := arms.around rfl rfl
  rw [List.append_assoc, List.append_assoc] at all
  exact all

end Coded

end

end Lower

end WasmBuilder
