import WasmBuilder.Wasm.Check

/-!
Code that type checks names nothing that is missing, not even where control never gets.
-/

set_option autoImplicit false

namespace WasmBuilder.Wasm

def BlockType.isListed (c : Context) : BlockType → Bool
  | .empty | .value _ => true
  | .index i => i < c.types.size

namespace Instr

mutual

def namesListed (c : Context) : Instr → Bool
  | .localGet i | .localSet i | .localTee i => i < c.locals.size
  | .globalGet i | .globalSet i => i < c.globals.size
  | .call f | .tailCall f | .refFunc f => f < c.funcs.size
  | .callIndirect t table | .tailCallIndirect t table =>
    t < c.types.size && table < c.tables.size
  | .block t body | .loop t body | .ifThen t body => t.isListed c && namesListedSeq c body
  | .ifElse t first second => t.isListed c && namesListedSeq c first && namesListedSeq c second
  | _ => true

def namesListedSeq (c : Context) : List Instr → Bool
  | [] => true
  | i :: rest => namesListed c i && namesListedSeq c rest

end

theorem isListed_of_blockType? {c : Context} {t : BlockType} {f : FuncType}
    (found : c.blockType? t = some f) : t.isListed c = true := by
  cases t with
  | empty => rfl
  | value => rfl
  | index i => exact decide_eq_true (Array.getElem?_eq_some_iff.1 found).1

theorem lt_size_of_getElem? {α : Type} {xs : Array α} {i : Nat} {x : α} (here : xs[i]? = some x) :
    decide (i < xs.size) = true :=
  decide_eq_true (Array.getElem?_eq_some_iff.1 here).1

theorem indirect_listed {c : Context} {t table : Nat} {p : FuncType × ValType}
    (found : c.indirectType? t table = some p) :
    (decide (t < c.types.size) && decide (table < c.tables.size)) = true := by
  obtain ⟨_, table, rest⟩ := Option.bind_eq_some_iff.1 found
  obtain ⟨_, _, rest⟩ := Option.bind_eq_some_iff.1 rest
  obtain ⟨_, type, _⟩ := Option.bind_eq_some_iff.1 rest
  rw [lt_size_of_getElem? type, lt_size_of_getElem? table]
  rfl

variable (c : Context)

mutual

theorem namesListed_of_check (i : Instr) (labels : List (List ValType)) {s u : OpStack}
    (checked : i.check { c with labels } s = some u) : i.namesListed c = true := by
  cases i with
  | block t body =>
    obtain ⟨f, type, rest⟩ := Option.bind_eq_some_iff.1 checked
    obtain ⟨_, _, rest⟩ := Option.bind_eq_some_iff.1 rest
    obtain ⟨inner, within, _⟩ := Option.bind_eq_some_iff.1 rest
    have listed : t.isListed c = true := isListed_of_blockType? type
    rw [namesListed, listed, namesListedSeq_of_checkSeq body (f.results :: labels) within]
    rfl
  | loop t body =>
    obtain ⟨f, type, rest⟩ := Option.bind_eq_some_iff.1 checked
    obtain ⟨_, _, rest⟩ := Option.bind_eq_some_iff.1 rest
    obtain ⟨inner, within, _⟩ := Option.bind_eq_some_iff.1 rest
    have listed : t.isListed c = true := isListed_of_blockType? type
    rw [namesListed, listed, namesListedSeq_of_checkSeq body (f.params :: labels) within]
    rfl
  | ifThen t body =>
    obtain ⟨f, type, rest⟩ := Option.bind_eq_some_iff.1 checked
    obtain ⟨_, _, rest⟩ := Option.bind_eq_some_iff.1 rest
    obtain ⟨_, _, rest⟩ := Option.bind_eq_some_iff.1 rest
    obtain ⟨inner, within, _⟩ := Option.bind_eq_some_iff.1 rest
    have listed : t.isListed c = true := isListed_of_blockType? type
    rw [namesListed, listed, namesListedSeq_of_checkSeq body (f.results :: labels) within]
    rfl
  | ifElse t first second =>
    obtain ⟨f, type, rest⟩ := Option.bind_eq_some_iff.1 checked
    obtain ⟨_, _, rest⟩ := Option.bind_eq_some_iff.1 rest
    obtain ⟨_, _, rest⟩ := Option.bind_eq_some_iff.1 rest
    obtain ⟨_, yes, rest⟩ := Option.bind_eq_some_iff.1 rest
    obtain ⟨_, _, rest⟩ := Option.bind_eq_some_iff.1 rest
    obtain ⟨_, no, _⟩ := Option.bind_eq_some_iff.1 rest
    have listed : t.isListed c = true := isListed_of_blockType? type
    rw [namesListed, listed, namesListedSeq_of_checkSeq first (f.results :: labels) yes,
      namesListedSeq_of_checkSeq second (f.results :: labels) no]
    rfl
  | localGet i | localSet i | localTee i =>
    obtain ⟨f, type, _⟩ := Option.bind_eq_some_iff.1 checked
    obtain ⟨t, here, _⟩ := Option.bind_eq_some_iff.1 type
    exact lt_size_of_getElem? here
  | globalGet i | globalSet i =>
    obtain ⟨f, type, _⟩ := Option.bind_eq_some_iff.1 checked
    obtain ⟨g, here, _⟩ := Option.bind_eq_some_iff.1 type
    exact lt_size_of_getElem? here
  | call f =>
    obtain ⟨type, here, _⟩ := Option.bind_eq_some_iff.1 checked
    exact lt_size_of_getElem? here
  | tailCall f =>
    obtain ⟨type, here, _⟩ := Option.bind_eq_some_iff.1 checked
    exact lt_size_of_getElem? here
  | refFunc f =>
    obtain ⟨type, here, _⟩ := Option.bind_eq_some_iff.1 checked
    obtain ⟨_, known, _⟩ := Option.bind_eq_some_iff.1 here
    unfold require at known
    split at known
    next both => exact (Bool.and_eq_true_iff.1 both).1
    next => cases known
  | callIndirect t table =>
    obtain ⟨type, here, _⟩ := Option.bind_eq_some_iff.1 checked
    obtain ⟨p, found, _⟩ := Option.bind_eq_some_iff.1 here
    exact indirect_listed (c := c) found
  | tailCallIndirect t table =>
    obtain ⟨p, found, _⟩ := Option.bind_eq_some_iff.1 checked
    exact indirect_listed (c := c) found
  | _ => rfl

theorem namesListedSeq_of_checkSeq (code : List Instr) (labels : List (List ValType)) {s u : OpStack}
    (checked : checkSeq code { c with labels } s = some u) : namesListedSeq c code = true := by
  cases code with
  | nil => rfl
  | cons i rest =>
    obtain ⟨t, first, others⟩ := Option.bind_eq_some_iff.1 checked
    simp only [namesListedSeq, Bool.and_eq_true]
    exact ⟨namesListed_of_check i labels first, namesListedSeq_of_checkSeq rest labels others⟩

end

end Instr

end WasmBuilder.Wasm
