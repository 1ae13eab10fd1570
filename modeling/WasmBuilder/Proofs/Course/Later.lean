import WasmBuilder.Proofs.Course.Build

/-!
What lasts in a build, and what belongs together in it.

Edits only add: functions, callables, table slots and exports stay where they are, and so do fixed
nodes and global variables, while bodies may lose statements. Callable `i` is function `i` as callers
see it; one that is reached through the table has its function at its slot there.
-/

set_option autoImplicit false

namespace WasmBuilder

/-- A function stays what it is, but for the statements of its body. -/
inductive Function.Becomes (f : Function) : Function → Prop
  | same : Becomes f f
  | trimmed {scope : Scope} {body : List ExprId} (kind : f.kind = .defined scope body)
      (kept : List ExprId) : Becomes f { f with kind := .defined scope kept }

namespace Function.Becomes

variable {f g h : Function}

theorem trans (first : f.Becomes g) (second : g.Becomes h) : f.Becomes h := by
  cases first with
  | same => exact second
  | trimmed kind kept =>
    cases second with
    | same => exact .trimmed kind kept
    | trimmed again fewer =>
      cases again
      exact .trimmed kind fewer

theorem signature_eq (becomes : f.Becomes g) : g.signature = f.signature := by
  cases becomes <;> rfl

theorem isImported_eq (becomes : f.Becomes g) : g.isImported = f.isImported := by
  cases becomes with
  | same => rfl
  | trimmed kind => simp [Function.isImported, kind]

theorem defined (becomes : f.Becomes g) {scope : Scope} {body : List ExprId}
    (kind : f.kind = .defined scope body) : ∃ kept, g.kind = .defined scope kept := by
  cases becomes with
  | same => exact ⟨body, kind⟩
  | trimmed other kept =>
    cases kind.symm.trans other
    exact ⟨kept, rfl⟩

end Function.Becomes

structure Callable.Tells (c : Callable) (i : Nat) (f : Function) : Prop where
  func : c.func = i
  id : c.id = f.id
  params : f.params = c.params.map (·.2)
  result : f.result = c.result
  external : c.kind = .external ↔ f.isImported = true

namespace Callable.Tells

variable {c : Callable} {i : Nat} {f g : Function}

theorem signature_eq (tells : c.Tells i f) : c.signature = f.signature := by
  simp [Callable.signature, Function.signature, tells.params, tells.result, Bindings.flatten,
    List.flatMap_map]

theorem becomes (tells : c.Tells i f) (becomes : f.Becomes g) : c.Tells i g := by
  refine ⟨tells.func, ?_, ?_, ?_, ?_⟩
  · cases becomes <;> exact tells.id
  · cases becomes <;> exact tells.params
  · cases becomes <;> exact tells.result
  · rw [becomes.isImported_eq]
    exact tells.external

end Callable.Tells

theorem getElem?_push_of_some {α : Type} {xs : Array α} {i : Nat} {x : α} (here : xs[i]? = some x)
    (y : α) : (xs.push y)[i]? = some x := by
  have old : i ≠ xs.size := Nat.ne_of_lt (Array.getElem?_eq_some_iff.1 here).1
  simp [Array.getElem?_push, old, here]

namespace Build

/-- A build that came of another one. -/
structure Later (b c : Build) : Prop where
  lasts : b.arena.Lasts c.arena
  globals : b.globals.Grows c.globals
  functions : ∀ (i : Nat) (f : Function), b.functions[i]? = some f →
    ∃ g, c.functions[i]? = some g ∧ f.Becomes g
  callables : ∀ (i : Nat) (d : Callable), b.callables[i]? = some d → c.callables[i]? = some d
  table : ∀ (slot : Nat) (e : Nat × IndirectInfo), b.table.entries[slot]? = some e →
    c.table.entries[slot]? = some e
  exports : b.exports <+: c.exports
  failed : b.failed = true → c.failed = true

namespace Later

variable {b c d : Build}

theorem refl (b : Build) : Later b b where
  lasts := .refl _
  globals := .refl _
  functions _ f here := ⟨f, here, .same⟩
  callables _ _ here := here
  table _ _ here := here
  exports := List.prefix_rfl
  failed isFailed := isFailed

theorem trans (first : Later b c) (second : Later c d) : Later b d where
  lasts := first.lasts.trans second.lasts
  globals := first.globals.trans second.globals
  functions i f here := by
    have ⟨g, there, becomes⟩ := first.functions i f here
    have ⟨h, behind, after⟩ := second.functions i g there
    exact ⟨h, behind, becomes.trans after⟩
  callables i d here := second.callables i d (first.callables i d here)
  table slot e here := second.table slot e (first.table slot e here)
  exports := first.exports.trans second.exports
  failed isFailed := second.failed (first.failed isFailed)

end Later

variable {b c : Build}

theorem becomes_withBody (f : Function) (body : List ExprId) :
    f.Becomes (Function.withBody f body) := by
  unfold Function.withBody
  cases kind : f.kind with
  | imported key => exact .same
  | defined scope old => exact .trimmed kind body

theorem later_added {f : Function} {kind : CallKind} {params : Bindings} {table : IndirectTable}
    {imports : Imports} {isExported : Bool}
    (kept : ∀ (slot : Nat) (e : Nat × IndirectInfo), b.table.entries[slot]? = some e →
      table.entries[slot]? = some e) :
    Later b (b.added f kind params table imports isExported) :=
  { Later.refl b with
    functions := fun _ g here => ⟨g, getElem?_push_of_some here f, .same⟩
    callables := fun _ _ here => getElem?_push_of_some here _
    table := kept }

theorem Rewrite.later (rewrite : Rewrite b c) : Later b c := by
  cases rewrite with
  | arena lasts => exact { Later.refl b with lasts }
  | setBody ref body =>
    cases ref with
    | start => exact { Later.refl b with }
    | function i =>
      refine { Later.refl b with functions := fun j f here => ?_ }
      show ∃ g, (b.functions.modify i fun f => Function.withBody f body)[j]? = some g ∧ f.Becomes g
      rw [Array.getElem?_modify, here]
      by_cases is : i = j
      · exact ⟨Function.withBody f body, if_pos is, becomes_withBody f body⟩
      · exact ⟨f, if_neg is, .same⟩

theorem Quiet.later (quiet : Quiet b c) : Later b c := by
  cases quiet with
  | rewrite rewrite => exact rewrite.later
  | fail => exact { Later.refl b with failed := fun _ => rfl }
  | startBody | pending | library => exact { Later.refl b with }
  | exports name here => exact { Later.refl b with exports := List.prefix_append .. }

theorem Tidy.later (tidy : Tidy b c) : Later b c := by
  cases tidy with
  | quiet quiet => exact quiet.later
  | memory => exact { Later.refl b with }

theorem Edit.later (edit : Edit b c) : Later b c := by
  cases edit with
  | tidy tidy => exact tidy.later
  | direct | external => exact later_added fun _ _ here => here
  | indirect draft body appended =>
    apply later_added
    intro slot e here
    rw [IndirectTable.entries_append appended]
    exact getElem?_push_of_some here _

theorem Work.later (work : Work b c) : Later b c := by
  cases work with
  | mk lasts grows => exact { Later.refl b with lasts, globals := grows }

theorem Tidy.globals_eq (tidy : Tidy b c) : c.globals = b.globals := by
  cases tidy with
  | memory => rfl
  | quiet quiet =>
    cases quiet with
    | fail | startBody | pending | exports | library => rfl
    | rewrite rewrite =>
      cases rewrite with
      | arena => rfl
      | setBody ref => cases ref <;> rfl

theorem Edit.globals_eq (edit : Edit b c) : c.globals = b.globals := by
  cases edit with
  | tidy tidy => exact tidy.globals_eq
  | direct | indirect | external => rfl

theorem Course.globals_eq (course : Course b c) : c.globals = b.globals := by
  induction course with
  | refl => rfl
  | tail _ edit ih => exact edit.globals_eq.trans ih

theorem Course.later (course : Course b c) : Later b c := by
  induction course with
  | refl => exact .refl b
  | tail _ edit ih => exact ih.trans edit.later

/-- Functions, callables, table and exports belong together. -/
structure Matched (b : Build) : Prop where
  size : b.callables.size = b.functions.size
  tells : ∀ (i : Nat) (c : Callable), b.callables[i]? = some c →
    ∃ f, b.functions[i]? = some f ∧ c.Tells i f
  slot : ∀ (i : Nat) (c : Callable) (slot : Nat), b.callables[i]? = some c →
    c.kind = .indirect slot → ∃ info, b.table.entries[slot]? = some (i, info)
  occupied : ∀ (slot func : Nat) (info : IndirectInfo),
    b.table.entries[slot]? = some (func, info) →
    ∃ c, b.callables[func]? = some c ∧ c.kind = .indirect slot
  exported : ∀ e ∈ b.exports, e.2 < b.functions.size

namespace Matched

variable (matched : b.Matched)

include matched

/-- A function and its callable are added together. -/
theorem added {f : Function} {kind : CallKind} {params : Bindings} {table : IndirectTable}
    {imports : Imports} {isExported : Bool} (typed : f.params = params.map (·.2))
    (external : kind = .external ↔ f.isImported = true)
    (kept : ∀ (slot : Nat) (e : Nat × IndirectInfo), b.table.entries[slot]? = some e →
      table.entries[slot]? = some e)
    (slot : ∀ slot, kind = .indirect slot →
      ∃ info, table.entries[slot]? = some (b.functions.size, info))
    (occupied : ∀ (slot func : Nat) (info : IndirectInfo), table.entries[slot]? = some (func, info) →
      b.table.entries[slot]? = some (func, info) ∨ func = b.functions.size ∧ kind = .indirect slot) :
    (b.added f kind params table imports isExported).Matched := by
  constructor
  · simp [Build.added, matched.size]
  · intro i d here
    rw [Build.added, Array.getElem?_push, matched.size] at here
    split at here
    next is =>
      cases here
      exact ⟨f, by simp [Build.added, is], is.symm, rfl, typed, rfl, external⟩
    next =>
      have ⟨g, there, told⟩ := matched.tells i d here
      exact ⟨g, getElem?_push_of_some there f, told⟩
  · intro i d place here isIndirect
    rw [Build.added, Array.getElem?_push, matched.size] at here
    split at here
    next is =>
      cases here
      exact is ▸ slot place isIndirect
    next =>
      have ⟨info, there⟩ := matched.slot i d place here isIndirect
      exact ⟨info, kept place _ there⟩
  · intro place func info here
    rcases occupied place func info here with old | ⟨rfl, isIndirect⟩
    · have ⟨d, there, isIndirect⟩ := matched.occupied place func info old
      exact ⟨d, getElem?_push_of_some there _, isIndirect⟩
    · let new : Callable := ⟨f.id, b.functions.size, kind, params, f.result⟩
      have last : (b.callables.push new)[b.callables.size]? = some new := Array.getElem?_push_size
      rw [matched.size] at last
      exact ⟨new, last, isIndirect⟩
  · intro e mem
    rw [Build.added, Array.size_push]
    exact Nat.lt_succ_of_lt (matched.exported e mem)

theorem setBody (ref : BodyRef) (body : List ExprId) : (b.setBody ref body).Matched := by
  have size := size_setBody (b := b) ref body
  cases ref with
  | start => exact { matched with }
  | function i =>
    refine { matched with
      size := matched.size.trans size.symm
      tells := fun j c here => ?_
      exported := fun e mem => size ▸ matched.exported e mem }
    have ⟨f, there, tells⟩ := matched.tells j c here
    have ⟨g, now, becomes⟩ := (Rewrite.setBody (.function i) body).later.functions j f there
    exact ⟨g, now, tells.becomes becomes⟩

theorem tidy {c : Build} (tidy : Tidy b c) : c.Matched := by
  cases tidy with
  | memory => exact { matched with }
  | quiet quiet =>
    cases quiet with
    | fail | startBody | pending | library => exact { matched with }
    | rewrite rewrite =>
      cases rewrite with
      | arena => exact { matched with }
      | setBody ref body => exact matched.setBody ref body
    | exports name here =>
      refine { matched with exported := fun e mem => ?_ }
      rcases List.mem_append.1 mem with before | new
      · exact matched.exported e before
      · have ⟨f, there, tells⟩ := matched.tells _ _ here
        rw [List.mem_singleton.1 new, tells.func]
        exact (Array.getElem?_eq_some_iff.1 there).1

theorem edit {c : Build} (edit : Edit b c) : c.Matched := by
  cases edit with
  | tidy tidy => exact matched.tidy tidy
  | direct draft body =>
    apply matched.added rfl ?_ (fun _ _ here => here) (fun _ kind => by cases kind)
      (fun _ _ _ here => .inl here)
    simp [Function.isImported, Draft.function]
  | external decl id host =>
    apply matched.added rfl ?_ (fun _ _ here => here) (fun _ kind => by cases kind)
      (fun _ _ _ here => .inl here)
    simp [Function.isImported, externalFunction]
  | indirect draft body appended =>
    have entries := IndirectTable.entries_append appended
    apply matched.added rfl
    · simp [Function.isImported, Draft.function]
    · intro slot e here
      rw [entries]
      exact getElem?_push_of_some here _
    · intro slot kind
      cases kind
      exact ⟨_, by rw [entries]; exact Array.getElem?_push_size⟩
    · intro slot func info here
      rw [entries, Array.getElem?_push] at here
      split at here
      next is =>
        cases here
        exact .inr ⟨rfl, congrArg _ is.symm⟩
      next => exact .inl here

theorem course {c : Build} (course : Course b c) : c.Matched := by
  induction course with
  | refl => exact matched
  | tail _ step ih => exact ih.edit step

theorem work {c : Build} (work : Work b c) : c.Matched := by
  cases work
  exact { matched with }

end Matched

theorem matched_empty : Matched {} := by constructor <;> simp

/-- Closing a function always succeeds: nothing is in the table that is not declared yet. -/
theorem closeFunction_eq_ok (matched : b.Matched) (draft : Draft) (body : Body) :
    ∃ kind table isExported, closeFunction draft body b = .ok b.functions.size
      ((b.withBody body).added (draft.function body) kind draft.decl.params table b.imports
        isExported) := by
  rw [closeFunction_run]
  dsimp only
  split
  · split
    next table appended =>
      refine ⟨.indirect b.table.size, table, draft.decl.isExported, ?_⟩
      rw [show (b.withBody body).callables.size = b.functions.size from matched.size]
      rfl
    next e refused =>
      unfold IndirectTable.append at refused
      split at refused
      next taken =>
        -- what is in the table is declared, and so it is not the next function
        have ⟨e, mem, is⟩ := Array.any_eq_true'.1 taken
        have ⟨slot, here⟩ := Array.mem_iff_getElem?.1 mem
        have ⟨c, declared, _⟩ := matched.occupied slot e.1 e.2 here
        have inside := (Array.getElem?_eq_some_iff.1 declared).1
        rw [of_decide_eq_true is, matched.size] at inside
        exact absurd inside (Nat.lt_irrefl _)
      next => cases refused
  · refine ⟨.direct, b.table, draft.decl.isExported, ?_⟩
    rw [show (b.withBody body).callables.size = b.functions.size from matched.size]
    rfl

end Build

end WasmBuilder
