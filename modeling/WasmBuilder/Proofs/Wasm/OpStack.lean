import Mathlib.Data.List.Induction
import WasmBuilder.Wasm.Check

/-!
Operand stacks of the type checker, and what stretches of code do to them.

Behind a jump the checker knows less of the stack than on the way that falls through. A stack
subsumes another when all code that fits the other fits it too.
-/

set_option autoImplicit false

namespace WasmBuilder.Wasm

namespace OpStack

def Subsumes (t s : OpStack) : Prop :=
  t = s ∨ t.isPolymorphic = true ∧ t.known <+: s.known

variable {s t u : OpStack}

theorem Subsumes.refl (s : OpStack) : s.Subsumes s := .inl rfl

theorem afterJump_subsumes (s : OpStack) : afterJump.Subsumes s := .inr ⟨rfl, List.nil_prefix⟩

@[simp] theorem pushAll_nil (s : OpStack) : s.pushAll [] = s := rfl

theorem pushAll_append (s : OpStack) (first second : List ValType) :
    s.pushAll (first ++ second) = (s.pushAll first).pushAll second := by
  simp [pushAll]

theorem Subsumes.pushAll (le : t.Subsumes s) (types : List ValType) :
    (t.pushAll types).Subsumes (s.pushAll types) := by
  rcases le with rfl | ⟨poly, part⟩
  · exact .refl _
  · exact .inr ⟨poly, (List.prefix_append_right_inj _).2 part⟩

/-- What is known on top of a stack comes off a stack that subsumes it, or something unknown. -/
theorem Subsumes.popAny (le : t.Subsumes s) {a : Option ValType} {s₁ : OpStack}
    (popped : s.popAny = some (a, s₁)) :
    ∃ b t₁, t.popAny = some (b, t₁) ∧ t₁.Subsumes s₁ ∧ (b = a ∨ b = none) := by
  rcases le with rfl | ⟨poly, part⟩
  · exact ⟨a, s₁, popped, .refl s₁, .inl rfl⟩
  · obtain ⟨known, isPolymorphic⟩ := t
    cases known with
    | nil =>
      simp only at poly
      subst poly
      exact ⟨none, _, rfl, .inr ⟨rfl, List.nil_prefix⟩, .inr rfl⟩
    | cons x rest =>
      obtain ⟨more, whole⟩ := part
      rw [OpStack.popAny, ← whole] at popped
      cases popped
      exact ⟨a, ⟨rest, isPolymorphic⟩, rfl, .inr ⟨poly, List.prefix_append rest more⟩, .inl rfl⟩

theorem Subsumes.pop (le : t.Subsumes s) {type : ValType} {s₁ : OpStack}
    (popped : s.pop type = some s₁) : ∃ t₁, t.pop type = some t₁ ∧ t₁.Subsumes s₁ := by
  unfold OpStack.pop at popped
  cases top : s.popAny with
  | none => simp [top] at popped
  | some pair =>
    obtain ⟨a, s₂⟩ := pair
    obtain ⟨b, t₂, top', le₂, same⟩ := le.popAny top
    rw [top] at popped
    unfold OpStack.pop
    rw [top']
    cases a with
    | none =>
      have none : b = none := same.elim id id
      subst none
      cases popped
      exact ⟨t₂, rfl, le₂⟩
    | some known =>
      simp only at popped
      split at popped
      next is =>
        cases popped
        rcases same with rfl | rfl
        · exact ⟨t₂, by simp [is], le₂⟩
        · exact ⟨t₂, rfl, le₂⟩
      next => cases popped

theorem Subsumes.popReversed (le : t.Subsumes s) {types : List ValType} {s₁ : OpStack}
    (popped : s.popReversed types = some s₁) :
    ∃ t₁, t.popReversed types = some t₁ ∧ t₁.Subsumes s₁ := by
  induction types generalizing s t with
  | nil =>
    cases popped
    exact ⟨t, rfl, le⟩
  | cons type rest ih =>
    obtain ⟨s₂, first, others⟩ := Option.bind_eq_some_iff.1 popped
    obtain ⟨t₂, first', le₂⟩ := le.pop first
    obtain ⟨t₁, others', le₁⟩ := ih le₂ others
    exact ⟨t₁, Option.bind_eq_some_iff.2 ⟨t₂, first', others'⟩, le₁⟩

theorem Subsumes.popAll (le : t.Subsumes s) {types : List ValType} {s₁ : OpStack}
    (popped : s.popAll types = some s₁) : ∃ t₁, t.popAll types = some t₁ ∧ t₁.Subsumes s₁ :=
  le.popReversed popped

theorem Subsumes.leaves (le : t.Subsumes s) {types : List ValType} (left : s.leaves types = true) :
    t.leaves types = true := by
  unfold OpStack.leaves at left
  cases popped : s.popAll types with
  | none => simp [popped] at left
  | some s₁ =>
    obtain ⟨t₁, popped', le₁⟩ := le.popAll popped
    rw [popped] at left
    simp only [OpStack.leaves, popped']
    rcases le₁ with rfl | ⟨_, part⟩
    · exact left
    · rw [List.isEmpty_iff.1 left, List.prefix_nil] at part
      simp [part]

theorem pop_push (s : OpStack) (type : ValType) : (s.push type).pop type = some s := by
  simp [pop, popAny, push]

theorem popReversed_reverse (s : OpStack) (types : List ValType) :
    (s.pushAll types.reverse).popReversed types = some s := by
  induction types generalizing s with
  | nil => rfl
  | cons type rest ih =>
    rw [List.reverse_cons, pushAll_append]
    have top : ((s.pushAll rest.reverse).pushAll [type]).pop type = some (s.pushAll rest.reverse) :=
      pop_push _ type
    rw [popReversed, top]
    exact ih s

theorem popAll_pushAll (s : OpStack) (types : List ValType) : (s.pushAll types).popAll types = some s := by
  have all := popReversed_reverse s types.reverse
  rwa [List.reverse_reverse] at all

theorem leaves_pushAll (types : List ValType) : (OpStack.pushAll ⟨[], false⟩ types).leaves types = true := by
  simp [leaves, popAll_pushAll]

end OpStack

namespace Instr

theorem checkSeq_append (first second : List Instr) (c : Context) (s : OpStack) :
    checkSeq (first ++ second) c s = (checkSeq first c s).bind (checkSeq second c) := by
  induction first generalizing s with
  | nil => rfl
  | cons i rest ih =>
    simp only [List.cons_append, checkSeq]
    cases i.check c s with
    | none => rfl
    | some t => exact ih t

end Instr

def Effect (c : Context) (code : List Instr) (params results : List ValType) : Prop :=
  ∀ s t : OpStack, t.Subsumes (s.pushAll params) →
    ∃ u, Instr.checkSeq code c t = some u ∧ u.Subsumes (s.pushAll results)

namespace Effect

variable {c : Context} {code first second : List Instr} {params middle results : List ValType}

theorem nil (types : List ValType) : Effect c [] types types :=
  fun _ t le => ⟨t, rfl, le⟩

theorem append (one : Effect c first params middle) (two : Effect c second middle results) :
    Effect c (first ++ second) params results := by
  intro s t le
  obtain ⟨u, checked, le'⟩ := one s t le
  obtain ⟨v, checked', le''⟩ := two s u le'
  exact ⟨v, by rw [Instr.checkSeq_append, checked, Option.bind_some, checked'], le''⟩

theorem above (effect : Effect c code params results) (below : List ValType) :
    Effect c code (below ++ params) (below ++ results) := by
  intro s t le
  rw [OpStack.pushAll_append] at le ⊢
  exact effect (s.pushAll below) t le

theorem beside {left right : List ValType} (one : Effect c first [] left)
    (two : Effect c second [] right) : Effect c (first ++ second) [] (left ++ right) := by
  refine one.append ?_
  have on := two.above left
  rwa [List.append_nil] at on

theorem of_check {i : Instr} (checks : ∀ s t : OpStack, t.Subsumes (s.pushAll params) →
    ∃ u, i.check c t = some u ∧ u.Subsumes (s.pushAll results)) : Effect c [i] params results := by
  intro s t le
  obtain ⟨u, checked, le'⟩ := checks s t le
  exact ⟨u, by rw [Instr.checkSeq, checked, Option.bind_some, Instr.checkSeq], le'⟩

theorem of_type {i : Instr} {f : FuncType} (checks : ∀ s, i.check c s = (do
      let t ← i.type? c
      let s ← s.popAll t.params
      return s.pushAll t.results)) (type : i.type? c = some f) :
    Effect c [i] f.params f.results := by
  refine of_check fun s t le => ?_
  obtain ⟨u, popped, le'⟩ := le.popAll (OpStack.popAll_pushAll s f.params)
  exact ⟨u.pushAll f.results, by simp [checks, type, popped], le'.pushAll f.results⟩

theorem of_jump {i : Instr} (jumps : ∀ t : OpStack, (∃ s : OpStack, t.Subsumes (s.pushAll params)) →
    i.check c t = some .afterJump) : Effect c [i] params results :=
  of_check fun s t le => ⟨.afterJump, jumps t ⟨s, le⟩, OpStack.afterJump_subsumes _⟩

theorem drop (type : ValType) : Effect c [.drop] [type] [] := by
  refine of_check fun s t le => ?_
  have top : (s.pushAll [type]).popAny = some (some type, s) := rfl
  obtain ⟨b, u, popped, le', _⟩ := le.popAny top
  refine ⟨u, ?_, le'⟩
  show t.popAny.map (·.2) = some u
  rw [popped, Option.map_some]

theorem drops (types : List ValType) : Effect c (types.map fun _ => .drop) types [] := by
  induction types using List.reverseRecOn with
  | nil => exact .nil []
  | append_singleton types type ih =>
    have last := (drop (c := c) type).above types
    rw [List.append_nil] at last
    have shifted : (types ++ [type]).map (fun _ => Instr.drop) =
        [Instr.drop] ++ types.map fun _ => Instr.drop := by
      rw [List.map_append, List.map_const', List.map_singleton, ← List.replicate_succ',
        List.replicate_succ]
      rfl
    rw [shifted]
    exact last.append ih

theorem exists_checked (effect : Effect c code [] results) :
    ∃ u, Instr.checkSeq code c ⟨[], false⟩ = some u ∧ u.leaves results = true := by
  obtain ⟨u, checked, le⟩ := effect ⟨[], false⟩ ⟨[], false⟩ (.refl _)
  exact ⟨u, checked, le.leaves (OpStack.leaves_pushAll results)⟩

theorem isTyped (effect : Effect c code [] results) : Instr.isTyped code c results = true := by
  obtain ⟨u, checked, left⟩ := effect.exists_checked
  rw [Instr.isTyped, checked]
  exact left

end Effect

end WasmBuilder.Wasm
