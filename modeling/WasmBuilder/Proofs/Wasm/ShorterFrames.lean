import Mathlib.Data.Finset.Card
import WasmBuilder.Proofs.Wasm.Abridgement
import WasmBuilder.Wasm.Frame

/-!
Frames of shorter functions.

Numbers that are computed from constants take no room, and code behind a return is not looked at. What
remains of a function does the same with its variables under other numbers, so as many of them are
needed at each call.
-/

set_option autoImplicit false

namespace WasmBuilder.Wasm

namespace Frame

def Vars.Agree (Q : Nat → Nat → Prop) (a b : Vars) : Prop :=
  ∀ i j : Nat, Q i j → Nat.testBit b j = Nat.testBit a i

structure Vars.Same (Q : Nat → Nat → Prop) (a b : Vars) : Prop where
  agree : Vars.Agree Q a b
  left : ∀ i : Nat, Nat.testBit a i = true → ∃ j, Q i j
  right : ∀ j : Nat, Nat.testBit b j = true → ∃ i, Q i j

namespace Vars

variable {Q : Nat → Nat → Prop} {a b c d : Vars}

theorem testBit_union (a b : Vars) (i : Nat) :
    Nat.testBit (union a b) i = (Nat.testBit a i || Nat.testBit b i) := Nat.testBit_or ..

theorem testBit_without (a b : Vars) (i : Nat) :
    Nat.testBit (without a b) i = (Nat.testBit a i && !Nat.testBit b i) := by
  unfold without
  rw [Nat.testBit_xor, Nat.testBit_and]
  cases Nat.testBit a i <;> cases Nat.testBit b i <;> rfl

theorem testBit_ofLocal (k i : Nat) : Nat.testBit (ofLocal k) i = decide (k + 1 = i) :=
  Nat.testBit_two_pow

theorem meets_ofLocal (a : Vars) (k : Nat) : meets a (ofLocal k) = Nat.testBit a (k + 1) := by
  unfold meets ofLocal
  rw [Nat.and_two_pow]
  cases Nat.testBit a (k + 1) <;> simp

theorem eq_zero_iff (a : Vars) : a = 0 ↔ ∀ i, Nat.testBit a i = false :=
  ⟨fun is i => by rw [is, Nat.zero_testBit], fun none => Nat.zero_of_testBit_eq_false none⟩

namespace Agree

theorem union (one : Agree Q a b) (two : Agree Q c d) : Agree Q (a.union c) (b.union d) := by
  intro i j here
  rw [testBit_union, testBit_union, one i j here, two i j here]

theorem without (one : Agree Q a b) (two : Agree Q c d) : Agree Q (a.without c) (b.without d) := by
  intro i j here
  rw [testBit_without, testBit_without, one i j here, two i j here]

end Agree

namespace Same

theorem zero : Same Q 0 0 := ⟨fun _ _ _ => by rw [Nat.zero_testBit, Nat.zero_testBit], by simp, by simp⟩

theorem union (one : Same Q a b) (two : Same Q c d) : Same Q (a.union c) (b.union d) where
  agree := one.agree.union two.agree
  left i mem := by
    rw [testBit_union, Bool.or_eq_true] at mem
    exact mem.elim (one.left i) (two.left i)
  right j mem := by
    rw [testBit_union, Bool.or_eq_true] at mem
    exact mem.elim (one.right j) (two.right j)

theorem without (one : Same Q a b) (two : Agree Q c d) : Same Q (a.without c) (b.without d) where
  agree := one.agree.without two
  left i mem := by
    rw [testBit_without, Bool.and_eq_true] at mem
    exact one.left i mem.1
  right j mem := by
    rw [testBit_without, Bool.and_eq_true] at mem
    exact one.right j mem.1

theorem and (one : Same Q a b) (two : Agree Q c d) : Same Q (a &&& c : Nat) (b &&& d : Nat) where
  agree i j here := by rw [Nat.testBit_and, Nat.testBit_and, one.agree i j here, two i j here]
  left i mem := by
    rw [Nat.testBit_and, Bool.and_eq_true] at mem
    exact one.left i mem.1
  right j mem := by
    rw [Nat.testBit_and, Bool.and_eq_true] at mem
    exact one.right j mem.1

theorem eq_zero_iff (same : Same Q a b) : a = 0 ↔ b = 0 := by
  rw [Vars.eq_zero_iff, Vars.eq_zero_iff]
  constructor
  · intro none j
    by_contra mem
    obtain ⟨i, here⟩ := same.right j (Bool.eq_true_of_not_eq_false mem)
    rw [same.agree i j here, none i] at mem
    exact mem rfl
  · intro none i
    by_contra mem
    obtain ⟨j, here⟩ := same.left i (Bool.eq_true_of_not_eq_false mem)
    rw [← same.agree i j here, none j] at mem
    exact mem rfl

end Same

def elements (a : Vars) : Finset Nat := (Finset.range a).filter fun i => Nat.testBit a i = true

theorem mem_elements {a : Vars} {i : Nat} : i ∈ elements a ↔ Nat.testBit a i = true := by
  unfold elements
  rw [Finset.mem_filter, Finset.mem_range]
  exact ⟨And.right, fun mem => ⟨Nat.lt_of_lt_of_le Nat.lt_two_pow_self (Nat.ge_two_pow_of_testBit mem), mem⟩⟩

theorem count_eq_card (a : Vars) : count a = (elements a).card := by
  induction a using Nat.strong_induction_on with
  | _ a ih =>
    unfold count
    split
    next zero =>
      subst zero
      rfl
    next some =>
      -- the lowest bit, and those of half the number, each one place higher
      have halves : elements a = (if Nat.testBit a 0 = true then {0} else ∅) ∪
          (elements (a / 2)).map ⟨Nat.succ, Nat.succ_injective⟩ := by
        ext i
        cases i with
        | zero => by_cases odd : Nat.testBit a 0 = true <;> simp [mem_elements, odd]
        | succ i => by_cases odd : Nat.testBit a 0 = true <;>
            simp [mem_elements, odd, Nat.testBit_succ]
      have apart : Disjoint (if Nat.testBit a 0 = true then ({0} : Finset Nat) else ∅)
          ((elements (a / 2)).map ⟨Nat.succ, Nat.succ_injective⟩) := by
        rw [Finset.disjoint_left]
        intro i one two
        obtain ⟨j, _, rfl⟩ := Finset.mem_map.1 two
        split at one
        · exact Nat.succ_ne_zero j (Finset.mem_singleton.1 one)
        · exact Finset.notMem_empty _ one
      rw [halves, Finset.card_union_of_disjoint apart, Finset.card_map, ih (a / 2) (by omega)]
      congr 1
      rw [Nat.testBit_zero]
      rcases Nat.mod_two_eq_zero_or_one a with even | odd
      · simp [even]
      · simp [odd]

section
variable (unique : ∀ {i j x y : Nat}, Q i j → Q x y → (x = i ↔ y = j))

include unique

theorem Same.count_le (same : Same Q a b) : count a ≤ count b := by
  classical
  rw [count_eq_card, count_eq_card]
  have each (i : Nat) (mem : i ∈ elements a) : ∃ j, Q i j := same.left i (mem_elements.1 mem)
  refine Finset.card_le_card_of_injOn (fun i => if mem : i ∈ elements a then (each i mem).choose else 0)
    (fun i mem => ?_) fun i mem k mem' is => ?_
  · have inside : i ∈ elements a := mem
    dsimp only
    rw [dif_pos inside]
    refine mem_elements.2 ?_
    rw [same.agree i _ (each i inside).choose_spec]
    exact mem_elements.1 inside
  · have inside : i ∈ elements a := mem
    have inside' : k ∈ elements a := mem'
    dsimp only at is
    rw [dif_pos inside, dif_pos inside'] at is
    exact ((unique (each i inside).choose_spec (each k inside').choose_spec).2 is.symm).symm

theorem Same.count_eq (same : Same Q a b) : count b = count a := by
  refine Nat.le_antisymm ?_ (same.count_le unique)
  have flipped : Same (fun j i => Q i j) b a :=
    ⟨fun j i here => (same.agree i j here).symm, same.right, same.left⟩
  exact flipped.count_le fun here there => (unique here there).symm

theorem Same.wordsOf_eq (same : Same Q a b) {wide wide' : Vars} (agree : Agree Q wide wide') :
    wordsOf wide' b = wordsOf wide a := by
  unfold wordsOf
  rw [same.count_eq unique, (same.and agree).count_eq unique]

end

end Vars

mutual

inductive Flow.Same (Q : Nat → Nat → Prop) : Flow → Flow → Prop
  | use {a b : Vars} (vars : Vars.Same Q a b) : Flow.Same Q (.use a) (.use b)
  | assign {a b : Vars} (vars : Vars.Same Q a b) : Flow.Same Q (.assign a) (.assign b)
  | call {a b x y : Vars} (held outgoing : Nat) (kept : Vars.Same Q a b)
      (constants : Vars.Agree Q x y) : Flow.Same Q (.call held a x outgoing) (.call held b y outgoing)
  | block {body body' : List Flow} (inside : Flow.SameSeq Q body body') :
      Flow.Same Q (.block body) (.block body')
  | loop {body body' : List Flow} (inside : Flow.SameSeq Q body body') :
      Flow.Same Q (.loop body) (.loop body')
  | choose {first first' second second' : List Flow} (one : Flow.SameSeq Q first first')
      (two : Flow.SameSeq Q second second') : Flow.Same Q (.choose first second) (.choose first' second')
  | mayJump (labels : List Nat) : Flow.Same Q (.mayJump labels) (.mayJump labels)
  | jump (labels : List Nat) : Flow.Same Q (.jump labels) (.jump labels)
  | leave : Flow.Same Q .leave .leave

inductive Flow.SameSeq (Q : Nat → Nat → Prop) : List Flow → List Flow → Prop
  | nil : Flow.SameSeq Q [] []
  | cons {f g : Flow} {rest rest' : List Flow} (first : Flow.Same Q f g)
      (others : Flow.SameSeq Q rest rest') : Flow.SameSeq Q (f :: rest) (g :: rest')

end

section
variable {Q : Nat → Nat → Prop}

theorem Flow.SameSeq.append {one one' two two' : List Flow} (first : Flow.SameSeq Q one one')
    (second : Flow.SameSeq Q two two') : Flow.SameSeq Q (one ++ two) (one' ++ two') := by
  match first with
  | .nil => exact second
  | .cons f rest => exact .cons f (rest.append second)

theorem Flow.SameSeq.single {f g : Flow} (same : Flow.Same Q f g) : Flow.SameSeq Q [f] [g] :=
  .cons same .nil

theorem neededAt_same {needed needed' : List Vars} (same : List.Forall₂ (Vars.Same Q) needed needed')
    (labels : List Nat) : Vars.Same Q (neededAt needed labels) (neededAt needed' labels) := by
  have each (l : Nat) : Vars.Same Q (needed.getD l 0) (needed'.getD l 0) := by
    induction same generalizing l with
    | nil => exact .zero
    | cons first _ ih =>
      cases l with
      | zero => exact first
      | succ l => exact ih l
  have from_ {a b : Vars} (start : Vars.Same Q a b) : Vars.Same Q
      (labels.foldl (fun s l => s.union (needed.getD l 0)) a)
      (labels.foldl (fun s l => s.union (needed'.getD l 0)) b) := by
    induction labels generalizing a b with
    | nil => exact start
    | cons l rest ih => exact ih (start.union (each l))
  exact from_ .zero

mutual

theorem Flow.Same.before {f g : Flow} (same : Flow.Same Q f g) {needed needed' : List Vars}
    (labels : List.Forall₂ (Vars.Same Q) needed needed') {after after' : Vars}
    (behind : Vars.Same Q after after') :
    Vars.Same Q (Frame.before needed f after) (Frame.before needed' g after') := by
  match same with
  | .use vars => exact behind.union vars
  | .assign vars => exact behind.without vars.agree
  | .call _ _ _ _ => exact behind
  | .block inside => exact inside.before (.cons behind labels) behind
  | .loop inside => exact inside.before (.cons .zero labels) behind
  | .choose one two =>
    exact (one.before (.cons behind labels) behind).union (two.before (.cons behind labels) behind)
  | .mayJump ls => exact behind.union (neededAt_same labels ls)
  | .jump ls => exact neededAt_same labels ls
  | .leave => exact .zero

theorem Flow.SameSeq.before {fs gs : List Flow} (same : Flow.SameSeq Q fs gs)
    {needed needed' : List Vars} (labels : List.Forall₂ (Vars.Same Q) needed needed')
    {after after' : Vars} (behind : Vars.Same Q after after') :
    Vars.Same Q (Frame.beforeSeq needed fs after) (Frame.beforeSeq needed' gs after') := by
  match same with
  | .nil => exact behind
  | .cons first others => exact others.before labels (first.before labels behind)

end

section
variable {wide wide' : Vars}

mutual

theorem Flow.Same.measure (unique : ∀ {i j x y : Nat}, Q i j → Q x y → (x = i ↔ y = j))
    (wideAgree : Vars.Agree Q wide wide') {f g : Flow} (same : Flow.Same Q f g)
    {needed needed' : List Vars} (labels : List.Forall₂ (Vars.Same Q) needed needed')
    {after after' : Vars} (behind : Vars.Same Q after after') :
    Vars.Same Q (Frame.measure wide needed f after).1 (Frame.measure wide' needed' g after').1 ∧
      (Frame.measure wide' needed' g after').2 = (Frame.measure wide needed f after).2 := by
  match same with
  | .use vars => exact ⟨behind.union vars, rfl⟩
  | .assign vars => exact ⟨behind.without vars.agree, rfl⟩
  | .call held outgoing kept constants =>
    refine ⟨behind, ?_⟩
    unfold Frame.measure
    dsimp only
    rw [((behind.union kept).without constants).wordsOf_eq unique wideAgree]
  | .block inside => exact inside.measure unique wideAgree (.cons behind labels) behind {}
  | .loop inside =>
    have head := inside.before (.cons .zero labels) behind
    exact ⟨head, (inside.measure unique wideAgree (.cons head labels) behind {}).2⟩
  | .choose one two =>
    obtain ⟨first, room⟩ := one.measure unique wideAgree (.cons behind labels) behind {}
    obtain ⟨second, room'⟩ := two.measure unique wideAgree (.cons behind labels) behind {}
    refine ⟨first.union second, ?_⟩
    unfold Frame.measure
    dsimp only
    rw [room, room']
  | .mayJump ls => exact ⟨behind.union (neededAt_same labels ls), rfl⟩
  | .jump ls => exact ⟨neededAt_same labels ls, rfl⟩
  | .leave => exact ⟨.zero, rfl⟩

theorem Flow.SameSeq.measure (unique : ∀ {i j x y : Nat}, Q i j → Q x y → (x = i ↔ y = j))
    (wideAgree : Vars.Agree Q wide wide') {fs gs : List Flow} (same : Flow.SameSeq Q fs gs)
    {needed needed' : List Vars} (labels : List.Forall₂ (Vars.Same Q) needed needed')
    {after after' : Vars} (behind : Vars.Same Q after after') (room : Room) :
    Vars.Same Q (Frame.measureSeq wide needed fs after room).1
        (Frame.measureSeq wide' needed' gs after' room).1 ∧
      (Frame.measureSeq wide' needed' gs after' room).2 =
        (Frame.measureSeq wide needed fs after room).2 := by
  match same with
  | .nil => exact ⟨behind, rfl⟩
  | .cons first others =>
    obtain ⟨middle, own⟩ := first.measure unique wideAgree labels behind
    unfold Frame.measureSeq
    dsimp only
    rw [own]
    exact others.measure unique wideAgree labels middle _

end

end

structure Operand.Same (Q : Nat → Nat → Prop) (a b : Operand) : Prop where
  vars : Vars.Same Q a.vars b.vars
  held : b.held = a.held

namespace Operand.Same

variable {a b : Operand}

theorem of_held (n : Nat) : Operand.Same Q ⟨0, n⟩ ⟨0, n⟩ := ⟨.zero, rfl⟩

theorem fresh (types : List ValType) : List.Forall₂ (Operand.Same Q)
    (types.map Operand.fresh).reverse (types.map Operand.fresh).reverse :=
  List.forall₂_same.2 fun o mem => by
    obtain ⟨t, _, rfl⟩ := List.mem_map.1 (List.mem_reverse.1 mem)
    exact of_held _

theorem foldl_union {os os' : List Operand} (each : List.Forall₂ (Operand.Same Q) os os') {a b : Vars}
    (start : Vars.Same Q a b) : Vars.Same Q (os.foldl (fun s o => s.union o.vars) a)
      (os'.foldl (fun s o => s.union o.vars) b) := by
  induction each generalizing a b with
  | nil => exact start
  | cons first _ ih => exact ih (start.union first.vars)

theorem map_held {os os' : List Operand} (each : List.Forall₂ (Operand.Same Q) os os') :
    os'.map (·.held) = os.map (·.held) := by
  induction each with
  | nil => rfl
  | cons first _ ih => rw [List.map_cons, List.map_cons, first.held, ih]

theorem join {os os' : List Operand} (each : List.Forall₂ (Operand.Same Q) os os') :
    Operand.Same Q (.join os) (.join os') :=
  ⟨foldl_union each .zero, congrArg List.sum (map_held each)⟩

end Operand.Same

end

/-- The variable of the instance stands for itself, and those of locals as the locals do. -/
inductive Bits (P : Nat → Nat → Prop) : Nat → Nat → Prop
  | self : Bits P 0 0
  | ofLocal {k l : Nat} (places : P k l) : Bits P (k + 1) (l + 1)

theorem Bits.unique {P : Nat → Nat → Prop} (unique : ∀ {k l x y : Nat}, P k l → P x y → (x = k ↔ y = l))
    {i j x y : Nat} (here : Bits P i j) (there : Bits P x y) : x = i ↔ y = j := by
  cases here with
  | self => cases there <;> simp
  | ofLocal places =>
    cases there with
    | self => simp
    | ofLocal places' => simpa using unique places places'

structure Trace.Same (Q : Nat → Nat → Prop) (t u : Trace) : Prop where
  stack : List.Forall₂ (Operand.Same Q) t.stack u.stack
  constants : Vars.Agree Q t.constants u.constants
  isDead : u.isDead = t.isDead

structure Traced (Q : Nat → Nat → Prop) (x y : List Flow × Trace) : Prop where
  flows : Flow.SameSeq Q x.1 y.1
  behind : Trace.Same Q x.2 y.2

/-- The effect of an instruction that has a type of its own. -/
def Trace.apply (isPure : Bool) (type : Option FuncType) (t : Trace) : List Flow × Trace :=
  match type with
  | some type =>
    let operands := t.stack.take type.params.length
    let t := t.pop type.params.length
    if isPure then ([], t.push (.join operands))
    else ([.use .self], { t with stack := (type.results.map Operand.fresh).reverse ++ t.stack })
  | none => ([], t)

section
variable {P : Nat → Nat → Prop}

theorem Vars.Same.self : Vars.Same (Bits P) Vars.self Vars.self where
  agree i j here := by
    rw [show Vars.self = 2 ^ 0 from rfl, Nat.testBit_two_pow, Nat.testBit_two_pow]
    cases here <;> simp
  left i mem := by
    rw [show Vars.self = 2 ^ 0 from rfl, Nat.testBit_two_pow, decide_eq_true_eq] at mem
    exact ⟨0, mem ▸ .self⟩
  right j mem := by
    rw [show Vars.self = 2 ^ 0 from rfl, Nat.testBit_two_pow, decide_eq_true_eq] at mem
    exact ⟨0, mem ▸ .self⟩

theorem Vars.Same.ofLocal (unique : ∀ {k l x y : Nat}, P k l → P x y → (x = k ↔ y = l)) {k l : Nat}
    (places : P k l) : Vars.Same (Bits P) (.ofLocal k) (.ofLocal l) where
  agree i j here := by
    rw [Vars.testBit_ofLocal, Vars.testBit_ofLocal, decide_eq_decide, eq_comm, @eq_comm _ (k + 1)]
    exact (Bits.unique unique (.ofLocal places) here).symm
  left i mem := by
    rw [Vars.testBit_ofLocal, decide_eq_true_eq] at mem
    exact ⟨l + 1, mem ▸ .ofLocal places⟩
  right j mem := by
    rw [Vars.testBit_ofLocal, decide_eq_true_eq] at mem
    exact ⟨k + 1, mem ▸ .ofLocal places⟩

theorem testBit_wideLocals (locals : Array ValType) (i : Nat) : Nat.testBit (wideLocals locals) i =
    (decide (0 < i) && (locals[i - 1]?).any (words · = 2)) := by
  have from_ (xs : List ValType) (n : Nat) (s : Vars) :
      Nat.testBit ((xs.zipIdx n).foldl
        (fun s p => if words p.1 = 2 then Vars.union s (.ofLocal p.2) else s) s) i =
      (Nat.testBit s i || (decide (n < i) && (xs[i - 1 - n]?).any (words · = 2))) := by
    induction xs generalizing n s with
    | nil => simp
    | cons x rest ih =>
      rw [List.zipIdx_cons, List.foldl_cons, ih]
      have first : Nat.testBit (if words x = 2 then Vars.union s (.ofLocal n) else s) i =
          (Nat.testBit s i || (decide (n + 1 = i) && decide (words x = 2))) := by
        split
        next wide => rw [Vars.testBit_union, Vars.testBit_ofLocal, decide_eq_true wide, Bool.and_true]
        next narrow => rw [decide_eq_false narrow, Bool.and_false, Bool.or_false]
      rw [first, Bool.or_assoc]
      congr 1
      rcases Nat.lt_trichotomy (n + 1) i with behind | here | before
      · obtain ⟨k, rfl⟩ : ∃ k, i = n + 1 + k + 1 := ⟨i - n - 2, by omega⟩
        simp [show n + 1 + k - n = k + 1 by omega, show n < n + 1 + k + 1 by omega,
          show ¬ n = n + 1 + k by omega]
      · subst here
        simp
      · simp [show ¬ n < i by omega, show ¬ n + 1 < i by omega, show ¬ n + 1 = i by omega]
  unfold wideLocals
  rw [from_, Nat.zero_testBit, Bool.false_or, Array.getElem?_toList, Nat.sub_zero]

theorem agree_wideLocals {xs ys : Array ValType} (locals : ∀ {k l : Nat}, P k l → ys[l]? = xs[k]?) :
    Vars.Agree (Bits P) (wideLocals xs) (wideLocals ys) := by
  intro i j here
  rw [testBit_wideLocals, testBit_wideLocals]
  cases here with
  | self => rfl
  | ofLocal places => simp [locals places]

namespace Trace.Same

variable {t u : Trace} (same : Trace.Same (Bits P) t u)

include same

theorem push {a b : Operand} (operand : Operand.Same (Bits P) a b) :
    Trace.Same (Bits P) (t.push a) (u.push b) :=
  { same with stack := .cons operand same.stack }

theorem take (n : Nat) : List.Forall₂ (Operand.Same (Bits P)) (t.stack.take n) (u.stack.take n) :=
  List.forall₂_take n same.stack

theorem pop (n : Nat) : Trace.Same (Bits P) (t.pop n) (u.pop n) :=
  { same with stack := List.forall₂_drop n same.stack }

theorem bottom (height : Nat) :
    List.Forall₂ (Operand.Same (Bits P)) (t.bottom height) (u.bottom height) := by
  unfold Trace.bottom
  rw [same.stack.length_eq]
  exact List.forall₂_drop _ same.stack

/-- What is known behind a body that began with `v` and changed some locals. -/
theorem leaving {v w : Trace} (start : Trace.Same (Bits P) v w) (height : Nat)
    (results : List ValType) {a b : Vars} (changed : Vars.Agree (Bits P) a b) :
    Trace.Same (Bits P) (t.leaving height results (v.constants.without a))
      (u.leaving height results (w.constants.without b)) where
  stack := List.rel_append (Operand.Same.fresh results) (same.bottom height)
  constants := start.constants.without changed
  isDead := rfl

theorem callFlow (type : FuncType) : Traced (Bits P) (Frame.callFlow type t) (Frame.callFlow type u) := by
  have kept := Operand.Same.join same.stack
  have held : (Operand.join u.stack).held = (Operand.join t.stack).held := kept.held
  refine ⟨?_, { same with stack := List.rel_append (Operand.Same.fresh type.results) same.stack }⟩
  unfold Frame.callFlow
  dsimp only
  rw [held]
  exact .cons (.call _ _ kept.vars same.constants) (.single (.use .self))

theorem apply (isPure : Bool) (type : Option FuncType) :
    Traced (Bits P) (t.apply isPure type) (u.apply isPure type) := by
  cases type with
  | none => exact ⟨.nil, same⟩
  | some type =>
    unfold Trace.apply
    dsimp only
    split
    · exact ⟨.nil, (same.pop _).push (.join (same.take _))⟩
    · exact ⟨.single (.use .self), { same with
        stack := List.rel_append (Operand.Same.fresh type.results) (same.pop _).stack }⟩

section
variable (unique : ∀ {k l x y : Nat}, P k l → P x y → (x = k ↔ y = l)) {c d : Context}
  (locals : ∀ {k l : Nat}, P k l → d.locals[l]? = c.locals[k]?)

include unique

theorem read {k l : Nat} (places : P k l) :
    Operand.Same (Bits P) (t.read k).1 (u.read l).1 ∧ Vars.Same (Bits P) (t.read k).2 (u.read l).2 := by
  unfold Trace.read
  dsimp only
  rw [Vars.meets_ofLocal, Vars.meets_ofLocal, same.constants _ _ (.ofLocal places)]
  split
  · exact ⟨.of_held 0, .zero⟩
  · exact ⟨⟨.ofLocal unique places, rfl⟩, .ofLocal unique places⟩

include locals

theorem assign {k l : Nat} (places : P k l) (isConstant : Bool) :
    Trace.Same (Bits P) (t.assign c k isConstant) (u.assign d l isConstant) := by
  have var : Vars.Same (Bits P) (.ofLocal k) (.ofLocal l) := .ofLocal unique places
  unfold Trace.assign
  dsimp only
  rw [locals places]
  refine ⟨?_, ?_, same.isDead⟩
  · rw [List.forall₂_map_left_iff, List.forall₂_map_right_iff]
    refine same.stack.imp fun o o' operand => ?_
    unfold Operand.detach
    rw [Vars.meets_ofLocal, Vars.meets_ofLocal, operand.vars.agree _ _ (.ofLocal places), operand.held]
    split
    · exact ⟨operand.vars.without var.agree, rfl⟩
    · exact operand
  · dsimp only
    split
    · exact same.constants.union var.agree
    · exact same.constants.without var.agree

theorem forget {a b : Vars} (vars : Vars.Same (Bits P) a b) :
    Trace.Same (Bits P) (t.forget c a) (u.forget d b) := by
  refine ⟨?_, same.constants.without vars.agree, same.isDead⟩
  unfold Trace.forget
  dsimp only
  rw [List.forall₂_map_left_iff, List.forall₂_map_right_iff]
  refine same.stack.imp fun o o' operand => ?_
  refine ⟨operand.vars.without vars.agree, ?_⟩
  unfold Operand.detachAll
  dsimp only
  rw [operand.held, (operand.vars.and vars.agree).wordsOf_eq (Bits.unique unique)
    (agree_wideLocals locals)]

end

end Trace.Same

end

theorem assignedSeq_cons {i : Instr} (goes : goesOn i = true) (none : assigned i = 0)
    (rest : List Instr) : assignedSeq (i :: rest) = assignedSeq rest := by
  rw [assignedSeq, if_pos goes, none]
  exact Nat.zero_or _

end Frame

open WasmBuilder.Wasm.Frame (Bits Flow Traced Vars)

namespace Abridgement

variable {A : Abridgement} {P : Nat → Nat → Prop}

/-- Control gets behind an instruction of the shorter code where it got behind the instruction. -/
theorem Shortens.goesOn {i j : Instr} (shortens : A.Shortens P i j) :
    Frame.goesOn j = Frame.goesOn i := by
  cases shortens <;> rfl

mutual

theorem Shortens.assigned (unique : ∀ {k l x y : Nat}, P k l → P x y → (x = k ↔ y = l)) {i j : Instr}
    (shortens : A.Shortens P i j) : Vars.Same (Bits P) (Frame.assigned i) (Frame.assigned j) := by
  match shortens with
  | @Shortens.nameless _ _ i isNameless =>
    have none : Frame.assigned i = 0 := by
      cases i with
      | localSet | localTee | block | loop | ifThen | ifElse => cases isNameless
      | _ => rfl
    rw [none]
    exact .zero
  | .localGet _ => exact .zero
  | .localSet places => exact .ofLocal unique places
  | .call _ => exact .zero
  | .callIndirect _ => exact .zero
  | .block _ inside => exact inside.assigned unique
  | .loop _ inside => exact inside.assigned unique
  | .ifThen _ inside => exact inside.assigned unique
  | .ifElse _ yes no => exact (yes.assigned unique).union (no.assigned unique)

theorem ShortensSeq.assigned (unique : ∀ {k l x y : Nat}, P k l → P x y → (x = k ↔ y = l))
    {code code' : List Instr} (shortens : A.ShortensSeq P code code') :
    Vars.Same (Bits P) (Frame.assignedSeq code) (Frame.assignedSeq code') := by
  match shortens with
  | .nil => exact .zero
  | .cons first others =>
    unfold Frame.assignedSeq
    rw [first.goesOn]
    split
    · exact (first.assigned unique).union (others.assigned unique)
    · exact first.assigned unique
  | .binary _ others =>
    have rest := others.assigned unique
    rw [Frame.assignedSeq_cons rfl rfl, Frame.assignedSeq_cons rfl rfl,
      Frame.assignedSeq_cons rfl rfl, Frame.assignedSeq_cons rfl rfl]
    exact rest
  | .unary _ others =>
    have rest := others.assigned unique
    rw [Frame.assignedSeq_cons rfl rfl, Frame.assignedSeq_cons rfl rfl,
      Frame.assignedSeq_cons rfl rfl]
    exact rest
  | .behindReturn _ _ => exact .zero

end

section
variable {c d : Context} {t u : Frame.Trace}

theorem trace_nameless (contexts : A.Contexts P c d) (same : Frame.Trace.Same (Bits P) t u) {i : Instr}
    (isNameless : i.isNameless = true) : Traced (Bits P) (Frame.trace c i t) (Frame.trace d i u) := by
  have typed := contexts.type?_nameless isNameless
  have applied := same.apply (Frame.isPure i) (i.type? c)
  cases i with
  | drop => exact ⟨.nil, same.pop 1⟩
  | br l => exact ⟨.single (.jump [l]), { same with isDead := rfl }⟩
  | brIf l => exact ⟨.single (.mayJump [l]), same.pop 1⟩
  | ret => exact ⟨.cons .leave (.single (.use .self)), { same with isDead := rfl }⟩
  | const | binary | unary | globalGet | globalSet | load | store | memorySize | memoryGrow =>
    unfold Frame.trace
    rw [typed]
    exact applied
  | _ => cases isNameless

theorem trace_const (c : Context) (v : Value) (t : Frame.Trace) :
    Frame.trace c (.const v) t = ([], t.push .constant) := rfl

theorem isDead_push (t : Frame.Trace) (o : Frame.Operand) : (t.push o).isDead = t.isDead := rfl

theorem traceSeq_binary {op : BinOp} {a b v : Value} (carried : op.constant? a b = some v)
    (rest : List Instr) (t : Frame.Trace) (done : List Flow) :
    Frame.traceSeq c (.const a :: .const b :: .binary op :: rest) t done =
      Frame.traceSeq c (.const v :: rest) t done := by
  have isPure : Frame.isPure (.binary op) = true := by
    cases op with
    | intArith w arith =>
      have never : ¬ BinOp.CanTrap (.intArith w arith) := by
        intro traps
        rw [BinOp.constant?_of_canTrap traps] at carried
        cases carried
      rw [BinOp.canTrap_iff] at never
      exact decide_eq_true fun mem => never ⟨w, arith, mem, rfl⟩
    | _ => rfl
  have computed : Frame.trace c (.binary op) ((t.push .constant).push .constant) =
      ([], t.push .constant) := by
    simp only [Frame.trace, Instr.type?, isPure, if_true]
    rfl
  by_cases dead : t.isDead = true
  · simp only [Frame.traceSeq, trace_const, isDead_push, dead, if_true]
  · simp only [Frame.traceSeq, trace_const, computed, isDead_push, dead, Bool.false_eq_true, if_false,
      List.nil_append]

theorem traceSeq_unary {op : UnOp} {a v : Value} (carried : op.constant? a = some v)
    (rest : List Instr) (t : Frame.Trace) (done : List Flow) :
    Frame.traceSeq c (.const a :: .unary op :: rest) t done =
      Frame.traceSeq c (.const v :: rest) t done := by
  have isPure : Frame.isPure (.unary op) = true := by
    cases op with
    | trunc target source =>
      rw [UnOp.constant?_of_canTrap (UnOp.canTrap_iff.2 ⟨target, source, rfl⟩)] at carried
      cases carried
    | _ => rfl
  have computed : Frame.trace c (.unary op) (t.push .constant) = ([], t.push .constant) := by
    simp only [Frame.trace, Instr.type?, isPure, if_true]
    rfl
  by_cases dead : t.isDead = true
  · simp only [Frame.traceSeq, trace_const, isDead_push, dead, if_true]
  · simp only [Frame.traceSeq, trace_const, computed, isDead_push, dead, Bool.false_eq_true, if_false,
      List.nil_append]

theorem traceSeq_cons {i j : Instr} {rest rest' : List Instr} {done done' : List Flow}
    (first : Traced (Bits P) (Frame.trace c i t) (Frame.trace d j u))
    (before : Flow.SameSeq (Bits P) done done')
    (others : ∀ {t u : Frame.Trace} {done done' : List Flow}, Frame.Trace.Same (Bits P) t u →
      Flow.SameSeq (Bits P) done done' →
      Traced (Bits P) (Frame.traceSeq c rest t done) (Frame.traceSeq d rest' u done')) :
    Traced (Bits P) (Frame.traceSeq c (i :: rest) t done) (Frame.traceSeq d (j :: rest') u done') := by
  unfold Frame.traceSeq
  dsimp only
  rw [first.behind.isDead]
  split
  · exact ⟨first.flows.append before, first.behind⟩
  · exact others first.behind (first.flows.append before)

end

section
variable {c d : Context}

mutual

theorem Shortens.trace (contexts : A.Contexts P c d)
    (unique : ∀ {k l x y : Nat}, P k l → P x y → (x = k ↔ y = l)) {i j : Instr}
    (shortens : A.Shortens P i j) {t u : Frame.Trace} (same : Frame.Trace.Same (Bits P) t u) :
    Traced (Bits P) (Frame.trace c i t) (Frame.trace d j u) := by
  have heights : u.stack.length = t.stack.length := same.stack.length_eq.symm
  match shortens with
  | .nameless isNameless => exact trace_nameless contexts same isNameless
  | .localGet places =>
    obtain ⟨value, needed⟩ := same.read unique places
    exact ⟨.single (.use needed), same.push value⟩
  | .localSet places =>
    have value := Frame.Operand.Same.join (same.take 1)
    have isConstant : (decide ((Frame.Operand.join (u.stack.take 1)).vars = 0) &&
        decide ((Frame.Operand.join (u.stack.take 1)).held = 0)) =
        (decide ((Frame.Operand.join (t.stack.take 1)).vars = 0) &&
          decide ((Frame.Operand.join (t.stack.take 1)).held = 0)) := by
      rw [value.held, decide_eq_decide.2 value.vars.eq_zero_iff]
    refine ⟨.single (.assign (.ofLocal unique places)), ?_⟩
    unfold Frame.trace
    dsimp only
    rw [isConstant]
    exact (same.pop 1).assign unique contexts.locals places _
  | .call funcs =>
    unfold Frame.trace
    rw [contexts.funcs funcs]
    split
    · exact (same.pop _).callFlow _
    · exact ⟨.nil, same⟩
  | .callIndirect types =>
    unfold Frame.trace
    rw [contexts.types types]
    split
    · exact (same.pop _).callFlow _
    · exact ⟨.nil, same⟩
  | .block types inside =>
    unfold Frame.trace
    rw [contexts.blockType types]
    split
    next f _ =>
      have body := inside.trace contexts unique same .nil
      dsimp only
      rw [heights]
      exact ⟨.single (.block body.flows), body.behind.leaving same _ _ (inside.assigned unique).agree⟩
    next => exact ⟨.nil, same⟩
  -- a round may find what an earlier one assigned, so that is forgotten first
  | .loop types inside =>
    unfold Frame.trace
    rw [contexts.blockType types]
    split
    next f _ =>
      have changed := inside.assigned unique
      have body := inside.trace contexts unique (same.forget unique contexts.locals changed) .nil
      dsimp only
      rw [heights]
      exact ⟨.single (.loop body.flows), { body.behind with
        stack := List.rel_append (body.behind.take _) (body.behind.bottom _) }⟩
    next => exact ⟨.nil, same⟩
  | .ifThen types inside =>
    unfold Frame.trace
    rw [contexts.blockType types]
    split
    next f _ =>
      have start := same.pop 1
      have body := inside.trace contexts unique start .nil
      dsimp only
      rw [start.stack.length_eq]
      exact ⟨.single (.choose body.flows .nil),
        body.behind.leaving start _ _ (inside.assigned unique).agree⟩
    next => exact ⟨.nil, same⟩
  | .ifElse types yes no =>
    unfold Frame.trace
    rw [contexts.blockType types]
    split
    next f _ =>
      have start := same.pop 1
      have first := yes.trace contexts unique start .nil
      dsimp only
      rw [start.stack.length_eq]
      have other : Frame.Trace.Same (Bits P)
          { t.pop 1 with stack := (t.pop 1).stack.take f.params.length ++
            (Frame.traceSeq c _ (t.pop 1) []).2.bottom ((u.pop 1).stack.length - f.params.length) }
          { u.pop 1 with stack := (u.pop 1).stack.take f.params.length ++
            (Frame.traceSeq d _ (u.pop 1) []).2.bottom ((u.pop 1).stack.length - f.params.length) } :=
        { start with stack := List.rel_append (start.take _) (first.behind.bottom _) }
      have second := no.trace contexts unique other .nil
      exact ⟨.single (.choose first.flows second.flows), second.behind.leaving start _ _
        ((yes.assigned unique).union (no.assigned unique)).agree⟩
    next => exact ⟨.nil, same⟩

theorem ShortensSeq.trace (contexts : A.Contexts P c d)
    (unique : ∀ {k l x y : Nat}, P k l → P x y → (x = k ↔ y = l)) {code code' : List Instr}
    (shortens : A.ShortensSeq P code code') {t u : Frame.Trace} {done done' : List Flow}
    (same : Frame.Trace.Same (Bits P) t u) (before : Flow.SameSeq (Bits P) done done') :
    Traced (Bits P) (Frame.traceSeq c code t done) (Frame.traceSeq d code' u done') := by
  match shortens with
  | .nil => exact ⟨before, same⟩
  | .cons first others =>
    exact traceSeq_cons (first.trace contexts unique same) before fun same before =>
      others.trace contexts unique same before
  | .binary carried others =>
    rw [traceSeq_binary carried]
    exact traceSeq_cons (trace_nameless contexts same rfl) before fun same before =>
      others.trace contexts unique same before
  | .unary carried others =>
    rw [traceSeq_unary carried]
    exact traceSeq_cons (trace_nameless contexts same rfl) before fun same before =>
      others.trace contexts unique same before
  | .behindReturn lost others =>
    exact ⟨.append (.cons .leave (.single (.use .self))) before, { same with isDead := rfl }⟩

end

theorem testBit_own (params count i : Nat) : Nat.testBit ((List.range count).foldl
      (fun s k => Vars.union s (.ofLocal (params + k))) (0 : Vars)) i =
    (decide (params < i) && decide (i ≤ params + count)) := by
  induction count with
  | zero => simp
  | succ count ih =>
    rw [List.range_succ, List.foldl_append, List.foldl_cons, List.foldl_nil, Vars.testBit_union, ih,
      Vars.testBit_ofLocal, Bool.eq_iff_iff]
    simp only [Bool.or_eq_true, Bool.and_eq_true, decide_eq_true_eq]
    omega

/-- The frame of a shorter function is as large as that of the function. -/
theorem ShortensSeq.size (contexts : A.Contexts P c d) {type : FuncType} {locals locals' : List ValType}
    (places : Places P type.params locals locals') {code code' : List Instr}
    (shortens : A.ShortensSeq P code code') :
    Frame.size d type locals' code' = Frame.size c type locals code := by
  have all {k l : Nat} (here : P k l) :
      (type.params ++ locals').toArray[l]? = (type.params ++ locals).toArray[k]? := by
    rw [List.getElem?_toArray, List.getElem?_toArray]
    exact places.types here
  have within : A.Contexts P { c with locals := (type.params ++ locals).toArray }
      { d with locals := (type.params ++ locals').toArray } := { contexts with locals := all }
  -- locals that are no parameters need room from the start
  have own : Vars.Agree (Bits P)
      ((List.range locals.length).foldl
        (fun s k => Vars.union s (.ofLocal (type.params.length + k))) (0 : Vars))
      ((List.range locals'.length).foldl
        (fun s k => Vars.union s (.ofLocal (type.params.length + k))) (0 : Vars)) := by
    intro i j here
    rw [testBit_own, testBit_own, Bool.eq_iff_iff]
    simp only [Bool.and_eq_true, decide_eq_true_eq]
    cases here with
    | self => omega
    | @ofLocal k l here =>
      have types := places.types here
      have inside : l < type.params.length + locals'.length ↔ k < type.params.length + locals.length := by
        rw [← List.length_append, ← List.length_append, ← not_iff_not, Nat.not_lt, Nat.not_lt,
          ← List.getElem?_eq_none_iff, ← List.getElem?_eq_none_iff, types]
      have named := places.params here
      omega
  have start : Frame.Trace.Same (Bits P) { stack := [], constants := _ } { stack := [], constants := _ } :=
    ⟨.nil, own, rfl⟩
  have traced := shortens.trace within places.unique start .nil
  have wide : Vars.Agree (Bits P) (Frame.wideLocals (type.params ++ locals).toArray)
      (Frame.wideLocals (type.params ++ locals').toArray) := Frame.agree_wideLocals all
  have none : Vars.Same (Bits P) 0 0 := .zero
  obtain ⟨needed, room⟩ := traced.flows.measure (Bits.unique places.unique) wide
    (.cons none .nil) none {}
  unfold Frame.size
  dsimp only
  rw [room, needed.wordsOf_eq (Bits.unique places.unique) wide]

end

end Abridgement

end WasmBuilder.Wasm
