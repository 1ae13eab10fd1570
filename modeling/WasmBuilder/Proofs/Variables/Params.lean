import WasmBuilder.Lower.Code
import WasmBuilder.Proofs.Course.Session

/-!
Parameters among the variables of a function.

The variables of a function begin with its parameters. A parameter that was declared without a shape
takes one when it is first assigned, and then its machine locals are none that a caller fills.
-/

set_option autoImplicit false

namespace WasmBuilder

def Shape.Settles (declared shape : Shape) : Prop := shape = declared ∨ declared = .auto

theorem Slot.Becomes.settles {a b : Slot} (becomes : a.Becomes b) : a.shape.Settles b.shape := by
  cases becomes with
  | same => exact .inl rfl
  | typed => exact .inr rfl

theorem Bindings.flatten_eq (bindings : Bindings) :
    bindings.flatten = (bindings.map (·.2)).flatMap Shape.flatten := by
  rw [Bindings.flatten, List.flatMap_map]

section
variable {declared shapes : List Shape} (settle : List.Forall₂ Shape.Settles declared shapes)

include settle

theorem length_flatten_of_settles :
    (declared.flatMap Shape.flatten).length ≤ (shapes.flatMap Shape.flatten).length := by
  induction settle with
  | nil => exact Nat.le_refl _
  | cons settles _ ih =>
    simp only [List.flatMap_cons, List.length_append]
    rcases settles with rfl | rfl
    · exact Nat.add_le_add_left ih _
    · exact Nat.le_trans (Nat.le_of_eq (Nat.zero_add _)) (Nat.le_trans ih (Nat.le_add_left _ _))

/-- Shapes take the numbers that were declared when those that were open take none. -/
theorem flatten_eq_iff_of_settles :
    shapes.flatMap Shape.flatten = declared.flatMap Shape.flatten ↔
      List.Forall₂ (fun d s => d = .auto → s.flatten = []) declared shapes := by
  induction settle with
  | nil => simp
  | @cons d s declared shapes settles rest ih =>
    rw [List.forall₂_cons, ← ih, List.flatMap_cons, List.flatMap_cons]
    rcases settles with rfl | rfl
    · have none : s = .auto → s.flatten = [] := by
        rintro rfl
        rfl
      rw [List.append_cancel_left_eq, and_iff_right none]
    · rw [Shape.flatten_auto, List.nil_append]
      constructor
      · intro same
        -- the others take as much already
        have length := congrArg List.length same
        have le := length_flatten_of_settles rest
        rw [List.length_append] at length
        have empty : s.flatten = [] := List.length_eq_zero_iff.1 (by omega)
        rw [empty, List.nil_append] at same
        exact ⟨fun _ => empty, same⟩
      · rintro ⟨empty, same⟩
        rw [empty rfl, List.nil_append, same]

end

namespace Scope

def BeginsWith (s : Scope) (params : Bindings) : Prop :=
  ∀ (i : Nat) (name : String) (shape : Shape), params[i]? = some (name, shape) →
    ∃ slot, s.slots[i]? = some slot ∧ Slot.Becomes ⟨name, shape, .param⟩ slot

theorem BeginsWith.grows {s t : Scope} {params : Bindings} (begins : s.BeginsWith params)
    (grows : s.Grows t) : t.BeginsWith params := by
  intro i name shape here
  have ⟨slot, there, becomes⟩ := begins i name shape here
  have ⟨later, behind, after⟩ := grows i slot there
  exact ⟨later, behind, becomes.trans after⟩

theorem getElem?_declareAll (s : Scope) {bindings : Bindings} {i : Nat} {name : String}
    {shape : Shape} (here : bindings[i]? = some (name, shape)) (storage : Storage) :
    (s.declareAll bindings storage).slots[s.size + i]? = some ⟨name, shape, storage⟩ := by
  induction bindings generalizing s i with
  | nil => simp at here
  | cons b rest ih =>
    cases i with
    | zero =>
      cases here
      exact slots_declareAll (s := s.declare name shape storage) (by simp [declare, size]) rest storage
    | succ i =>
      have later := ih (s.declare b.1 b.2 storage) here
      rw [size_declare, Nat.add_assoc, Nat.add_comm 1] at later
      exact later

/-- The numbers of the slots of parameters are those that a caller gives. -/
def Takes (s : Scope) (params : Bindings) : Prop :=
  (s.shapes.take params.length).flatMap Shape.flatten = params.flatten

instance (s : Scope) (params : Bindings) : Decidable (s.Takes params) :=
  inferInstanceAs (Decidable (_ = _))

theorem Takes.isPrefix {s : Scope} {params : Bindings} (takes : s.Takes params) :
    params.flatten <+: s.shapes.flatMap Shape.flatten := by
  refine ⟨(s.shapes.drop params.length).flatMap Shape.flatten, ?_⟩
  rw [← show _ = params.flatten from takes, ← List.flatMap_append, List.take_append_drop]

namespace BeginsWith

variable {s : Scope} {params : Bindings} (begins : s.BeginsWith params)

include begins

theorem length_le : params.length ≤ s.shapes.length := by
  apply Nat.le_of_not_lt
  intro short
  have ⟨slot, there, _⟩ := begins s.shapes.length _ _ (List.getElem?_eq_getElem short)
  have inside := (Array.getElem?_eq_some_iff.1 there).1
  rw [shapes, List.length_map, Array.length_toList] at inside
  exact Nat.lt_irrefl _ inside

theorem forall₂_iff {R : Shape → Shape → Prop} :
    List.Forall₂ R (params.map (·.2)) (s.shapes.take params.length) ↔
      ∀ (i : Nat) (name : String) (declared : Shape) (slot : Slot),
        params[i]? = some (name, declared) → s.slots[i]? = some slot → R declared slot.shape := by
  have le := begins.length_le
  rw [List.forall₂_iff_get]
  constructor
  · rintro ⟨_, each⟩ i name declared slot here there
    have inside := (List.getElem?_eq_some_iff.1 here).1
    have holds := each i (by simpa using inside) (by simp; omega)
    have is := shapes_of_slot there
    have ⟨_, value⟩ := List.getElem?_eq_some_iff.1 is
    have ⟨_, value'⟩ := List.getElem?_eq_some_iff.1 here
    simpa [value, value'] using holds
  · intro each
    refine ⟨by simp [le], fun i first second => ?_⟩
    have inside : i < params.length := by simpa using first
    have ⟨slot, there, _⟩ := begins i _ _ (List.getElem?_eq_getElem inside)
    have is := shapes_of_slot there
    have ⟨_, value⟩ := List.getElem?_eq_some_iff.1 is
    simpa [value] using each i _ _ slot (List.getElem?_eq_getElem inside) there

/-- Each parameter has the shape that was declared for it, if one was. -/
theorem settle : List.Forall₂ Shape.Settles (params.map (·.2)) (s.shapes.take params.length) := by
  rw [begins.forall₂_iff]
  intro i name declared slot here there
  have ⟨slot', there', becomes⟩ := begins i name declared here
  cases there.symm.trans there'
  exact becomes.settles

theorem length_flatten_le : params.flatten.length ≤ (s.shapes.map Shape.width).sum := by
  have first := length_flatten_of_settles begins.settle
  have all : s.shapes.flatMap Shape.flatten = (s.shapes.take params.length).flatMap Shape.flatten ++
      (s.shapes.drop params.length).flatMap Shape.flatten := by
    rw [← List.flatMap_append, List.take_append_drop]
  have sum := (Shape.sum_width s.shapes).symm
  rw [← Bindings.flatten_eq] at first
  rw [all, List.length_append] at sum
  omega

theorem takes_iff : s.Takes params ↔ ∀ (i : Nat) (name : String) (slot : Slot),
    params[i]? = some (name, .auto) → s.slots[i]? = some slot → slot.shape.flatten = [] := by
  rw [Takes, Bindings.flatten_eq, flatten_eq_iff_of_settles begins.settle, begins.forall₂_iff]
  constructor
  · intro each i name slot here there
    exact each i name .auto slot here there rfl
  · rintro each i name _ slot here there rfl
    exact each i name slot here there

/-- Where callers give what the parameters take, each parameter takes what it was declared with. -/
theorem flatten_eq (takes : s.Takes params) {i : Nat} {name : String} {declared : Shape} {slot : Slot}
    (here : params[i]? = some (name, declared)) (there : s.slots[i]? = some slot) :
    slot.shape.flatten = declared.flatten := by
  have ⟨slot', there', becomes⟩ := begins i name declared here
  cases there.symm.trans there'
  rcases becomes.settles with same | rfl
  · rw [same]
  · rw [begins.takes_iff.1 takes i name slot here there, Shape.flatten_auto]

theorem take_eq (takes : s.Takes params) {i : Nat} (le : i ≤ params.length) :
    (s.shapes.take i).flatMap Shape.flatten = Bindings.flatten (params.take i) := by
  have each : List.Forall₂ (fun d s => s.flatten = d.flatten) (params.map (·.2))
      (s.shapes.take params.length) :=
    begins.forall₂_iff.2 fun i name declared slot => begins.flatten_eq takes
  have first := List.forall₂_take i each
  rw [List.take_take, Nat.min_eq_left le, ← List.map_take] at first
  rw [Bindings.flatten_eq]
  generalize s.shapes.take i = shapes at first ⊢
  generalize (params.take i).map (·.2) = declared at first ⊢
  induction first with
  | nil => rfl
  | cons same _ ih => rw [List.flatMap_cons, List.flatMap_cons, same, ih]

end BeginsWith

end Scope

theorem Build.Draft.begins (draft : Build.Draft) : draft.scope.BeginsWith draft.decl.params := by
  intro i name shape here
  have first := Scope.getElem?_declareAll {} here .param
  rw [show ({} : Scope).size + i = i from Nat.zero_add i] at first
  exact ⟨_, Scope.slots_declareAll first _ _, .same _⟩

namespace Session

variable {permits : Session → Body.Step → Prop} {s t : Session}

/-- The variables of an open function came of those that it had at first. -/
theorem grows_of_reached (reached : Reached permits s) {draft : Build.Draft} {body : Body}
    (busy : s.body = some (.function draft, body)) : draft.scope.Grows body.locals := by
  induction reached generalizing body with
  | start => cases busy
  | @next s t _ step ih =>
    cases step with
    | openFunction idle opened =>
      obtain ⟨-, rfl, id, ⟨⟩⟩ := (Build.quiets_openFunction _ _).of_ok opened
      cases busy
      exact .refl _
    | take before may done =>
      cases busy
      exact (ih before).trans ((Body.Step.later_run _).of_ok done).1.locals
    | stumble before may failed =>
      cases busy
      exact (ih before).trans ((Body.Step.later_run _).of_error failed).locals
    | openGlobals | close | abandon => cases busy
    | refuse idle | literal idle | chore idle => cases idle.symm.trans busy

end Session

end WasmBuilder
