import WasmBuilder.Operand
import WasmBuilder.Proofs.Labels.Arena

/-!
Fields of composites occupy a run of the slots of the whole.
-/

set_option autoImplicit false

namespace WasmBuilder

namespace Shape

theorem flatMap_flatten_of_getElem? {fields : List Shape} {i : Nat} {field : Shape}
    (here : fields[i]? = some field) :
    ∃ before behind, fields.flatMap flatten = before ++ field.flatten ++ behind ∧
      before.length = ((fields.take i).map width).sum := by
  induction fields generalizing i with
  | nil => simp at here
  | cons s rest ih =>
    cases i with
    | zero =>
      cases here
      exact ⟨[], rest.flatMap flatten, rfl, rfl⟩
    | succ i =>
      obtain ⟨before, behind, cut, length⟩ := ih here
      refine ⟨s.flatten ++ before, behind, ?_, ?_⟩
      · rw [List.flatMap_cons, cut]
        simp only [List.append_assoc]
      · rw [List.length_append, length, ← width_eq]
        rfl

theorem getElem?_fields_of_position {s : Shape} {key : FieldKey} {i : Nat} {field : Shape}
    (found : s.position key = .ok (i, field)) :
    s.fields[i]? = some field ∧ s.flatten = s.fields.flatMap flatten := by
  unfold position at found
  split at found
  next fields index =>
    split at found
    next here => cases found; exact ⟨here, flatten_tuple fields⟩
    next => cases found
  next fields name =>
    split at found
    next at_ _ =>
      split at found
      next entry here =>
        cases found
        refine ⟨by simp [Shape.fields, here], ?_⟩
        rw [flatten_record, Shape.fields, List.flatMap_map]
      next => cases found
    next => cases found
  all_goals cases found

/-- The slots of a field are the run of its width from its offset on. -/
theorem slice_flatten {s : Shape} {key : FieldKey} {i : Nat} {field : Shape}
    (found : s.position key = .ok (i, field)) :
    s.fieldOffset i + field.width ≤ s.flatten.length ∧
      (s.flatten.drop (s.fieldOffset i)).take field.width = field.flatten := by
  obtain ⟨here, flat⟩ := getElem?_fields_of_position found
  obtain ⟨before, behind, cut, length⟩ := flatMap_flatten_of_getElem? here
  rw [flat, cut, fieldOffset, ← length, width_eq]
  constructor
  · simp only [List.length_append]
    omega
  · simp

end Shape

namespace Arena

variable {a b : Arena} {operand result : Operand} {key : FieldKey}

def Knows (a : Arena) (o : Operand) : Prop :=
  ∃ ts, a.labelSlots o.id = .ok ts ∧ ∀ shape, o.shape? = some shape → shape.flatten = ts

theorem Extends.knows {a b : Arena} (grown : a.Extends b) {o : Operand} (known : a.Knows o) :
    b.Knows o := by
  obtain ⟨ts, told, views⟩ := known
  exact ⟨ts, grown.tells told, views⟩

theorem knows_plain {id : ExprId} {ts : List NumType} (told : a.labelSlots id = .ok ts) :
    a.Knows (.plain id) :=
  ⟨ts, told, fun _ none => by cases none⟩

theorem knows_ofShape {id : ExprId} {shape : Shape}
    (told : a.labelSlots id = .ok shape.flatten) : a.Knows (.ofShape id shape) := by
  refine ⟨shape.flatten, by rwa [Operand.id_ofShape], fun other view => ?_⟩
  unfold Operand.ofShape at view
  split at view
  · cases view
    rfl
  · cases view

/-- What a field operation adds is the extract of the field, through the shape that the operand is
seen by. -/
theorem Labelled.viewField (labelled : a.Labelled) {composite : ExprId} {shape : Shape}
    (told : a.labelSlots composite = .ok shape.flatten)
    (done : a.viewField composite shape key = .ok (result, b)) : Extends a b ∧ b.Knows result := by
  unfold Arena.viewField at done
  cases found : shape.position key with
  | error e => rw [found] at done; cases done
  | ok position =>
    obtain ⟨index, field⟩ := position
    rw [found] at done
    cases done
    obtain ⟨fits, slice⟩ := Shape.slice_flatten found
    have known : composite < a.size := lt_size_of_labelSlots told
    have leaves : nodeSlots a.labelSlots a.size
        (.extract composite index (shape.fieldOffset index) field.width) = .ok field.flatten :=
      nodeSlots_extract_eq_ok_iff.2 ⟨shape.flatten, told, fits, slice.symm⟩
    have grown : Extends a (a.push _ (some field)) :=
      labelled.push (by simpa [Node.children] using known) leaves
    exact ⟨grown, knows_ofShape (labelSlots_push_size a _ field)⟩

theorem Labelled.field (labelled : a.Labelled) (known : a.Knows operand)
    (done : a.field operand key = .ok (result, b)) : Extends a b ∧ b.Knows result := by
  obtain ⟨ts, told, views⟩ := known
  unfold Arena.field at done
  cases operand with
  | view id shape =>
    rw [← views shape rfl] at told
    exact labelled.viewField told done
  | plain id =>
    obtain ⟨shape, label, rfl⟩ := labelSlots_eq_ok_iff.1 told
    simp only [Operand.id] at label
    simp only [label] at done
    exact labelled.viewField told done

end Arena

end WasmBuilder
