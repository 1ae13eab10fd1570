import WasmBuilder.Proofs.Course.Atomic
import WasmBuilder.Proofs.Labels.Fields

/-!
Fields of fields.

A path of keys leads from a shape into a shape that is part of it, past the numbers that stand in
front of that part. Following the path from an expression makes one extract for each key, each of the
one before, and what the last one leaves is that part of what the expression leaves.
-/

set_option autoImplicit false

namespace WasmBuilder

namespace Shape

/-- A key chooses a field behind these fields: the one at that index of a tuple, or the first one of
that name in a record. -/
inductive Chooses : Shape → FieldKey → List Shape → Shape → Prop
  | index {before behind : List Shape} {field : Shape} :
      Chooses (.tuple (before ++ field :: behind)) (.index before.length) before field
  | name {before behind : List (String × Shape)} {name : String} {field : Shape}
      (first : ∀ f ∈ before, f.1 ≠ name) :
      Chooses (.record (before ++ (name, field) :: behind)) (.name name) (before.map (·.2)) field

inductive Rejects : Shape → FieldKey → BuildError → Prop
  | empty {i : Nat} : Rejects (.tuple []) (.index i) (.indexOutOfRange i .none)
  | beyond {first : Shape} {rest : List Shape} {i : Nat} (out : rest.length < i) :
      Rejects (.tuple (first :: rest)) (.index i) (.indexOutOfRange i (some rest.length))
  | unknown {fields : List (String × Shape)} {name : String} (lacks : ∀ f ∈ fields, f.1 ≠ name) :
      Rejects (.record fields) (.name name) (.unknownField name)
  | unnamed {fields : List Shape} {name : String} :
      Rejects (.tuple fields) (.name name) (.unknownField name)
  | unnumbered {fields : List (String × Shape)} {i : Nat} :
      Rejects (.record fields) (.index i) (.unknownField (toString i))
  | none {key : FieldKey} : Rejects .none key .notIndexable
  | auto {key : FieldKey} : Rejects .auto key .notIndexable
  | num {type : NumType} {key : FieldKey} : Rejects (.num type) key .notIndexable

/-- A path of keys leads to a shape inside of another one, past these numbers. -/
inductive LeadsTo : Shape → List FieldKey → List NumType → Shape → Prop
  | here (s : Shape) : LeadsTo s [] [] s
  | inside {s field sub : Shape} {key : FieldKey} {before : List Shape} {path : List FieldKey}
      {past : List NumType} (chooses : s.Chooses key before field) (leads : field.LeadsTo path past sub) :
      LeadsTo s (key :: path) (before.flatMap flatten ++ past) sub

variable {s field sub : Shape} {key : FieldKey} {before : List Shape} {path : List FieldKey}
  {past : List NumType} {e : BuildError}

namespace Chooses

theorem position (chooses : s.Chooses key before field) :
    s.position key = .ok (before.length, field) := by
  cases chooses with
  | index => simp [Shape.position]
  | @name before behind name field first =>
    have at_ : (before ++ (name, field) :: behind).findIdx? (·.1 = name) = some before.length := by
      have passed : before.findIdx? (·.1 = name) = Option.none := by
        simpa [List.findIdx?_eq_none_iff] using fun n s mem => first (n, s) mem
      simp [List.findIdx?_append, List.findIdx?_cons, passed]
    simp [Shape.position, at_]

theorem fieldOffset (chooses : s.Chooses key before field) :
    s.fieldOffset before.length = (before.flatMap flatten).length := by
  rw [← sum_width]
  cases chooses <;> simp [Shape.fieldOffset, fields]

theorem flatten_eq (chooses : s.Chooses key before field) :
    ∃ behind, s.flatten = before.flatMap flatten ++ field.flatten ++ behind := by
  cases chooses with
  | @index _ behind => exact ⟨behind.flatMap flatten, by simp⟩
  | @name before behind name => exact ⟨behind.flatMap (·.2.flatten), by simp [List.flatMap_map]⟩

end Chooses

theorem Rejects.position (rejects : s.Rejects key e) : s.position key = .error e := by
  cases rejects with
  | empty => rfl
  | @beyond first rest i out =>
    have outside : (first :: rest)[i]? = Option.none := List.getElem?_eq_none (Nat.succ_le_of_lt out)
    simp [Shape.position, outside]
  | @unknown fields name lacks =>
    have missing : fields.findIdx? (·.1 = name) = Option.none := by
      simpa [List.findIdx?_eq_none_iff] using fun n s mem => lacks (n, s) mem
    simp [Shape.position, missing]
  | unnamed | unnumbered | none | auto | num => rfl

theorem first_or_lacks (fields : List (String × Shape)) (name : String) :
    (∃ before field behind, fields = before ++ (name, field) :: behind ∧
      ∀ f ∈ before, f.1 ≠ name) ∨ ∀ f ∈ fields, f.1 ≠ name := by
  induction fields with
  | nil => exact .inr fun _ mem => absurd mem List.not_mem_nil
  | cons f rest ih =>
    by_cases is : f.1 = name
    · subst is
      exact .inl ⟨[], f.2, rest, rfl, fun _ mem => absurd mem List.not_mem_nil⟩
    · rcases ih with ⟨before, field, behind, rfl, first⟩ | lacks
      · exact .inl ⟨f :: before, field, behind, rfl, List.forall_mem_cons.2 ⟨is, first⟩⟩
      · exact .inr (List.forall_mem_cons.2 ⟨is, lacks⟩)

theorem chooses_or_rejects (s : Shape) (key : FieldKey) :
    (∃ before field, s.Chooses key before field) ∨ ∃ e, s.Rejects key e := by
  cases s with
  | none => exact .inr ⟨_, .none⟩
  | auto => exact .inr ⟨_, .auto⟩
  | num type => exact .inr ⟨_, .num⟩
  | tuple fields =>
    cases key with
    | name name => exact .inr ⟨_, .unnamed⟩
    | index i =>
      by_cases inside : i < fields.length
      · have cut : fields = fields.take i ++ fields[i] :: fields.drop (i + 1) := by simp
        have length : (fields.take i).length = i := List.length_take_of_le (Nat.le_of_lt inside)
        refine .inl ⟨fields.take i, fields[i], ?_⟩
        have chooses := @Chooses.index (fields.take i) (fields.drop (i + 1)) fields[i]
        rwa [← cut, length] at chooses
      · cases fields with
        | nil => exact .inr ⟨_, .empty⟩
        | cons first rest => exact .inr ⟨_, .beyond (Nat.lt_of_succ_le (Nat.le_of_not_lt inside))⟩
  | record fields =>
    cases key with
    | index i => exact .inr ⟨_, .unnumbered⟩
    | name name =>
      rcases first_or_lacks fields name with ⟨before, field, behind, rfl, first⟩ | lacks
      · exact .inl ⟨_, _, .name first⟩
      · exact .inr ⟨_, .unknown lacks⟩

theorem leadsTo_or_rejects (s : Shape) (path : List FieldKey) :
    (∃ past sub, s.LeadsTo path past sub) ∨ ∃ valid key rest past sub e,
      path = valid ++ key :: rest ∧ s.LeadsTo valid past sub ∧ sub.Rejects key e := by
  induction path generalizing s with
  | nil => exact .inl ⟨[], s, .here s⟩
  | cons key rest ih =>
    rcases s.chooses_or_rejects key with ⟨before, field, chooses⟩ | ⟨e, rejects⟩
    · rcases ih field with ⟨past, sub, leads⟩ | ⟨valid, key', rest', past, sub, e, rfl, leads, rejects⟩
      · exact .inl ⟨_, sub, .inside chooses leads⟩
      · exact .inr ⟨key :: valid, key', rest', _, sub, e, rfl, .inside chooses leads, rejects⟩
    · exact .inr ⟨[], key, rest, [], s, e, rfl, .here s, rejects⟩

/-- The numbers of the whole, cut around the part that a path leads to. -/
theorem LeadsTo.flatten_eq (leads : s.LeadsTo path past sub) :
    ∃ behind, s.flatten = past ++ sub.flatten ++ behind := by
  induction leads with
  | here s => exact ⟨[], by simp⟩
  | inside chooses _ ih =>
    obtain ⟨behind, whole⟩ := chooses.flatten_eq
    obtain ⟨after, part⟩ := ih
    exact ⟨after ++ behind, by simp [whole, part]⟩

/-- The fields of a composite cover its numbers: each begins where the one before ends, the first one
at the start, and the last one ends at the end. -/
structure Tiled (s : Shape) : Prop where
  width : s.width = (s.fields.map width).sum
  start : s.fieldOffset 0 = 0
  next : ∀ (i : Nat) (field : Shape), s.fields[i]? = some field →
    s.fieldOffset (i + 1) = s.fieldOffset i + field.width ∧
    (s.flatten.drop (s.fieldOffset i)).take field.width = field.flatten
  stop : s.fieldOffset s.fields.length = s.flatten.length
  chosen : ∀ (key : FieldKey) (before : List Shape) (field : Shape), s.Chooses key before field →
    s.fields[before.length]? = some field ∧
    s.fieldOffset before.length = (before.flatMap flatten).length

theorem tiled (composite : s.isComposite = true) : s.Tiled := by
  have flat : s.flatten = s.fields.flatMap flatten := by
    cases s with
    | tuple fields => exact flatten_tuple fields
    | record fields => rw [flatten_record, Shape.fields, List.flatMap_map]
    | none | auto | num => cases composite
  constructor
  · rw [Shape.width_eq, flat, ← sum_width]
  · rfl
  · intro i field here
    obtain ⟨before, behind, cut, length⟩ := flatMap_flatten_of_getElem? here
    constructor
    · simp [fieldOffset, List.take_add_one, here]
    · rw [flat, cut, fieldOffset, ← length, Shape.width_eq]
      simp
  · rw [flat, fieldOffset, List.take_length, ← sum_width]
  · intro key before field chooses
    exact ⟨(getElem?_fields_of_position chooses.position).1, chooses.fieldOffset⟩

end Shape

namespace Arena

/-- An operand is seen as a shape: a view through the shape that it has, a plain expression through
its label. The expression leaves the numbers of the shape. -/
structure Sees (a : Arena) (o : Operand) (s : Shape) : Prop where
  shape : o = .view o.id s ∨ o = .plain o.id ∧ a.label o.id = .ok s
  slots : a.slots o.id = .ok s.flatten

/-- Extracts at these offsets lead from an expression to another one, each an extract of the one
before. -/
inductive Extracts (a : Arena) : ExprId → List Nat → ExprId → Prop
  | nil (id : ExprId) : Extracts a id [] id
  | cons {root next last : ExprId} {index offset width : Nat} {offsets : List Nat}
      (here : a.node next = .ok (.extract root index offset width))
      (behind : Extracts a next offsets last) : Extracts a root (offset :: offsets) last

variable {a c : Arena} {o result : Operand} {s field sub : Shape} {key : FieldKey} {before : List Shape}
  {past : List NumType} {path : List FieldKey} {e : BuildError}

theorem field_eq_viewField (sees : a.Sees o s) (key : FieldKey) :
    a.field o key = a.viewField o.id s key := by
  rcases sees.shape with is | ⟨is, label⟩
  · rw [is]
    rfl
  · rw [is, Arena.field]
    show (a.label o.id >>= _) = _
    rw [label]
    rfl

def extractOf (composite : ExprId) (before : List Shape) (field : Shape) : Node :=
  .extract composite before.length (before.flatMap Shape.flatten).length field.width

theorem field_of_chooses (sees : a.Sees o s) (chooses : s.Chooses key before field) :
    a.field o key =
      .ok (.ofShape a.size field, a.push (extractOf o.id before field) (some field)) := by
  rw [field_eq_viewField sees, viewField, chooses.position]
  simp only [bind, Except.bind, chooses.fieldOffset]
  rfl

theorem field_of_rejects (sees : a.Sees o s) (rejects : s.Rejects key e) :
    a.field o key = .error e := by
  rw [field_eq_viewField sees, viewField, rejects.position]
  rfl

theorem sees_field (sees : a.Sees o s) (chooses : s.Chooses key before field) :
    (a.push (extractOf o.id before field) (some field)).Sees (.ofShape a.size field) field := by
  obtain ⟨behind, whole⟩ := chooses.flatten_eq
  constructor
  · unfold Operand.ofShape
    split
    · exact .inl rfl
    · exact .inr ⟨rfl, label_eq_ok_iff.2 ⟨_, a.entries_push_size _ _⟩⟩
  · rw [Operand.id_ofShape]
    have below := (continues_push a (extractOf o.id before field) (some field)).slotsWithin sees.slots
    refine slotsWithin_succ_eq_ok_iff.2 ⟨_, node_push_size a _ _, ?_⟩
    refine nodeSlots_extract_eq_ok_iff.2 ⟨s.flatten, ?_, ?_, ?_⟩
    · rw [size_push]
      exact below
    · simp [whole, Shape.width_eq]
    · simp [whole, Shape.width_eq]

/-- A path was followed from an operand to a part of it, past these numbers: one extract was made for
each key, with offsets that come to the numbers passed, and the last one has the label and the width of
the part. Nothing that was there is changed. -/
structure Follows (a c : Arena) (o : Operand) (path : List FieldKey) (past : List NumType)
    (result : Operand) (sub : Shape) : Prop where
  sees : c.Sees result sub
  kept : ∀ (id : ExprId) (entry : Entry), a.entries[id]? = some entry → c.entries[id]? = some entry
  size : c.size = a.size + path.length
  extracts : ∃ offsets, c.Extracts o.id offsets result.id ∧ offsets.length = path.length ∧
    offsets.sum = past.length
  last : path ≠ [] → c.label result.id = .ok sub ∧
    ∃ composite index offset, c.node result.id = .ok (.extract composite index offset sub.width)

theorem Follows.nil (sees : a.Sees o s) : Follows a a o [] [] o s where
  sees := sees
  kept _ _ here := here
  size := rfl
  extracts := ⟨[], .nil _, rfl, rfl⟩
  last some := absurd rfl some

theorem Follows.cons (leads : field.LeadsTo path past sub)
    (follows : Follows (a.push (extractOf o.id before field) (some field)) c (.ofShape a.size field)
      path past result sub) :
    Follows a c o (key :: path) (before.flatMap Shape.flatten ++ past) result sub := by
  have made := follows.kept _ _ (a.entries_push_size (extractOf o.id before field) (some field))
  obtain ⟨offsets, extracts, length, sum⟩ := follows.extracts
  rw [Operand.id_ofShape] at extracts
  constructor
  · exact follows.sees
  · intro id entry here
    have old := (Array.getElem?_eq_some_iff.1 here).1
    exact follows.kept id entry ((entries_push_of_lt old _ _).trans here)
  · rw [follows.size, size_push, List.length_cons]
    omega
  · refine ⟨_ :: offsets, .cons (node_eq_ok_iff.2 ⟨_, made⟩) extracts, ?_, ?_⟩
    · rw [List.length_cons, length, List.length_cons]
    · rw [List.sum_cons, sum, List.length_append]
  · intro _
    cases leads with
    | inside => exact follows.last nofun
    | here =>
      -- the path ends here, so the extract that was made first is the last one
      cases List.length_eq_zero_iff.1 length
      generalize result.id = last at extracts ⊢
      cases extracts
      exact ⟨label_eq_ok_iff.2 ⟨_, made⟩, _, _, _, node_eq_ok_iff.2 ⟨_, made⟩⟩

end Arena

namespace Body

variable {b : Body} {o : Operand} {s field sub : Shape} {key : FieldKey} {before : List Shape}
  {past : List NumType} {path : List FieldKey} {e : BuildError}

def follow (path : List FieldKey) (o : Operand) : BodyM Operand := path.foldlM Body.field o

theorem field_run (o : Operand) (key : FieldKey) (b : Body) :
    Body.field o key b = match b.arena.field o key with
      | .ok (result, arena) => .ok result { b with arena }
      | .error e => .error e b := by
  rw [Body.field, ask_bind]
  cases b.arena.field o key <;> rfl

theorem follow_cons {result : Operand} {c : Body} (first : Body.field o key b = .ok result c)
    (rest : List FieldKey) : follow (key :: rest) o b = follow rest result c := by
  rw [follow, List.foldlM_cons]
  exact bind_of_ok first

theorem exists_follow (sees : b.arena.Sees o s) (leads : s.LeadsTo path past sub) :
    ∃ result c, (∀ rest, follow (path ++ rest) o b = follow rest result { b with arena := c }) ∧
      b.arena.Follows c o path past result sub := by
  induction leads generalizing b o with
  | here s => exact ⟨o, b.arena, fun _ => rfl, .nil sees⟩
  | inside chooses leads ih =>
    have made := (field_run o _ b).trans (by rw [Arena.field_of_chooses sees chooses])
    obtain ⟨result, c, done, follows⟩ := ih (b := { b with arena := _ })
      (Arena.sees_field sees chooses)
    exact ⟨result, c, fun rest => (follow_cons made _).trans (done rest), follows.cons leads⟩

/-- A path of keys is followed as far as they are valid, and selects a run of the numbers. -/
theorem paths_select_slices (sees : b.arena.Sees o s) :
    (∀ path past sub, s.LeadsTo path past sub → ∃ result c,
      follow path o b = .ok result { b with arena := c } ∧
      b.arena.Follows c o path past result sub ∧
      c.slots result.id = .ok sub.flatten ∧
      (s.flatten.drop past.length).take sub.width = sub.flatten ∧
      (∃ behind, s.flatten = past ++ sub.flatten ++ behind) ∧
      (sub.isComposite = true → sub.Tiled)) ∧
    (∀ path past sub key e rest, s.LeadsTo path past sub → sub.Rejects key e → ∃ result c,
      follow path o b = .ok result { b with arena := c } ∧
      follow (path ++ key :: rest) o b = .error e { b with arena := c }) ∧
    ∀ path, (∃ past sub, s.LeadsTo path past sub) ∨ ∃ valid key rest past sub e,
      path = valid ++ key :: rest ∧ s.LeadsTo valid past sub ∧ sub.Rejects key e := by
  refine ⟨fun path past sub leads => ?_, fun path past sub key e rest leads rejects => ?_,
    s.leadsTo_or_rejects⟩
  · obtain ⟨result, c, done, follows⟩ := exists_follow sees leads
    obtain ⟨behind, whole⟩ := leads.flatten_eq
    have ends := done []
    rw [List.append_nil] at ends
    refine ⟨result, c, ends, follows, follows.sees.slots, ?_, ⟨behind, whole⟩, Shape.tiled⟩
    rw [whole, Shape.width_eq]
    simp
  · obtain ⟨result, c, done, follows⟩ := exists_follow sees leads
    have ends := done []
    rw [List.append_nil] at ends
    refine ⟨result, c, ends, (done _).trans ?_⟩
    -- the last key is refused, with all fields before it made
    have failed := field_run result key { b with arena := c }
    simp only [Arena.field_of_rejects follows.sees rejects] at failed
    rw [follow, List.foldlM_cons]
    exact bind_of_error failed

def repeatedNames : Shape := .record [("p", .tuple []), ("q", .tuple [.i64, .f32]), ("q", .i32)]

def readingNested : Body where
  arena := ⟨#[⟨.localGet 0 (.tuple [.i32, repeatedNames, .none]),
    some (.tuple [.i32, repeatedNames, .none])⟩]⟩
  globals := {}
  callables := #[]
  locals := ⟨#[⟨"x", .tuple [.i32, repeatedNames, .none], .param⟩]⟩
  fresh := .local
  result := .auto

theorem paths_select_slices_of_readingNested :
    readingNested.arena.Sees (.plain 0) (.tuple [.i32, repeatedNames, .none]) ∧
    (∃ result c, follow [.index 1, .name "q", .index 1] (.plain 0) readingNested =
        .ok result { readingNested with arena := c } ∧
      c.size = 4 ∧ c.label result.id = .ok .f32 ∧ c.slots result.id = .ok [.f32]) ∧
    ∃ c, follow [.index 1, .name "p", .index 0, .index 2] (.plain 0) readingNested =
      .error (.indexOutOfRange 0 none) { readingNested with arena := c } := by
  have sees : readingNested.arena.Sees (.plain 0) (.tuple [.i32, repeatedNames, .none]) :=
    ⟨.inr ⟨rfl, rfl⟩, rfl⟩
  have ⟨valid, invalid, _⟩ := paths_select_slices sees
  have inside : Shape.Chooses (.tuple [.i32, repeatedNames, .none]) (.index 1) [.i32] repeatedNames :=
    @Shape.Chooses.index [.i32] [.none] _
  have second : repeatedNames.LeadsTo [.name "q", .index 1] [.i64] .f32 :=
    .inside (@Shape.Chooses.name [("p", .tuple [])] [("q", .i32)] "q" _ (by decide))
      (.inside (@Shape.Chooses.index [.i64] [] _) (.here .f32))
  have first : repeatedNames.LeadsTo [.name "p"] [] (.tuple []) :=
    .inside (@Shape.Chooses.name [] _ "p" _ (by decide)) (.here (.tuple []))
  obtain ⟨result, c, done, follows, slots, _⟩ := valid _ _ _ (.inside inside second)
  obtain ⟨_, d, _, failed⟩ := invalid _ _ _ (.index 0) _ [.index 2] (.inside inside first) .empty
  exact ⟨sees, ⟨result, c, done, follows.size, (follows.last nofun).1, slots⟩, d, failed⟩

end Body

end WasmBuilder
