import WasmBuilder.Proofs.Course.Candid

/-!
What functions return.

The result of a function is declared, or it is what the first returned value settles to. Values that
are returned behind that occupy the same slots, and whoever calls the function later is told this very
result.
-/

set_option autoImplicit false

namespace WasmBuilder

namespace Arena

variable {a c : Arena} {id : ExprId} {shape : Shape}

theorem settle_of_kept (kept : c.entries[id]? = a.entries[id]?) (retains : a.Retains c)
    (settled : a.settle id = .ok shape) : c.settle id = .ok shape := by
  have same : c.infer id = a.infer id := by simp only [Arena.infer, Arena.get, kept]
  obtain ⟨found, inferred, settled⟩ := bind_eq_ok_iff.1 settled
  simp only [Arena.settle, same, inferred, bind, Except.bind]
  cases found with
  | none | num | tuple | record => exact settled
  | auto =>
    obtain ⟨ts, left, settled⟩ := bind_eq_ok_iff.1 settled
    simpa only [retains.slots id ts left] using settled

theorem settle_relabel (settled : a.settle id = .ok shape) (done : a.relabel id shape = .ok c) :
    c.settle id = .ok shape :=
  settle_of_label (label_relabel done).1 (settle_known settled)

theorem exists_relabel (settled : a.settle id = .ok shape) : ∃ c, a.relabel id shape = .ok c := by
  cases here : a.get id with
  | ok entry => exact ⟨_, by rw [relabel, here]; rfl⟩
  | error e => simp [settle, Arena.infer, here, bind, Except.bind] at settled

end Arena

namespace Body

variable {step : Step} {b c : Body}

namespace Piece

/-- A piece of a step that returns nothing has nothing to do with the result, and neither has one
behind the first return. Nothing that is there is labelled anew. -/
theorem keeps_result (piece : Piece step b c) (settled : step.returned = [] ∨ b.result ≠ .auto) :
    c.result = b.result ∧ ∀ id < b.arena.size, c.arena.entries[id]? = b.arena.entries[id]? := by
  cases piece with
  | push => exact ⟨rfl, fun id old => Arena.entries_push_of_lt old _ _⟩
  | scopes | append => exact ⟨rfl, fun _ _ => rfl⟩
  | result returns first =>
    rcases settled with silent | fixed
    · cases silent.symm.trans returns
    · exact absurd first fixed

end Piece

namespace Pieces

theorem keeps_result (pieces : Pieces step b c) (settled : step.returned = [] ∨ b.result ≠ .auto) :
    c.result = b.result ∧ ∀ id < b.arena.size, c.arena.entries[id]? = b.arena.entries[id]? := by
  induction pieces with
  | refl => exact ⟨rfl, fun _ _ => rfl⟩
  | tail first piece ih =>
    obtain ⟨result, entries⟩ := ih
    obtain ⟨result', entries'⟩ := piece.keeps_result (by rwa [result])
    refine ⟨result'.trans result, fun id old => ?_⟩
    exact (entries' id (Nat.lt_of_lt_of_le old (Pieces.retains first).size_le)).trans (entries id old)

theorem settle (pieces : Pieces step b c) (settled : step.returned = [] ∨ b.result ≠ .auto)
    {id : ExprId} {shape : Shape} (before : b.arena.settle id = .ok shape) :
    c.arena.settle id = .ok shape :=
  have inside := Arena.lt_size_of_settle before
  Arena.settle_of_kept ((pieces.keeps_result settled).2 id inside) pieces.retains before

end Pieces

/-- A result settles its last value. The first one fixes the result of the body, and later ones must
occupy the same slots. -/
theorem giveResult_run (values : List ExprId) (b : Body) :
    giveResult values b =
      match values.getLast? with
      | none => .error .emptyResult b
      | some last =>
        match b.arena.settle last with
        | .error e => .error e b
        | .ok shape =>
          if b.result = .auto then
            match b.arena.relabel last shape with
            | .error e => .error e b
            | .ok arena => ending values last { b with arena, result := shape }
          else if shape.flatten = b.result.flatten then ending values last b
          else .error (.resultMismatch b.result shape) b := by
  unfold giveResult
  cases values.getLast? with
  | none => rfl
  | some last =>
    simp only [Body.settle, bind, EStateM.bind, ask_run]
    cases b.arena.settle last with
    | error e => rfl
    | ok shape =>
      have seen : (get : BodyM Body) b = .ok b b := rfl
      simp only [seen]
      by_cases first : b.result = .auto
      · simp only [first, if_true, EStateM.bind, ask_run]
        cases b.arena.relabel last shape <;> rfl
      · simp only [first, if_false, Shape.lowersLike, Bool.not_eq_true', decide_eq_false_iff_not,
          ite_not]
        split <;> rfl

variable {values : List ExprId} {last : ExprId}

theorem ending_run (values : List ExprId) (last : ExprId) (b : Body) :
    ending values last b = .ok ⟨⟩ { b with
      arena := b.arena.push (.ret (some last)) (some .none)
      statements := b.statements ++ values.dropLast ++ [b.arena.size] } := rfl

/-- A result is refused when its last value does not settle, or does not fit the one there is. -/
theorem giveResult_refused_iff (isLast : values.getLast? = some last) :
    (∃ e c, giveResult values b = .error e c) ↔ (∃ e, b.arena.settle last = .error e) ∨
      b.result ≠ .auto ∧
        ∀ shape, b.arena.settle last = .ok shape → shape.flatten ≠ b.result.flatten := by
  rw [giveResult_run, isLast]
  dsimp only
  cases settled : b.arena.settle last with
  | error e => simp
  | ok shape =>
    by_cases first : b.result = .auto
    · obtain ⟨arena, relabelled⟩ := Arena.exists_relabel settled
      simp [first, relabelled, ending_run]
    · by_cases fits : shape.flatten = b.result.flatten <;> simp [first, fits, ending_run]

theorem giveResult_eq_ok (done : giveResult values b = .ok ⟨⟩ c) :
    ∃ last shape, values.getLast? = some last ∧ b.arena.settle last = .ok shape ∧
      c.arena.settle last = .ok shape ∧
      (b.result = .auto → c.result = shape) ∧
      (b.result ≠ .auto → c.result = b.result ∧ shape.flatten = b.result.flatten) := by
  have pieces := ((pieces_giveResult values).of_ok done).1
  rw [giveResult_run] at done
  cases isLast : values.getLast? with
  | none => simp [isLast] at done
  | some last =>
    simp only [isLast] at done
    cases settled : b.arena.settle last with
    | error e => simp [settled] at done
    | ok shape =>
      simp only [settled] at done
      refine ⟨last, shape, rfl, settled, ?_⟩
      by_cases first : b.result = .auto
      · obtain ⟨arena, relabelled⟩ := Arena.exists_relabel settled
        simp only [first, if_true, relabelled] at done
        cases done
        refine ⟨?_, fun _ => rfl, absurd first⟩
        have there := Arena.settle_relabel settled relabelled
        exact Arena.settle_of_kept (Arena.entries_push_of_lt (Arena.lt_size_of_settle there) _ _)
          (Arena.continues_push _ _ _).retains there
      · simp only [first, if_false] at done
        split at done
        next fits =>
          cases done
          exact ⟨pieces.settle (.inr first) settled, fun is => absurd is first,
            fun _ => ⟨rfl, fits⟩⟩
        next => cases done

def returning (b : Body) (arena : Arena) (value : ExprId) : Body :=
  { b with
    arena := arena.push (.ret (some value)) (some .none)
    statements := b.statements ++ [arena.size] }

theorem giveResult_number {t : NumType} (result : b.result = .num t) {value : ExprId}
    (label : b.arena.label value = .ok (.num t)) :
    giveResult [value] b = .ok ⟨⟩ (b.returning b.arena value) := by
  have settled : b.arena.settle value = .ok (.num t) := Arena.settle_of_label label nofun
  rw [giveResult_run, List.getLast?_singleton]
  dsimp only
  rw [settled]
  dsimp only
  rw [result, if_neg nofun, if_pos rfl, ending_run]
  simp [returning]

/-- What is decided about the result of a body by its declaration and the values that it returned, the
first one in front. -/
structure Decides (declared : Shape) (values : List ExprId) (b : Body) : Prop where
  known : declared ≠ .auto → b.result = declared
  nothing : declared = .auto → values = [] → b.result = .auto
  /-- The result is what the first value settles to. -/
  first : declared = .auto → ∀ v ∈ values.head?, b.arena.settle v = .ok b.result
  fits : ∀ v ∈ values, ∃ shape, b.arena.settle v = .ok shape ∧ shape.flatten = b.result.flatten

namespace Decides

variable {declared : Shape} {values : List ExprId}

theorem fixed (decides : Decides declared values b) (some_ : values ≠ []) : b.result ≠ .auto := by
  by_cases isOpen : declared = .auto
  · obtain ⟨v, rest, rfl⟩ := List.exists_cons_of_ne_nil some_
    exact Arena.settle_known (decides.first isOpen v rfl)
  · rw [decides.known isOpen]
    exact isOpen

/-- Pieces that do not fix the result leave everything decided. -/
theorem pieces (decides : Decides declared values b) (pieces : Pieces step b c)
    (settled : step.returned = [] ∨ b.result ≠ .auto) : Decides declared values c := by
  have same := (pieces.keeps_result settled).1
  constructor
  · exact fun closed => same.trans (decides.known closed)
  · exact fun isOpen none => same.trans (decides.nothing isOpen none)
  · intro isOpen v mem
    rw [same]
    exact pieces.settle settled (decides.first isOpen v mem)
  · intro v mem
    obtain ⟨shape, before, fits⟩ := decides.fits v mem
    exact ⟨shape, pieces.settle settled before, by rw [same, fits]⟩

theorem giveResult (decides : Decides declared values b) {items : List ExprId}
    (done : Body.giveResult items b = .ok ⟨⟩ c) :
    Decides declared (values ++ items.getLast?.toList) c := by
  have steps := ((pieces_giveResult items).of_ok done).1
  obtain ⟨last, shape, isLast, -, settled, opens, follows⟩ := giveResult_eq_ok done
  rw [isLast]
  by_cases first : b.result = .auto
  · -- the first value: nothing was returned before it, and nothing declared
    have isOpen : declared = .auto :=
      by_contra fun closed => closed ((decides.known closed).symm.trans first)
    have none : values = [] := by_contra fun some_ => decides.fixed some_ first
    subst none
    have result := opens first
    constructor
    · exact fun closed => absurd isOpen closed
    · exact fun _ is => absurd is (List.cons_ne_nil _ _)
    · rintro - v ⟨⟩
      rw [result, settled]
    · intro v mem
      cases List.mem_singleton.1 mem
      exact ⟨shape, settled, by rw [result]⟩
  · obtain ⟨same, fits⟩ := follows first
    have before := decides.pieces steps (.inr first)
    constructor
    · exact before.known
    · exact fun _ is => absurd is (List.append_ne_nil_of_right_ne_nil _ (List.cons_ne_nil _ _))
    · intro isOpen v mem
      cases values with
      | nil => exact absurd (decides.nothing isOpen rfl) first
      | cons w rest => exact before.first isOpen v mem
    · intro v mem
      rcases List.mem_append.1 mem with old | new
      · exact before.fits v old
      · cases List.mem_singleton.1 new
        exact ⟨shape, settled, by rw [same, fits]⟩

end Decides

theorem Step.returned_cases (step : Step) :
    step.returned = [] ∨ ∃ values, step = .giveResult values := by
  cases step with
  | giveResult values => exact .inr ⟨values, rfl⟩
  | _ => exact .inl rfl

theorem Decides.take {declared : Shape} {values : List ExprId} (decides : Decides declared values b)
    {handed : Option Operand} (done : step.run b = .ok handed c) :
    Decides declared (values ++ step.returned) c := by
  rcases step.returned_cases with silent | ⟨items, rfl⟩
  · rw [silent, List.append_nil]
    exact decides.pieces ((step.pieces_run b).of_ok done).1 (.inl silent)
  · rcases Step.nothing_cases (Body.giveResult items) b with ⟨d, run, is⟩ | ⟨e, d, -, is⟩
    · cases done.symm.trans is
      exact decides.giveResult run
    · cases done.symm.trans is

theorem Decides.stumble {declared : Shape} {values : List ExprId}
    (decides : Decides declared values b) {e : BuildError} (failed : step.run b = .error e c) :
    Decides declared values c := by
  rcases step.returned_cases with silent | ⟨items, rfl⟩
  · exact decides.pieces ((step.pieces_run b).of_error failed) (.inl silent)
  · rcases Step.nothing_cases (Body.giveResult items) b with ⟨d, -, is⟩ | ⟨e, d, run, is⟩
    · cases failed.symm.trans is
    · cases failed.symm.trans is
      rcases giveResult_cases items b with ⟨e, same⟩ | ⟨_, _, _, _, _, _, other⟩
      · cases run.symm.trans same
        exact decides
      · cases run.symm.trans other

theorem flatten_finalResult (b : Body) : b.finalResult.flatten = b.result.flatten := by
  unfold finalResult
  cases b.result <;> rfl

theorem finalResult_of_fixed (fixed : b.result ≠ .auto) : b.finalResult = b.result := by
  unfold finalResult
  cases result : b.result with
  | auto => exact absurd result fixed
  | none | num | tuple | record => rfl

theorem decides_of_fixed (fixed : b.result ≠ .auto) : Decides b.result [] b where
  known _ := rfl
  nothing isOpen := absurd isOpen fixed
  first _ _ mem := nomatch mem
  fits _ mem := nomatch mem

/-- A call is labelled with the result of its callable, and leaves the numbers of it. -/
theorem label_call {o : Operand} {callable : Nat} {args : List ExprId}
    (done : call callable args b = .ok o c) : ∃ d, b.callables[callable]? = some d ∧
      c.arena.Calls d args o.id ∧ o = .ofShape o.id d.result ∧ c.arena.label o.id = .ok d.result ∧
      c.arena.slots o.id = .ok d.result.flatten := by
  obtain ⟨d, known, -, calls⟩ := call_eq_ok done
  have emitted {body : Body} {node : Node} (leaves : ∀ slots,
      Arena.nodeSlots slots body.arena.size node = .ok d.result.flatten)
      (done : emitOperand node d.result body = .ok o c) : o = .ofShape o.id d.result ∧
        c.arena.label o.id = .ok d.result ∧ c.arena.slots o.id = .ok d.result.flatten := by
    cases done
    rw [Operand.id_ofShape]
    exact ⟨rfl, Arena.label_push_size .., Arena.slots_push_size _ (leaves _)⟩
  refine ⟨d, known, calls, ?_⟩
  rw [call_run, known] at done
  dsimp only at done
  split at done
  · cases done
  · split at done
    · -- the slot is a constant before the call
      exact emitted (fun _ => rfl) done
    · exact emitted (fun _ => rfl) done
    · exact emitted (fun _ => rfl) done

end Body

namespace Build

variable {b c : Build} {k : Nat} {result : Shape}

/-- What is known about the result of a function: by itself, to its callers, and in the table. -/
structure Gives (b : Build) (k : Nat) (result : Shape) : Prop where
  function : ∃ f, b.functions[k]? = some f ∧ f.result = result
  callable : ∃ d, b.callables[k]? = some d ∧ d.result = result ∧ d.signature.results = result.flatten ∧
    ∀ slot, d.kind = .indirect slot →
      ∃ info, b.table.entries[slot]? = some (k, info) ∧ info.result = result

theorem gives_current {s : Session} : s.current.Gives k result ↔ s.build.Gives k result := by
  unfold Session.current
  split
  · exact Iff.rfl
  · exact ⟨fun gives => ⟨gives.function, gives.callable⟩, fun gives => ⟨gives.function, gives.callable⟩⟩

theorem Gives.later (gives : b.Gives k result) (later : b.Later c) : c.Gives k result := by
  obtain ⟨f, here, known⟩ := gives.function
  obtain ⟨d, declared, same, typed, slots⟩ := gives.callable
  constructor
  · obtain ⟨g, there, becomes⟩ := later.functions k f here
    exact ⟨g, there, by cases becomes <;> exact known⟩
  · refine ⟨d, later.callables k d declared, same, typed, fun slot kind => ?_⟩
    obtain ⟨info, entry, is⟩ := slots slot kind
    exact ⟨info, later.table slot _ entry, is⟩

theorem gives_closeFunction (matched : b.Matched) (draft : Draft) (body : Body) :
    ∃ c, closeFunction draft body b = .ok b.functions.size c ∧
      c.Gives b.functions.size body.finalResult := by
  have added (kind : CallKind) (table : IndirectTable) (isExported : Bool)
      (slots : ∀ slot, kind = .indirect slot → ∃ info,
        table.entries[slot]? = some (b.functions.size, info) ∧ info.result = body.finalResult) :
      ((b.withBody body).added (draft.function body) kind draft.decl.params table b.imports
        isExported).Gives b.functions.size body.finalResult := by
    constructor
    · exact ⟨_, Array.getElem?_push_size, rfl⟩
    · let d : Callable :=
        ⟨draft.id, b.functions.size, kind, draft.decl.params, body.finalResult⟩
      have last : (b.callables.push d)[b.callables.size]? = some d := Array.getElem?_push_size
      exact ⟨d, matched.size ▸ last, rfl, rfl, slots⟩
  obtain ⟨_, _, _, run⟩ := closeFunction_eq_ok matched draft body
  refine ⟨_, run, ?_⟩
  rw [closeFunction_run] at run
  dsimp only at run
  split at run
  · split at run
    next table appended =>
      have entries := IndirectTable.entries_append appended
      rw [← (EStateM.Result.ok.inj run).2]
      refine added _ _ _ fun slot kind => ?_
      cases kind
      refine ⟨⟨b.table.size, draft.id, draft.decl.params, body.finalResult⟩, ?_, rfl⟩
      rw [entries]
      exact Array.getElem?_push_size
    next => cases run
  · rw [← (EStateM.Result.ok.inj run).2]
    exact added _ _ _ nofun

end Build

namespace Session

variable {before permits : Session → Body.Step → Prop} {s t u : Session}

/-- Steps of the open body, with the values that they returned in turn. -/
inductive Returning (permits : Session → Body.Step → Prop) (s : Session) :
    List ExprId → Session → Prop
  | start : Returning permits s [] s
  | take {t : Session} {values : List ExprId} {opening : Opening} {body next : Body}
      {step : Body.Step} {handed : Option Operand} (before : Returning permits s values t)
      (busy : t.body = some (opening, body)) (may : permits t step)
      (done : step.run body = .ok handed next) :
      Returning permits s (values ++ step.returned)
        { t with body := some (opening, next), handed := handed.toList ++ t.handed }
  | stumble {t : Session} {values : List ExprId} {opening : Opening} {body next : Body}
      {step : Body.Step} {e : BuildError} (before : Returning permits s values t)
      (busy : t.body = some (opening, body)) (may : permits t step)
      (failed : step.run body = .error e next) :
      Returning permits s values { t with body := some (opening, next) }

namespace Returning

variable {values : List ExprId} (returning : Returning permits s values t)

include returning

theorem leads : Leads permits s t := by
  induction returning with
  | start => exact .refl
  | take _ busy may done ih => exact ih.tail (.take busy may done)
  | stumble _ busy may failed ih => exact ih.tail (.stumble busy may failed)

/-- Values are returned from where on steps name expressions. -/
theorem behind {first : ExprId} (candid : ∀ u step, permits u step → u.Candid first step) :
    ∀ v ∈ values, first ≤ v := by
  induction returning with
  | start => exact fun _ mem => nomatch mem
  | take _ _ may _ ih =>
    intro v mem
    rcases List.mem_append.1 mem with old | new
    · exact ih v old
    · exact (candid _ _ may).behind _ (Body.Step.plain_of_returned new)
  | stumble _ _ _ _ ih => exact ih

/-- The result is decided by the declaration and by what was returned, throughout. -/
theorem decides {opening : Opening} {body : Body} {declared : Shape}
    (busy : s.body = some (opening, body)) (decides : body.Decides declared []) :
    ∃ next, t.body = some (opening, next) ∧ next.Decides declared values := by
  induction returning with
  | start => exact ⟨body, busy, decides⟩
  | take _ busy' _ done ih =>
    obtain ⟨last, still, decides⟩ := ih
    cases busy'.symm.trans still
    exact ⟨_, rfl, decides.take done⟩
  | stumble _ busy' _ failed ih =>
    obtain ⟨last, still, decides⟩ := ih
    cases busy'.symm.trans still
    exact ⟨_, rfl, decides.stumble failed⟩

end Returning

/-- Steps of a body that is opened now add no raw nodes and name no expression before this one. It was so
before the body too, or all that they name is made in it. -/
def Sincere (before permits : Session → Body.Step → Prop) (s : Session) (first : ExprId) : Prop :=
  (s.arena.size ≤ first ∨ ∀ u step, before u step → u.Candid first step) ∧
    ∀ u step, permits u step → u.Candid first step

/-- The result of a function whose body got that far, with the values that it returned. -/
structure ResultAgrees (before permits : Session → Body.Step → Prop) (s : Session) (declared : Shape)
    (values : List ExprId) (draft : Build.Draft) (last : Body) (t : Session) : Prop where
  /-- Once it is fixed, no step of the body changes it. -/
  fixed : last.result ≠ .auto → ∀ (more : List ExprId) (u : Session), Returning permits t more u →
    ∃ next, u.body = some (.function draft, next) ∧ next.result = last.result
  known : declared ≠ .auto → last.finalResult = declared
  nothing : declared = .auto → values = [] → last.finalResult = .none
  first : declared = .auto → ∀ v ∈ values.head?, last.arena.settle v = .ok last.finalResult
  /-- Values are refused exactly when the last one does not settle, or occupies other slots than a
  result that is fixed. -/
  refused : ∀ (items : List ExprId) (v : ExprId), items.getLast? = some v →
    ((∃ e next, Body.giveResult items last = .error e next) ↔ (∃ e, last.arena.settle v = .error e) ∨
      last.result ≠ .auto ∧
        ∀ shape, last.arena.settle v = .ok shape → shape.flatten ≠ last.result.flatten)
  /-- Without raw nodes, values settle unless their shapes cannot be told, and what they settle to is
  what they leave on the stack. -/
  settles : ∀ first, Sincere before permits s first → ∀ v, first ≤ v →
    ((∃ e, last.arena.settle v = .error e) ↔ ∃ e, last.arena.infer v = .error e) ∧
      ∀ shape, last.arena.settle v = .ok shape → last.arena.slots v = .ok shape.flatten
  /-- The declaration succeeds. Whatever happens later, the returned values leave the numbers of the
  result, and the function, its callable and its entry in the table have this result; so has every
  call. -/
  closes : ∃ c, Build.closeFunction draft last t.build = .ok t.build.functions.size c ∧
    ∀ u, Leads (fun _ _ => True) ⟨c, none, t.handed⟩ u →
      ((∃ first, Sincere before permits s first) → ∀ v ∈ values,
        u.arena.slots v = .ok last.finalResult.flatten) ∧
      u.build.Gives t.build.functions.size last.finalResult ∧
      ∀ (opening : Opening) (body next : Body) (args : List ExprId) (o : Operand),
        u.body = some (opening, body) →
        Body.call t.build.functions.size args body = .ok o next →
        ∃ d, u.build.callables[t.build.functions.size]? = some d ∧
          d.signature.results = last.finalResult.flatten ∧ next.arena.Calls d args o.id ∧
          o = .ofShape o.id last.finalResult ∧ next.arena.label o.id = .ok last.finalResult ∧
          next.arena.slots o.id = .ok last.finalResult.flatten

theorem exists_close {draft : Build.Draft} {last : Body} (reached : Reached permits t)
    (busy : t.body = some (.function draft, last)) :
    ∃ c, Build.closeFunction draft last t.build = .ok t.build.functions.size c ∧
      c.arena = last.arena ∧ c.Gives t.build.functions.size last.finalResult ∧
      Reached permits ⟨c, none, t.handed⟩ := by
  have matched : t.build.Matched := by
    have matched := matched_of_reached reached
    rw [current_of_busy busy] at matched
    exact { matched with }
  obtain ⟨c, closed, gives⟩ := Build.gives_closeFunction matched draft last
  have left := Build.left_close closed
  refine ⟨c, closed, ?_, gives, ?_⟩
  · rw [← left]
    exact Build.arena_close (.function draft) last t.build
  · have next := reached.next (.close busy)
    rwa [left] at next

/-- What is known of the result of a function is known for good. -/
theorem Leads.gives {c : Build} {handed : List Operand} {k : Nat} {result : Shape}
    (leads : Leads permits ⟨c, none, handed⟩ u) (gives : c.Gives k result) : u.build.Gives k result :=
  Build.gives_current.1 ((Build.gives_current.2 gives).later leads.later)

theorem call_of_gives {opening : Opening} {body next : Body} {k : Nat} {result : Shape}
    {args : List ExprId} {o : Operand} (reached : Reached permits u)
    (gives : u.build.Gives k result) (busy : u.body = some (opening, body))
    (called : Body.call k args body = .ok o next) :
    ∃ d, u.build.callables[k]? = some d ∧ d.signature.results = result.flatten ∧
      next.arena.Calls d args o.id ∧ o = .ofShape o.id result ∧
      next.arena.label o.id = .ok result ∧ next.arena.slots o.id = .ok result.flatten := by
  obtain ⟨d, known, calls, is, label, slots⟩ := Body.label_call called
  obtain ⟨d', declared, same, typed, -⟩ := gives.callable
  rw [(orderly_of_reached reached).callables opening body busy] at known
  cases known.symm.trans declared
  rw [same] at is label slots
  exact ⟨d, known, typed, calls, is, label, slots⟩

theorem Sincere.truthful {first : ExprId} {c : Build} {opened : Opening × Body}
    (sincere : Sincere before permits s first) (same : opened.2.arena = s.arena)
    (reached : Reached before ⟨c, some opened, s.handed⟩)
    (leads : Leads permits ⟨c, some opened, s.handed⟩ t) : t.Truthful first := by
  have begins : Truthful ⟨c, some opened, s.handed⟩ first := by
    rcases sincere.1 with fresh | candid
    · refine truthful_of_size_le reached ?_
      show opened.2.arena.size ≤ first
      rwa [same]
    · exact truthful_of_reached (reached.mono candid)
  exact begins.leads (leads.mono sincere.2)

/-- The result of a function agrees with its signature, whatever was returned in its body in whatever
steps, also where some of them failed. -/
theorem results_agree {isIndirect : Bool} {decl : FunctionDecl} {draft : Build.Draft}
    {body last : Body} {b : Build} {values : List ExprId} (reached : Reached before s)
    (idle : s.body = none)
    (opened : Build.openFunction isIndirect decl s.build = .ok (draft, body) b)
    (returning : Returning permits ⟨b, some (.function draft, body), s.handed⟩ values t)
    (busy : t.body = some (.function draft, last)) :
    ResultAgrees before permits s decl.result values draft last t := by
  obtain ⟨-, same, result, -⟩ := Build.arena_openFunction opened
  have start : body.Decides decl.result [] :=
    ⟨fun _ => result, fun isOpen _ => result.trans isOpen, fun _ _ => nofun, fun _ => nofun⟩
  obtain ⟨_, busy', decides⟩ := returning.decides rfl start
  cases busy.symm.trans busy'
  have begun := reached.next (.openFunction idle opened)
  -- no step names what is older than `first`, so all labels from there on are true
  have truthful {first : ExprId} (sincere : Sincere before permits s first) :
      last.arena.Truthful first :=
    (sincere.truthful (same.trans (arena_of_idle idle).symm) begun returning.leads).body busy
  have leaves {first : ExprId} (sincere : Sincere before permits s first) (v : ExprId)
      (mem : v ∈ values) : last.arena.slots v = .ok last.finalResult.flatten := by
    obtain ⟨shape, settled, fits⟩ := decides.fits v mem
    rw [last.flatten_finalResult, ← fits]
    exact (truthful sincere).slots_of_settle (returning.behind sincere.2 v mem) settled
  have always : Reached (fun _ _ => True) t :=
    (begun.mono fun _ _ _ => trivial).leads (returning.leads.mono fun _ _ _ => trivial)
  constructor
  · intro fixed more u again
    obtain ⟨next, busy', decided⟩ := again.decides busy (Body.decides_of_fixed fixed)
    exact ⟨next, busy', decided.known fixed⟩
  · intro closed
    rw [last.finalResult_of_fixed (by rwa [decides.known closed]), decides.known closed]
  · intro isOpen none
    rw [Body.finalResult, decides.nothing isOpen none]
  · intro isOpen v mem
    rw [last.finalResult_of_fixed (decides.fixed (List.ne_nil_of_mem (List.mem_of_mem_head? mem)))]
    exact decides.first isOpen v mem
  · exact fun items v isLast => Body.giveResult_refused_iff isLast
  · intro first sincere v from_
    have truthful := truthful sincere
    exact ⟨truthful.settle_error_iff from_, fun shape => truthful.slots_of_settle from_⟩
  · obtain ⟨c, closed, arena, gives, done⟩ := exists_close always busy
    refine ⟨c, closed, fun u leads => ⟨?_, leads.gives gives, ?_⟩⟩
    · rintro ⟨first, sincere⟩ v mem
      have kept := leads.retains
      rw [arena_of_idle rfl, arena] at kept
      exact kept.slots v _ (leaves sincere v mem)
    · intro opening body next args o busy called
      exact call_of_gives (done.leads leads) (leads.gives gives) busy called

/-- A function of open result that returns a long number, and then tries to return a short one. -/
theorem results_agree_of_swallowed : ∃ (t : Session) (draft : Build.Draft) (last : Body),
    t.body = some (.function draft, last) ∧ last.finalResult = .num .i64 ∧ last.statements = [1] ∧
    (∃ next, Body.giveResult [2] last = .error (.resultMismatch (.num .i64) (.num .i32)) next) ∧
    Sincere (fun _ _ => True) (Candid 0) fresh 0 ∧
    ResultAgrees (fun _ _ => True) (Candid 0) fresh .auto [0] draft last t := by
  let draft : Build.Draft := ⟨false, "f", { id := some "f", result := .auto }⟩
  have opened : Build.openFunction false draft.decl {} =
      .ok (draft, Build.newBody {} draft.scope .local .auto) {} :=
    Build.openFunction_of_free rfl (by simp [Build.isTaken])
  have begun : Returning (Candid 0)
      ⟨{}, some (.function draft, Build.newBody {} draft.scope .local .auto), []⟩ [] _ := .start
  have long := @Returning.take _ _ _ _ _ _ _ (.literal (.int 1) .i64) _ begun rfl
    ⟨rfl, by simp, by simp [Body.Step.operands]⟩ rfl
  have given := @Returning.take _ _ _ _ _ _ _ (.giveResult [0]) _ long rfl
    ⟨rfl, by simp, by simp [Body.Step.operands]⟩ rfl
  have short := @Returning.take _ _ _ _ _ _ _ (.literal (.int 1) .i32) _ given rfl
    ⟨rfl, by simp, by simp [Body.Step.operands]⟩ rfl
  have swallowed := @Returning.stumble _ _ _ _ _ _ _ (.giveResult [2]) _ short rfl
    ⟨rfl, by simp, by simp [Body.Step.operands]⟩ rfl
  refine ⟨_, draft, _, rfl, ?_, ?_, ?_, ⟨.inl (Nat.le_refl 0), fun _ _ may => may⟩,
    results_agree Reached.start rfl opened swallowed rfl⟩
  · rfl
  · rfl
  · exact ⟨_, rfl⟩

end Session

end WasmBuilder
