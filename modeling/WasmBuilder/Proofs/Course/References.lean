import WasmBuilder.Proofs.Course.Session

/-!
References to callables.

A call names the function of its callable, or the table slot of one that is reached through the
table, and an export remembers the function. No later step changes either.
-/

set_option autoImplicit false

namespace WasmBuilder

inductive Arena.Calls (a : Arena) (c : Callable) (args : List ExprId) (id : ExprId) : Prop
  | direct (kind : ∀ slot, c.kind ≠ .indirect slot)
      (here : a.node id = .ok (.call c.func args c.signature))
  | indirect {slot : Nat} {index : ExprId} (kind : c.kind = .indirect slot)
      (chosen : a.node index = .ok (.const (.i32 (BitVec.ofNat 32 slot))))
      (here : a.node id = .ok (.callIndirect index args c.signature))

theorem Arena.Calls.lasts {a d : Arena} {c : Callable} {args : List ExprId} {id : ExprId}
    (calls : a.Calls c args id) (lasts : a.Lasts d) : d.Calls c args id := by
  cases calls with
  | direct kind here => exact .direct kind (lasts.fixed _ _ here rfl)
  | indirect kind chosen here =>
    exact .indirect kind (lasts.fixed _ _ chosen rfl) (lasts.fixed _ _ here rfl)

namespace Body

variable {b next : Body} {callable : Nat} {args : List ExprId}

theorem call_run (callable : Nat) (args : List ExprId) (b : Body) :
    call callable args b =
      match b.callables[callable]? with
      | none => .error (.unknownCallable callable) b
      | some c =>
        if args.length ≠ c.params.length then
          .error (.argumentCount c.id c.params.length args.length) b
        else
          match c.kind with
          | .indirect slot => (do
            let index ← i32 slot
            emitOperand (.callIndirect index args c.signature) c.result) b
          | .direct | .external => emitOperand (.call c.func args c.signature) c.result b := by
  show (match b.callables[callable]? with | none => _ | some c => _ : BodyM _) b = _
  cases b.callables[callable]? with
  | none => rfl
  | some c =>
    show (if _ then _ else _ : BodyM _) b = _
    dsimp only
    split
    · rfl
    · cases c.kind <;> rfl

/-- A call that succeeds is one of a declared function, with as many arguments as it takes. -/
theorem call_eq_ok {o : Operand} (done : call callable args b = .ok o next) :
    ∃ c, b.callables[callable]? = some c ∧ args.length = c.params.length ∧
      next.arena.Calls c args o.id := by
  rw [call_run] at done
  cases here : b.callables[callable]? with
  | none => simp [here] at done
  | some c =>
    simp only [here] at done
    split at done
    · cases done
    next counted =>
      have direct (kind : ∀ slot, c.kind ≠ .indirect slot)
          (done : emitOperand (.call c.func args c.signature) c.result b = .ok o next) :
          next.arena.Calls c args o.id := by
        cases done
        rw [Operand.id_ofShape]
        exact .direct kind (Arena.node_push_size ..)
      refine ⟨c, rfl, not_not.1 counted, ?_⟩
      cases kind : c.kind with
      | direct | external =>
        rw [kind] at done
        exact direct (by rw [kind]; exact nofun) done
      | indirect slot =>
        rw [kind] at done
        cases done
        -- slots are given out as numbers of 64 bits, and a constant keeps 32 of them
        have same : (BitVec.ofInt 64 slot).setWidth 32 = BitVec.ofNat 32 slot := by
          rw [BitVec.ofInt_natCast, BitVec.setWidth_ofNat_of_le (by decide)]
        rw [Operand.id_ofShape]
        refine .indirect kind ?_ (Arena.node_push_size ..)
        rw [Arena.node_push_of_lt (by simp), Arena.node_push_size, Value.ofNumber, same]

end Body

namespace Build

theorem exportAs_run (name : String) (callable : Nat) (b : Build) :
    exportAs name callable b =
      if callable ∈ b.pending then
        let taken := { b with pending := b.pending.erase callable }
        match b.callables[callable]? with
        | some c => .ok true { taken with exports := b.exports ++ [(name, c.func)] }
        | none => .ok false taken
      else .ok false b := by
  show (if _ then _ else _ : BuildM Bool) b = _
  split
  · show (match b.callables[callable]? with | some c => _ | none => _ : BuildM Bool) b = _
    cases b.callables[callable]? <;> rfl
  · rfl

theorem exports_exportAs {b : Build} (matched : b.Matched) (name : String) (callable : Nat) :
    ∃ did c, exportAs name callable b = .ok did c ∧ c.Matched ∧
      c.exports = b.exports ++ if did then [(name, callable)] else [] := by
  rw [exportAs_run]
  dsimp only
  split
  · cases here : b.callables[callable]? with
    | none => exact ⟨false, _, rfl, { matched with }, (List.append_nil _).symm⟩
    | some c =>
      have ⟨f, declared, tells⟩ := matched.tells callable c here
      have taken : Matched { b with pending := b.pending.erase callable } := { matched with }
      refine ⟨true, _, rfl, taken.tidy (.quiet (@Quiet.exports _ name callable c here)), ?_⟩
      rw [tells.func]
      rfl
  · exact ⟨false, b, rfl, matched, (List.append_nil _).symm⟩

theorem bind_of_ok {α β : Type} {m : BuildM α} {f : α → BuildM β} {b c : Build} {x : α}
    (run : m b = .ok x c) : (m >>= f) b = f x c := by
  simp only [bind, EStateM.bind, run]

theorem exports_forM {b : Build} (matched : b.Matched) (offered : List (String × Nat)) :
    ∃ c made, (offered.forM fun e => do let _ ← exportAs e.1 e.2 : BuildM PUnit) b = .ok ⟨⟩ c ∧
      c.Matched ∧ c.exports = b.exports ++ made ∧
      made.Sublist offered := by
  induction offered generalizing b with
  | nil => exact ⟨b, [], rfl, matched, (List.append_nil _).symm, .refl _⟩
  | cons e rest ih =>
    have ⟨did, c, run, matched, first⟩ := exports_exportAs matched e.1 e.2
    have ⟨d, made, others, matched, second, sublist⟩ := ih matched
    refine ⟨d, (if did then [e] else []) ++ made, ?_, matched, ?_, ?_⟩
    · have one : (do let _ ← exportAs e.1 e.2 : BuildM PUnit) b = .ok ⟨⟩ c := bind_of_ok run
      exact (bind_of_ok one).trans others
    · rw [second, first, List.append_assoc]
    · cases did with
      | true => exact sublist.cons_cons e
      | false => exact sublist.cons e

theorem exports_adopt {b c : Build} (matched : b.Matched) {key : String} {library : Library}
    (done : adopt key library b = .ok ⟨⟩ c) :
    ∃ made, c.exports = b.exports ++ made ∧ made.Sublist library.entries := by
  have ⟨d, made, run, _, exports, sublist⟩ := exports_forM matched library.entries
  cases done.symm.trans (bind_of_ok run)
  exact ⟨made, exports, sublist⟩

variable {b c : Build}

theorem exports_forM_of_pending (matched : b.Matched) {offered : List (String × Nat)}
    (awaited : ∀ e ∈ offered, e.2 ∈ b.pending ∧ e.2 < b.callables.size)
    (distinct : (offered.map (·.2)).Nodup) :
    ∃ c, (offered.forM fun e => do let _ ← exportAs e.1 e.2 : BuildM PUnit) b = .ok ⟨⟩ c ∧
      c.exports = b.exports ++ offered := by
  -- on what is offered; the callables are distinct, so the rest still waits
  induction offered generalizing b with
  | nil => exact ⟨b, rfl, (List.append_nil _).symm⟩
  | cons e rest ih =>
    obtain ⟨name, k⟩ := e
    obtain ⟨waits, inside⟩ := awaited _ List.mem_cons_self
    obtain ⟨new, distinct⟩ := List.nodup_cons.1 distinct
    have here := Array.getElem?_eq_getElem inside
    obtain ⟨f, -, tells⟩ := matched.tells k _ here
    let taken : Build := { b with
      pending := b.pending.erase k, exports := b.exports ++ [(name, k)] }
    have run : exportAs name k b = .ok true taken := by
      rw [exportAs_run, if_pos waits]
      dsimp only
      rw [here]
      dsimp only
      rw [tells.func]
    have matched' : taken.Matched := by
      have waited : Matched { b with pending := b.pending.erase k } := { matched with }
      have exported := waited.tidy (.quiet (@Quiet.exports _ name k _ here))
      rwa [tells.func] at exported
    have awaited' : ∀ e ∈ rest, e.2 ∈ taken.pending ∧ e.2 < taken.callables.size := by
      intro e mem
      obtain ⟨waits', inside'⟩ := awaited e (List.mem_cons_of_mem _ mem)
      have other : e.2 ≠ k := by
        rintro rfl
        have listed : e.2 ∈ rest.map (·.2) := List.mem_map_of_mem mem
        exact new listed
      exact ⟨(List.mem_erase_of_ne other).2 waits', inside'⟩
    obtain ⟨c, others, exports⟩ := ih matched' awaited' distinct
    refine ⟨c, ?_, by rw [exports, List.append_assoc]; rfl⟩
    have one : (do let _ ← exportAs name k : BuildM PUnit) b = .ok ⟨⟩ taken := bind_of_ok run
    exact (bind_of_ok one).trans others

theorem exports_adopt_of_pending (matched : b.Matched) {key : String} {library : Library}
    (awaited : ∀ e ∈ library.entries, e.2 ∈ b.pending ∧ e.2 < b.callables.size)
    (distinct : (library.entries.map (·.2)).Nodup) (done : adopt key library b = .ok ⟨⟩ c) :
    c.exports = b.exports ++ library.entries := by
  obtain ⟨d, run, exports⟩ := exports_forM_of_pending matched awaited distinct
  cases done.symm.trans (bind_of_ok run)
  exact exports

theorem guarded_eq_ok {α : Type} {step : BuildM α} {x : α} (done : guarded step b = .ok x c) :
    step b = .ok x c := by
  unfold guarded at done
  split at done
  next run => exact run.trans done
  next => cases done

theorem mount_eq_ok {key : String} {build : BuildM Library} {library : Library}
    (new : b.mounted? key = none) (done : mount key build b = .ok library c) :
    ∃ d, build b = .ok library d ∧ adopt key library d = .ok ⟨⟩ c := by
  unfold mount at done
  obtain ⟨_, _, seen, done⟩ := exists_of_bind_eq_ok done
  cases seen
  rw [new] at done
  obtain ⟨library', d, built, done⟩ := exists_of_bind_eq_ok done
  obtain ⟨⟨⟩, e, adopted, last⟩ := exists_of_bind_eq_ok done
  cases last
  exact ⟨d, guarded_eq_ok built, adopted⟩

end Build

end WasmBuilder
