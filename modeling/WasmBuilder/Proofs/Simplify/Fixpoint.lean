import WasmBuilder.Proofs.Labels.Arena
import WasmBuilder.Proofs.Startup.Returns

/-!
What one sweep over the constants settles.

The sweep looks at each expression once, in handle order. Where operands are made before the
expressions that use them, the operands of an expression are settled when the sweep comes to it: by
then they are constants exactly if they come to constants at all. So nothing is left to a second
sweep, and what cannot be carried out stays in its place.
-/

set_option autoImplicit false

namespace WasmBuilder.Arena

variable {a c : Arena} {id k count : Nat} {node : Node} {v : Value}

/-- An expression made of constants and operations that can be carried out on them, and the constant
that it comes to from the leaves up. -/
inductive ComesTo (a : Arena) : ExprId → Value → Prop
  | const {id : ExprId} {v : Value} (here : a.node id = .ok (.const v)) : ComesTo a id v
  | binary {id left right : ExprId} {op : BinOp} {x y v : Value}
      (here : a.node id = .ok (.binary op left right)) (first : ComesTo a left x)
      (second : ComesTo a right y) (done : op.constant? x y = some v) : ComesTo a id v
  | unary {id operand : ExprId} {op : UnOp} {x v : Value} (here : a.node id = .ok (.unary op operand))
      (only : ComesTo a operand x) (done : op.constant? x = some v) : ComesTo a id v

def CanCarryOut (a : Arena) (id : ExprId) : Prop :=
  ∃ node v, a.node id = .ok node ∧ node.isOperation = true ∧ a.ComesTo id v

namespace ComesTo

theorem exists_node (comes : a.ComesTo id v) : ∃ node, a.node id = .ok node := by
  cases comes <;> exact ⟨_, ‹_›⟩

theorem unique {w : Value} (comes : a.ComesTo id v) (other : a.ComesTo id w) : v = w := by
  induction comes generalizing w with
  | const here =>
    cases other with
    | const there =>
      cases here.symm.trans there
      rfl
    | binary there | unary there => cases here.symm.trans there
  | binary here _ _ done first second =>
    cases other with
    | const there | unary there => cases here.symm.trans there
    | binary there one two done' =>
      cases here.symm.trans there
      cases first one
      cases second two
      exact Option.some.inj (done.symm.trans done')
  | unary here _ done only =>
    cases other with
    | const there | binary there => cases here.symm.trans there
    | unary there one done' =>
      cases here.symm.trans there
      cases only one
      exact Option.some.inj (done.symm.trans done')

/-- The constant has the type that the expression leaves. -/
theorem slots (comes : a.ComesTo id v) (here : a.node id = .ok node)
    (below : ExprId → Except BuildError (List NumType)) : nodeSlots below id node = .ok [v.type] := by
  cases comes with
  | const there =>
    cases here.symm.trans there
    rfl
  | binary there _ _ done =>
    cases here.symm.trans there
    rw [BinOp.type_of_constant? done]
    rfl
  | unary there _ done =>
    cases here.symm.trans there
    rw [UnOp.type_of_constant? done]
    rfl

end ComesTo

/-- An operation can be carried out on settled operands exactly if it comes to a constant. -/
theorem foldNode?_eq_some_iff (here : a.node id = .ok node)
    (settled : ∀ child ∈ node.children, ∀ x, c.constant? child = some x ↔ a.ComesTo child x) :
    c.foldNode? node = some v ↔ node.isOperation = true ∧ a.ComesTo id v := by
  constructor
  · intro carried
    refine ⟨Node.isOperation_of_foldNode? carried, ?_⟩
    cases node with
    | binary op left right =>
      obtain ⟨x, first, carried⟩ := Option.bind_eq_some_iff.1 carried
      obtain ⟨y, second, done⟩ := Option.bind_eq_some_iff.1 carried
      exact .binary here ((settled left (by simp [Node.children]) x).1 first)
        ((settled right (by simp [Node.children]) y).1 second) done
    | unary op operand =>
      obtain ⟨x, only, done⟩ := Option.bind_eq_some_iff.1 carried
      exact .unary here ((settled operand (by simp [Node.children]) x).1 only) done
    | _ => cases carried
  · rintro ⟨operation, comes⟩
    cases comes with
    | const there =>
      cases here.symm.trans there
      cases operation
    | binary there first second done =>
      cases here.symm.trans there
      exact Option.bind_eq_some_iff.2 ⟨_, (settled _ (by simp [Node.children]) _).2 first,
        Option.bind_eq_some_iff.2 ⟨_, (settled _ (by simp [Node.children]) _).2 second, done⟩⟩
    | unary there only done =>
      cases here.symm.trans there
      exact Option.bind_eq_some_iff.2 ⟨_, (settled _ (by simp [Node.children]) _).2 only, done⟩

/-- The sweep has come to handle `k`: what comes to a constant below is that constant, everything
else is as it was, and the operations among the former are counted. -/
structure Swept (a : Arena) (k : Nat) (c : Arena) (count : Nat) : Prop where
  carried : ∀ id < k, ∀ v, a.ComesTo id v →
    c.entries[id]? = (a.entries[id]?).map fun entry => { entry with node := .const v }
  kept : ∀ id, (id < k → ∀ v, ¬ a.ComesTo id v) → c.entries[id]? = a.entries[id]?
  counted : ∃ ids : List ExprId, ids.Nodup ∧ ids.length = count ∧
    ∀ id, id ∈ ids ↔ id < k ∧ a.CanCarryOut id

namespace Swept

theorem node_of_comesTo (swept : Swept a k c count) (below : id < k) (comes : a.ComesTo id v) :
    c.node id = .ok (.const v) := by
  obtain ⟨node, here⟩ := comes.exists_node
  exact node_of_changed (f := fun _ => .const v) (swept.carried id below v comes) here

theorem node_of_not_comesTo (swept : Swept a k c count) (stays : id < k → ∀ v, ¬ a.ComesTo id v) :
    c.node id = a.node id :=
  node_eq_of_entry (swept.kept id stays)

/-- Below the sweep, the constants are what comes to constants. -/
theorem constant? (swept : Swept a k c count) (below : id < k) :
    c.constant? id = some v ↔ a.ComesTo id v := by
  rw [constant?_eq_some_iff]
  constructor
  · intro found
    by_cases comes : ∃ w, a.ComesTo id w
    · obtain ⟨w, comes⟩ := comes
      cases found.symm.trans (swept.node_of_comesTo below comes)
      exact comes
    · rw [swept.node_of_not_comesTo fun _ w other => comes ⟨w, other⟩] at found
      exact .const found
  · exact swept.node_of_comesTo below

theorem skip (swept : Swept a k c count) (here : a.node k = .ok node)
    (stays : ∀ v, a.ComesTo k v → node.isOperation = false) : Swept a (k + 1) c count where
  carried id below v comes := by
    rcases Nat.lt_succ_iff_lt_or_eq.1 below with below | rfl
    · exact swept.carried id below v comes
    · -- it is that constant already
      have plain := stays v comes
      obtain ⟨label, entry⟩ := node_eq_ok_iff.1 here
      rw [swept.kept id fun below => absurd below (Nat.lt_irrefl id), entry]
      cases comes with
      | const there =>
        cases here.symm.trans there
        rfl
      | binary there | unary there =>
        cases here.symm.trans there
        cases plain
  kept id stays := swept.kept id fun below => stays (Nat.lt_succ_of_lt below)
  counted := by
    obtain ⟨ids, nodup, length, all⟩ := swept.counted
    refine ⟨ids, nodup, length, fun id => ⟨fun mem => ?_, ?_⟩⟩
    · obtain ⟨below, can⟩ := (all id).1 mem
      exact ⟨Nat.lt_succ_of_lt below, can⟩
    · rintro ⟨below, can⟩
      rcases Nat.lt_succ_iff_lt_or_eq.1 below with below | rfl
      · exact (all id).2 ⟨below, can⟩
      · obtain ⟨other, v, there, operation, comes⟩ := can
        cases here.symm.trans there
        cases (stays v comes).symm.trans operation

theorem carry (swept : Swept a k c count) {entry : Entry} (here : a.entries[k]? = some entry)
    (operation : entry.node.isOperation = true) (comes : a.ComesTo k v) :
    Swept a (k + 1) ⟨c.entries.setIfInBounds k { entry with node := .const v }⟩ (count + 1) := by
  have there : c.entries[k]? = some entry :=
    (swept.kept k fun below => absurd below (Nat.lt_irrefl k)).trans here
  have at_other {id : Nat} (apart : id ≠ k) :
      (c.entries.setIfInBounds k { entry with node := .const v })[id]? = c.entries[id]? :=
    Array.getElem?_setIfInBounds_ne apart.symm
  refine ⟨fun id below w other => ?_, fun id stays => ?_, ?_⟩
  · rcases Nat.lt_succ_iff_lt_or_eq.1 below with below | rfl
    · exact (at_other (Nat.ne_of_lt below)).trans (swept.carried id below w other)
    · cases comes.unique other
      simp [here, (Array.getElem?_eq_some_iff.1 there).1]
  · have apart : id ≠ k := by
      rintro rfl
      exact stays (Nat.lt_succ_self id) v comes
    exact (at_other apart).trans (swept.kept id fun below => stays (Nat.lt_succ_of_lt below))
  · obtain ⟨ids, nodup, length, all⟩ := swept.counted
    have fresh : k ∉ ids := fun mem => Nat.lt_irrefl k ((all k).1 mem).1
    have can : a.CanCarryOut k :=
      ⟨entry.node, v, node_eq_ok_iff.2 ⟨entry.label, here⟩, operation, comes⟩
    refine ⟨k :: ids, List.nodup_cons.2 ⟨fresh, nodup⟩, by rw [List.length_cons, length], ?_⟩
    intro id
    rw [List.mem_cons, all, Nat.lt_succ_iff_lt_or_eq]
    constructor
    · rintro (rfl | ⟨below, can⟩)
      · exact ⟨.inr rfl, can⟩
      · exact ⟨.inl below, can⟩
    · rintro ⟨below | rfl, can⟩
      · exact .inr ⟨below, can⟩
      · exact .inl rfl

theorem step (ordered : a.Ordered) (swept : Swept a k c count) (inside : k < a.size) :
    Swept a (k + 1) (foldAt (c, count) k).1 (foldAt (c, count) k).2 := by
  obtain ⟨entry, here⟩ : ∃ entry, a.entries[k]? = some entry := ⟨_, Array.getElem?_eq_getElem inside⟩
  have there : c.entries[k]? = some entry :=
    (swept.kept k fun below => absurd below (Nat.lt_irrefl k)).trans here
  have now : a.node k = .ok entry.node := node_eq_ok_iff.2 ⟨entry.label, here⟩
  have carries {v : Value} : c.foldNode? entry.node = some v ↔
      entry.node.isOperation = true ∧ a.ComesTo k v :=
    foldNode?_eq_some_iff now fun child mem x => swept.constant? (ordered k entry here child mem)
  simp only [foldAt, there]
  cases done : c.foldNode? entry.node with
  | none =>
    refine swept.skip now fun v comes => ?_
    cases operation : entry.node.isOperation with
    | false => rfl
    | true => cases done.symm.trans (carries.2 ⟨operation, comes⟩)
  | some v =>
    obtain ⟨operation, comes⟩ := carries.1 done
    exact swept.carry here operation comes

theorem run (ordered : a.Ordered) (inside : k ≤ a.size) :
    Swept a k ((List.range k).foldl foldAt (a, 0)).1 ((List.range k).foldl foldAt (a, 0)).2 := by
  induction k with
  | zero =>
    exact ⟨fun id below => absurd below (Nat.not_lt_zero id), fun _ _ => rfl, [], .nil, rfl, by simp⟩
  | succ k ih =>
    rw [List.range_succ, List.foldl_append]
    exact (ih (Nat.le_of_succ_le inside)).step ordered inside

/-- An expression is another one if the sweep has passed it and it can be carried out. -/
theorem node_ne_iff (swept : Swept a k c count) :
    c.node id ≠ a.node id ↔ id < k ∧ a.CanCarryOut id := by
  constructor
  · intro changed
    by_cases comes : id < k ∧ ∃ v, a.ComesTo id v
    · obtain ⟨below, v, comes⟩ := comes
      rw [swept.node_of_comesTo below comes] at changed
      obtain ⟨node, here⟩ := comes.exists_node
      refine ⟨below, node, v, here, ?_, comes⟩
      cases comes with
      | const there => exact absurd there.symm changed
      | binary there | unary there =>
        cases here.symm.trans there
        rfl
    · exact absurd (swept.node_of_not_comesTo fun below v other => comes ⟨below, v, other⟩) changed
  · rintro ⟨below, node, v, here, operation, comes⟩ same
    rw [swept.node_of_comesTo below comes, here] at same
    cases same
    cases operation

/-- What expressions leave is the same in all stages of the sweep. -/
theorem slotsWithin (swept : Swept a k c count) (depth : Nat) (id : ExprId) :
    c.slotsWithin depth id = a.slotsWithin depth id := by
  induction depth generalizing id with
  | zero => rfl
  | succ depth ih =>
    have below : c.slotsWithin depth = a.slotsWithin depth := funext ih
    simp only [Arena.slotsWithin, below]
    by_cases comes : id < k ∧ ∃ v, a.ComesTo id v
    · obtain ⟨inside, v, comes⟩ := comes
      obtain ⟨node, here⟩ := comes.exists_node
      rw [swept.node_of_comesTo inside comes, here]
      exact (comes.slots here _).symm
    · rw [swept.node_of_not_comesTo fun inside v other => comes ⟨inside, v, other⟩]

theorem label (swept : Swept a k c count) (id : ExprId) :
    (c.entries[id]?).map Entry.label = (a.entries[id]?).map Entry.label := by
  by_cases comes : id < k ∧ ∃ v, a.ComesTo id v
  · obtain ⟨inside, v, comes⟩ := comes
    rw [swept.carried id inside v comes, Option.map_map]
    rfl
  · rw [swept.kept id fun inside v other => comes ⟨inside, v, other⟩]

theorem size (swept : Swept a k c count) : c.size = a.size := by
  refine size_eq_of_entries fun id => ?_
  rw [← Option.map_eq_none_iff, swept.label, Option.map_eq_none_iff]

/-- At its end the sweep has left nothing to carry out. -/
theorem foldNode? (ordered : a.Ordered) (swept : Swept a a.size c count)
    (there : c.node id = .ok node) : c.foldNode? node = none := by
  cases done : c.foldNode? node with
  | none => rfl
  | some v =>
    have inside : id < a.size := swept.size ▸ lt_size_of_node there
    have operation := Node.isOperation_of_foldNode? done
    by_cases changed : c.node id = a.node id
    · have here := changed.symm.trans there
      obtain ⟨label, entry⟩ := node_eq_ok_iff.1 here
      have comes := (foldNode?_eq_some_iff (c := c) here fun child mem x => swept.constant?
        (Nat.lt_trans (ordered id _ entry child mem) inside)).1 done
      cases there.symm.trans (swept.node_of_comesTo inside comes.2)
      cases operation
    · obtain ⟨_, _, w, _, _, comes⟩ := swept.node_ne_iff.1 changed
      cases there.symm.trans (swept.node_of_comesTo inside comes)
      cases operation

end Swept

theorem foldConstants_eq_self (settled : ∀ id node, c.node id = .ok node → c.foldNode? node = none) :
    c.foldConstants = (c, 0) := by
  have step (id : ExprId) : foldAt (c, 0) id = (c, 0) := by
    simp only [foldAt]
    cases here : c.entries[id]? with
    | none => rfl
    | some entry => simp only [settled id entry.node (node_eq_ok_iff.2 ⟨entry.label, here⟩)]
  rw [foldConstants]
  induction List.range c.size with
  | nil => rfl
  | cons id rest ih => rw [List.foldl_cons, step, ih]

/-- One sweep settles the constants of an arena whose operands come first. -/
theorem sweep_settles (ordered : a.Ordered) (swept : a.foldConstants = (c, count)) :
    (∀ (id left right : ExprId) (op : BinOp) (x y : Value),
      c.node id = .ok (.binary op left right) → c.node left = .ok (.const x) →
      c.node right = .ok (.const y) → op.constant? x y = none) ∧
    (∀ (id operand : ExprId) (op : UnOp) (x : Value), c.node id = .ok (.unary op operand) →
      c.node operand = .ok (.const x) → op.constant? x = none) ∧
    c.foldConstants = (c, 0) ∧
    (∀ id : ExprId, c.node id ≠ a.node id ↔ a.CanCarryOut id) ∧
    (∀ (id : ExprId) (v : Value), a.ComesTo id v → c.node id = .ok (.const v)) ∧
    c.size = a.size ∧
    (∀ id : ExprId, (c.entries[id]?).map Entry.label = (a.entries[id]?).map Entry.label) ∧
    (∀ id : ExprId, c.slots id = a.slots id) ∧
    ∃ changed : List ExprId, changed.Nodup ∧ changed.length = count ∧
      ∀ id : ExprId, id ∈ changed ↔ c.node id ≠ a.node id := by
  -- the invariant of the sweep, at its end
  have whole : Swept a a.size c count := by
    have run := Swept.run ordered (Nat.le_refl a.size)
    rw [← foldConstants, swept] at run
    exact run
  have inside {id : ExprId} (can : a.CanCarryOut id) : id < a.size := by
    obtain ⟨_, _, here, _⟩ := can
    exact lt_size_of_node here
  have changes (id : ExprId) : c.node id ≠ a.node id ↔ a.CanCarryOut id :=
    whole.node_ne_iff.trans ⟨And.right, fun can => ⟨inside can, can⟩⟩
  refine ⟨fun id left right op x y there first second => ?_, fun id operand op x there only => ?_,
    foldConstants_eq_self fun id node => whole.foldNode? ordered, changes,
    fun id v comes => ?_, whole.size, whole.label, fun id => ?_, ?_⟩
  · have left_over := whole.foldNode? ordered there
    simp only [Arena.foldNode?, constant?_eq_some_iff.2 first, constant?_eq_some_iff.2 second]
      at left_over
    exact left_over
  · have left_over := whole.foldNode? ordered there
    simp only [Arena.foldNode?, constant?_eq_some_iff.2 only] at left_over
    exact left_over
  · obtain ⟨node, here⟩ := comes.exists_node
    exact whole.node_of_comesTo (lt_size_of_node here) comes
  · rw [Arena.slots, Arena.slots, pathBound, pathBound, whole.size]
    exact whole.slotsWithin _ id
  · obtain ⟨ids, nodup, length, all⟩ := whole.counted
    refine ⟨ids, nodup, length, fun id => ?_⟩
    rw [all, changes]
    exact ⟨And.right, fun can => ⟨inside can, can⟩⟩

def mixedConstants : Arena := ⟨#[⟨.const (.i32 6), none⟩, ⟨.const (.i32 7), none⟩,
  ⟨.binary (.intArith .w32 .mul) 0 1, some (.num .i32)⟩, ⟨.unary .extendS 2, some (.num .i64)⟩,
  ⟨.const (.i32 0), none⟩, ⟨.binary (.intArith .w32 .divS) 2 4, none⟩,
  ⟨.binary (.intArith .w32 .add) 5 2, none⟩, ⟨.memorySize, none⟩,
  ⟨.binary (.intArith .w32 .mul) 7 2, none⟩]⟩

theorem sweep_settles_mixedConstants :
    mixedConstants.Ordered ∧ mixedConstants.foldConstants.2 = 2 ∧
    mixedConstants.foldConstants.1.node 3 = .ok (.const (.i64 42)) ∧
    mixedConstants.CanCarryOut 3 ∧ ¬ mixedConstants.CanCarryOut 5 ∧
    (∀ id : ExprId, mixedConstants.foldConstants.1.slots id = mixedConstants.slots id) ∧
    mixedConstants.foldConstants.1.foldConstants = (mixedConstants.foldConstants.1, 0) := by
  have ordered : mixedConstants.Ordered := by decide
  obtain ⟨_, _, again, changes, _, _, _, slots, _⟩ := sweep_settles ordered rfl
  exact ⟨ordered, by decide +kernel, by decide +kernel,
    (changes 3).1 (by decide +kernel), fun can => (changes 5).2 can (by decide +kernel), slots, again⟩

end WasmBuilder.Arena
