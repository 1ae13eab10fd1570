import Mathlib.Data.List.Forall2
import Mathlib.Tactic.ByContra
import WasmBuilder.Lower.Code

/-!
Which scratch locals a run of numbers gets.

A scratch local is told by its type and by its rank: how many of this type stand before it. When
all are free, the numbers of a run get the locals of ranks 0, 1, … of their types, and those that
are missing are added behind all others.
-/

set_option autoImplicit false

namespace WasmBuilder.Lower

def Nth (ts : List NumType) (t : NumType) (rank i : Nat) : Prop :=
  ts[i]? = some t ∧ (ts.take i).count t = rank

namespace Nth

variable {ts more : List NumType} {t : NumType} {rank i j : Nat}

theorem lt_length (nth : Nth ts t rank i) : i < ts.length := (List.getElem?_eq_some_iff.1 nth.1).1

theorem count_take_lt (here : ts[i]? = some t) (lt : i < j) :
    (ts.take i).count t < (ts.take j).count t := by
  have inside := (List.getElem?_eq_some_iff.1 here).1
  have grown : (ts.take (i + 1)).count t = (ts.take i).count t + 1 := by
    rw [List.take_add_one, here]
    simp
  have le : (ts.take (i + 1)).count t ≤ (ts.take j).count t :=
    (List.take_prefix_take_left lt).count_le t
  omega

theorem rank_lt_count (nth : Nth ts t rank i) : rank < ts.count t := by
  have more := count_take_lt nth.1 nth.lt_length
  rw [List.take_length, nth.2] at more
  exact more

theorem unique (one : Nth ts t rank i) (other : Nth ts t rank j) : i = j := by
  rcases Nat.lt_trichotomy i j with lt | eq | gt
  · have := count_take_lt one.1 lt
    have := one.2
    have := other.2
    omega
  · exact eq
  · have := count_take_lt other.1 gt
    have := one.2
    have := other.2
    omega

theorem append (nth : Nth ts t rank i) (more : List NumType) : Nth (ts ++ more) t rank i := by
  have inside := nth.lt_length
  refine ⟨by rw [List.getElem?_append_left inside, nth.1], ?_⟩
  rw [List.take_append_of_le_length (Nat.le_of_lt inside), nth.2]

theorem of_prefix {us : List NumType} (nth : Nth ts t rank i) (le : ts <+: us) : Nth us t rank i := by
  obtain ⟨more, rfl⟩ := le
  exact nth.append more

theorem last (ts : List NumType) (t : NumType) : Nth (ts ++ [t]) t (ts.count t) ts.length := by
  refine ⟨List.getElem?_concat_length, ?_⟩
  rw [List.take_left]

theorem exists_of_lt (lt : rank < ts.count t) : ∃ i, Nth ts t rank i := by
  induction ts generalizing rank with
  | nil => simp at lt
  | cons u rest ih =>
    by_cases is : u = t
    · subst is
      cases rank with
      | zero => exact ⟨0, rfl, rfl⟩
      | succ rank =>
        rw [List.count_cons_self] at lt
        obtain ⟨i, here, before⟩ := ih (Nat.lt_of_succ_lt_succ lt)
        exact ⟨i + 1, here, by rw [List.take_succ_cons, List.count_cons_self, before]⟩
    · rw [List.count_cons_of_ne is] at lt
      obtain ⟨i, here, before⟩ := ih lt
      exact ⟨i + 1, here, by rw [List.take_succ_cons, List.count_cons_of_ne is, before]⟩

end Nth

namespace LowerState

/-- No scratch local is in use. -/
def Free (s : LowerState) : Prop :=
  ∀ (i : Nat) (x : ScratchLocal), s.scratch[i]? = some x → x.busy = false

def scratchTypes (s : LowerState) : List NumType := s.scratch.toList.map (·.type)

def Marked (s : LowerState) (used : NumType → Nat) : Prop :=
  ∀ (i : Nat) (x : ScratchLocal), s.scratch[i]? = some x →
    (x.busy = true ↔ (s.scratchTypes.take i).count x.type < used x.type)

theorem getElem?_scratchTypes (s : LowerState) (i : Nat) :
    s.scratchTypes[i]? = (s.scratch[i]?).map (·.type) := by
  simp [scratchTypes]

theorem Free.marked {s : LowerState} (free : s.Free) : s.Marked fun _ => 0 := by
  intro i x here
  simp [free i x here]

end LowerState

def bump (used : NumType → Nat) (t : NumType) : NumType → Nat :=
  fun u => if u = t then used u + 1 else used u

theorem scratchTypes_modify (s : LowerState) (i : Nat) (busy : Bool) :
    LowerState.scratchTypes { s with scratch := s.scratch.modify i fun l => { l with busy } } =
      s.scratchTypes := by
  refine List.ext_getElem? fun j => ?_
  simp only [LowerState.getElem?_scratchTypes, Array.getElem?_modify]
  split
  · cases s.scratch[j]? <;> rfl
  · rfl

section
variable {s : LowerState} {used : NumType → Nat} (marked : s.Marked used) {t : NumType}

include marked

/-- The first local of a type that is not in use has the rank that is next. -/
theorem nth_of_found {i : Nat}
    (found : s.scratch.findIdx? (fun l => l.type = t ∧ l.busy = false) = some i) :
    Nth s.scratchTypes t (used t) i := by
  obtain ⟨inside, fits, before⟩ := Array.findIdx?_eq_some_iff_getElem.1 found
  simp only [decide_eq_true_eq] at fits before
  have here : s.scratch[i]? = some s.scratch[i] := Array.getElem?_eq_getElem inside
  have type : s.scratchTypes[i]? = some t := by
    rw [LowerState.getElem?_scratchTypes, here, Option.map_some, fits.1]
  refine ⟨type, ?_⟩
  have unused : ¬ (s.scratchTypes.take i).count t < used t := by
    rw [← fits.1, ← marked i _ here, fits.2]
    exact Bool.false_ne_true
  -- were there more before it, the one of the next rank would have been found
  by_contra differs
  obtain ⟨j, at_, rank⟩ := Nth.exists_of_lt (show used t < (s.scratchTypes.take i).count t by omega)
  have earlier : j < i := by
    have := (List.getElem?_eq_some_iff.1 at_).1
    rw [List.length_take] at this
    omega
  have size : j < s.scratch.size := Nat.lt_trans earlier inside
  rw [List.getElem?_take_of_lt earlier, LowerState.getElem?_scratchTypes,
    Array.getElem?_eq_getElem size, Option.map_some, Option.some.injEq] at at_
  rw [List.take_take, Nat.min_eq_left (Nat.le_of_lt earlier)] at rank
  have taken : s.scratch[j].busy = true := by
    by_contra free
    exact before j earlier ⟨at_, Bool.eq_false_iff.2 free⟩
  rw [marked j _ (Array.getElem?_eq_getElem size), at_] at taken
  omega

theorem count_le_of_missing
    (missing : s.scratch.findIdx? (fun l => l.type = t ∧ l.busy = false) = none) :
    s.scratchTypes.count t ≤ used t := by
  by_contra more
  obtain ⟨i, at_, rank⟩ := Nth.exists_of_lt (Nat.lt_of_not_le more)
  rw [LowerState.getElem?_scratchTypes, Option.map_eq_some_iff] at at_
  obtain ⟨x, here, rfl⟩ := at_
  have no := Array.findIdx?_eq_none_iff.1 missing x (Array.mem_of_getElem? here)
  have busy : x.busy = true := by simpa using no
  rw [marked i x here] at busy
  omega

/-- What `acquire` answers is the local of the rank that is next for the type. Where there is none
it is added. -/
theorem acquire_spec (le : used t ≤ s.scratchTypes.count t) :
    ∃ i s', acquire t s = .ok (i, s') ∧ s'.types = s.types ∧ s'.Marked (bump used t) ∧
      Nth s'.scratchTypes t (used t) i ∧
      (s'.scratchTypes = s.scratchTypes ∨
        s'.scratchTypes = s.scratchTypes ++ [t] ∧ used t = s.scratchTypes.count t) := by
  unfold acquire
  cases found : s.scratch.findIdx? fun l => l.type = t ∧ l.busy = false with
  -- the first free local has the rank that comes next, as all before it are in use
  | some i =>
    have nth := nth_of_found marked found
    have types := scratchTypes_modify s i true
    refine ⟨i, _, rfl, rfl, ?_, types.symm ▸ nth, .inl types⟩
    intro j x here
    rw [types]
    simp only [Array.getElem?_modify] at here
    split at here
    next is =>
      subst is
      obtain ⟨y, there, rfl⟩ := Option.map_eq_some_iff.1 here
      have type : y.type = t := by
        have := nth.1
        rw [LowerState.getElem?_scratchTypes, there] at this
        exact Option.some.inj this
      simp [type, nth.2, bump]
    next other =>
      rw [marked j x here]
      unfold bump
      split
      next same =>
        have ne : (s.scratchTypes.take j).count x.type ≠ used t := by
          intro rank
          refine other (nth.unique ⟨?_, same ▸ rank⟩)
          rw [LowerState.getElem?_scratchTypes, here, Option.map_some, same]
        rw [same] at ne ⊢
        omega
      next => rfl
  -- all are in use, so a new one has this rank
  | none =>
    have all := count_le_of_missing marked found
    have same : used t = s.scratchTypes.count t := Nat.le_antisymm le all
    have types : LowerState.scratchTypes { s with scratch := s.scratch.push ⟨t, true⟩ } =
        s.scratchTypes ++ [t] := by
      simp [LowerState.scratchTypes]
    have length : s.scratchTypes.length = s.scratch.size := by simp [LowerState.scratchTypes]
    refine ⟨s.scratch.size, _, rfl, rfl, ?_, ?_, .inr ⟨types, same⟩⟩
    · intro j x here
      rw [types]
      rcases Nat.lt_trichotomy j s.scratch.size with old | rfl | beyond
      · simp only [Array.getElem?_push, Nat.ne_of_lt old, if_false] at here
        rw [List.take_append_of_le_length (by omega), marked j x here]
        unfold bump
        split
        next is =>
          have rank : (s.scratchTypes.take j).count x.type < s.scratchTypes.count x.type := by
            refine Nth.rank_lt_count ⟨?_, rfl⟩
            rw [LowerState.getElem?_scratchTypes, here, Option.map_some]
          rw [is] at rank ⊢
          omega
        next => rfl
      · rw [Array.getElem?_push_size, Option.some.injEq] at here
        subst here
        rw [← length, List.take_left]
        simp [bump, same]
      · rw [Array.getElem?_eq_none (by simpa using Nat.succ_le_of_lt beyond)] at here
        contradiction
    · rw [types, same, ← length]
      exact Nth.last s.scratchTypes t

end

/-- The locals of a run are those of the ranks that come next for its types. -/
inductive Ranked (types : List NumType) : (NumType → Nat) → List NumType → List Nat → Prop
  | nil {used : NumType → Nat} : Ranked types used [] []
  | cons {used : NumType → Nat} {t : NumType} {i : Nat} {ts : List NumType} {is : List Nat}
      (first : Nth types t (used t) i) (others : Ranked types (bump used t) ts is) :
      Ranked types used (t :: ts) (i :: is)

def tally (used : NumType → Nat) (ts : List NumType) : NumType → Nat := fun u => used u + ts.count u

theorem tally_bump (used : NumType → Nat) (t : NumType) (ts : List NumType) :
    tally (bump used t) ts = tally used (t :: ts) := by
  funext u
  by_cases is : u = t
  · subst is
    simp only [tally, bump, if_true, List.count_cons_self]
    omega
  · simp only [tally, bump, if_neg is, List.count_cons_of_ne (Ne.symm is)]

namespace Ranked

variable {types more : List NumType} {used : NumType → Nat} {ts : List NumType} {is js : List Nat}

theorem length_eq (ranked : Ranked types used ts is) : is.length = ts.length := by
  induction ranked with
  | nil => rfl
  | cons _ _ ih => rw [List.length_cons, List.length_cons, ih]

theorem of_prefix {us : List NumType} (ranked : Ranked types used ts is) (le : types <+: us) :
    Ranked us used ts is := by
  induction ranked with
  | nil => exact .nil
  | cons first _ ih => exact .cons (first.of_prefix le) ih

theorem getElem?_type (ranked : Ranked types used ts is) :
    List.Forall₂ (fun i t => types[i]? = some t) is ts := by
  induction ranked with
  | nil => exact .nil
  | cons first _ ih => exact .cons first.1 ih

/-- Every rank that a run takes is the rank of one of its locals. -/
theorem exists_mem (ranked : Ranked types used ts is) {t : NumType} {rank : Nat}
    (from_ : used t ≤ rank) (below : rank < tally used ts t) : ∃ i ∈ is, Nth types t rank i := by
  induction ranked with
  | nil =>
    simp only [tally, List.count_nil] at below
    omega
  | @cons used u i ts is first _ ih =>
    by_cases next : u = t ∧ rank = used t
    · obtain ⟨rfl, rfl⟩ := next
      exact ⟨i, List.mem_cons_self, first⟩
    · rw [← tally_bump] at below
      have later : bump used u t ≤ rank := by
        unfold bump
        split
        next same =>
          subst same
          have : rank ≠ used t := fun eq => next ⟨rfl, eq⟩
          omega
        next => exact from_
      obtain ⟨j, mem, nth⟩ := ih later below
      exact ⟨j, List.mem_cons_of_mem i mem, nth⟩

theorem rank_of_mem (ranked : Ranked types used ts is) {i : Nat} (mem : i ∈ is) :
    ∃ t rank, used t ≤ rank ∧ Nth types t rank i := by
  induction ranked with
  | nil => cases mem
  | @cons used u j ts is first _ ih =>
    rcases List.mem_cons.1 mem with rfl | later
    · exact ⟨u, used u, Nat.le_refl _, first⟩
    · obtain ⟨t, rank, le, nth⟩ := ih later
      refine ⟨t, rank, ?_, nth⟩
      unfold bump at le
      split at le <;> omega

theorem nodup (ranked : Ranked types used ts is) : is.Nodup := by
  induction ranked with
  | nil => exact List.nodup_nil
  | @cons used u j ts is first others ih =>
    refine List.nodup_cons.2 ⟨fun mem => ?_, ih⟩
    obtain ⟨t, rank, le, nth⟩ := others.rank_of_mem mem
    have same : t = u := Option.some.inj (nth.1.symm.trans first.1)
    subst same
    have : rank = used t := nth.2.symm.trans first.2
    simp only [bump, if_true] at le
    omega

end Ranked

theorem acquireAll_spec {s : LowerState} {used : NumType → Nat} (marked : s.Marked used)
    (le : ∀ u, used u ≤ s.scratchTypes.count u) (ts : List NumType) :
    ∃ is s', ts.mapM acquire s = .ok (is, s') ∧ s'.types = s.types ∧
      s'.Marked (tally used ts) ∧ Ranked s'.scratchTypes used ts is ∧
      s.scratchTypes <+: s'.scratchTypes ∧
      ∀ u, s'.scratchTypes.count u = max (s.scratchTypes.count u) (tally used ts u) := by
  induction ts generalizing s used with
  | nil =>
    refine ⟨[], s, rfl, rfl, marked, .nil, List.prefix_rfl, fun u => ?_⟩
    have := le u
    simp only [tally, List.count_nil]
    omega
  | cons t ts ih =>
    obtain ⟨i, s₁, first, types₁, marked₁, nth, scratch⟩ := acquire_spec marked (le t)
    -- the first number takes a local that is there, or adds the next one of its type
    have grown : s.scratchTypes <+: s₁.scratchTypes ∧
        ∀ u, s₁.scratchTypes.count u = max (s.scratchTypes.count u) (bump used t u) := by
      rcases scratch with same | ⟨added, full⟩
      · refine ⟨same ▸ List.prefix_rfl, fun u => ?_⟩
        have := le u
        have := nth.rank_lt_count
        rw [same] at this ⊢
        unfold bump
        split
        next is => subst is; omega
        next => omega
      · refine ⟨added ▸ List.prefix_append _ _, fun u => ?_⟩
        have := le u
        rw [added, List.count_append, List.count_singleton]
        unfold bump
        by_cases is : u = t
        · subst is
          simp only [beq_self_eq_true, if_true]
          omega
        · have other : (t == u) = false := beq_eq_false_iff_ne.2 (Ne.symm is)
          simp only [other, Bool.false_eq_true, if_false, if_neg is]
          omega
    obtain ⟨is, s₂, others, types₂, marked₂, ranked, le₂, counts⟩ :=
      ih marked₁ fun u => by rw [grown.2 u]; exact Nat.le_max_right _ _
    refine ⟨i :: is, s₂, ?_, types₂.trans types₁, tally_bump used t ts ▸ marked₂,
      .cons (nth.of_prefix le₂) ranked, grown.1.trans le₂, fun u => ?_⟩
    · simp only [List.mapM_cons, bind, StateT.bind, Except.bind, first, others]
      rfl
    · rw [counts, grown.2, tally_bump]
      have : bump used t u ≤ tally used (t :: ts) u := by
        rw [← tally_bump]
        exact Nat.le_add_right _ _
      omega

theorem releaseAll_spec (s : LowerState) (is : List Nat) :
    ∃ s', is.forM release s = .ok ((), s') ∧ s'.types = s.types ∧
      s'.scratchTypes = s.scratchTypes ∧
      ∀ (j : Nat) (x : ScratchLocal), s'.scratch[j]? = some x → x.busy = true →
        j ∉ is ∧ s.scratch[j]? = some x := by
  induction is generalizing s with
  | nil => exact ⟨s, rfl, rfl, rfl, fun j x here _ => ⟨List.not_mem_nil, here⟩⟩
  | cons i is ih =>
    let s₁ : LowerState :=
      { s with scratch := s.scratch.modify i fun l => { l with busy := false } }
    obtain ⟨s', done, types, scratch, busy⟩ := ih s₁
    refine ⟨s', done, types, scratch.trans (scratchTypes_modify s i false), fun j x here on => ?_⟩
    obtain ⟨later, before⟩ := busy j x here on
    simp only [s₁, Array.getElem?_modify] at before
    split at before
    · obtain ⟨y, _, rfl⟩ := Option.map_eq_some_iff.1 before
      cases on
    next other =>
      refine ⟨fun mem => ?_, before⟩
      rcases List.mem_cons.1 mem with rfl | mem
      · exact other rfl
      · exact later mem

/-- A run gets the first locals of its types, and leaves all of them free. -/
theorem spill_spec {s : LowerState} (free : s.Free) (ts : List NumType) :
    ∃ is s', spill ts s = .ok (is, s') ∧ s'.Free ∧ s'.types = s.types ∧
      s.scratchTypes <+: s'.scratchTypes ∧ Ranked s'.scratchTypes (fun _ => 0) ts is ∧
      ∀ u, s'.scratchTypes.count u = max (s.scratchTypes.count u) (ts.count u) := by
  obtain ⟨is, s₁, taken, types₁, marked, ranked, le, counts⟩ :=
    acquireAll_spec free.marked (fun _ => Nat.zero_le _) ts
  obtain ⟨s₂, given, types₂, scratch, busy⟩ := releaseAll_spec s₁ is
  refine ⟨is, s₂, ?_, ?_, types₂.trans types₁, scratch ▸ le, scratch ▸ ranked, fun u => ?_⟩
  · simp only [spill, bind, StateT.bind, Except.bind, taken, given]
    rfl
  · intro j x here
    by_contra on
    obtain ⟨out, before⟩ := busy j x here (Bool.not_eq_false _ ▸ on)
    have used := (marked j x before).1 (Bool.not_eq_false _ ▸ on)
    obtain ⟨i, mem, nth⟩ := ranked.exists_mem (Nat.zero_le _) used
    refine out (nth.unique ⟨?_, rfl⟩ ▸ mem)
    rw [LowerState.getElem?_scratchTypes, before, Option.map_some]
  · rw [scratch, counts]
    simp only [tally, Nat.zero_add]

end WasmBuilder.Lower
