import WasmBuilder.Proofs.Course.Registry

/-!
The registry of host items as a map in insertion order.

Every change of a registry is an insertion or a row of them, so a registry is told by its log: the
keys stand in the order in which they first came, each once, and a key has the item that came last.
Merging appends the entries of one registry to the log of another one.
-/

set_option autoImplicit false

namespace WasmBuilder.Imports

abbrev Log := List (ImportKey × ImportItem)

def keys (i : Imports) : List ImportKey := i.entries.map (·.1)

/-- What operations make of the empty registry, with the insertions that they came to. -/
inductive Course : Log → Imports → Prop
  | empty : Course [] {}
  | insert {log : Log} {i : Imports} (course : Course log i) (key : ImportKey) (item : ImportItem) :
      Course (log ++ [(key, item)]) (i.exchange key item).2
  | func {log : Log} {i : Imports} (course : Course log i) (key : ImportKey) (f : HostFunction) :
      Course (log ++ [(key, .func f)]) (i.func key f)
  | memory {log : Log} {i : Imports} (course : Course log i) (key : ImportKey)
      (limits : MemoryLimits) : Course (log ++ [(key, .memory limits)]) (i.memory key limits)
  | merge {log other : Log} {i j : Imports} (course : Course log i) (others : Course other j) :
      Course (log ++ j.entries) (i.merge j)

/-- Keys stand once each, in the order in which the log first names them, and the last insertion
under a key decides. -/
structure LastWins (log : Log) (i : Imports) : Prop where
  distinct : i.keys.Nodup
  order : i.keys = (log.map (·.1)).eraseDups
  latest : ∀ key, i.get? key = log.reverse.lookup key

variable {log : Log} {i j : Imports}

theorem get?_eq_none_iff {key : ImportKey} : i.get? key = none ↔ key ∉ i.keys := by
  simp only [get?, keys, List.lookup_eq_none_iff, List.mem_map, bne_iff_ne, not_exists, not_and,
    ne_eq]
  exact forall₂_congr fun _ _ => not_congr eq_comm

theorem eraseDups_of_nodup {l : List ImportKey} (distinct : l.Nodup) : l.eraseDups = l := by
  induction l with
  | nil => rfl
  | cons key rest ih =>
    obtain ⟨new, distinct⟩ := List.nodup_cons.1 distinct
    have kept : rest.filter (fun other => !other == key) = rest := by
      refine List.filter_eq_self.2 fun other mem => ?_
      have : other ≠ key := fun same => new (same ▸ mem)
      simpa using this
    rw [List.eraseDups_cons, kept, ih distinct]

theorem keys_insert (key : ImportKey) (item : ImportItem) :
    (i.insert key item).keys = if key ∈ i.keys then i.keys else i.keys ++ [key] := by
  unfold insert keys
  induction i.entries with
  | nil => rfl
  | cons e rest ih =>
    by_cases here : key = e.1
    · simp [insertEntry, here]
    · simp only [insertEntry, here, if_false, List.map_cons, List.mem_cons, false_or] at ih ⊢
      rw [ih]
      split <;> rfl

theorem LastWins.insert (wins : LastWins log i) (key : ImportKey) (item : ImportItem) :
    LastWins (log ++ [(key, item)]) (i.insert key item) where
  distinct := nodup_insertEntry wins.distinct
  order := by
    have named : key ∈ log.map (·.1) ↔ key ∈ i.keys := by rw [wins.order, List.mem_eraseDups]
    rw [keys_insert, List.map_append, List.eraseDups_append, ← wins.order]
    by_cases there : key ∈ i.keys <;> simp [List.removeAll, named, there, List.eraseDups_cons]
  latest k := by
    rw [get?_insert, wins.latest]
    by_cases same : k = key <;> simp [lookup_cons, same]

theorem LastWins.insertAll (wins : LastWins log i) (more : Log) :
    LastWins (log ++ more) (more.foldl (fun i e => i.insert e.1 e.2) i) := by
  induction more generalizing log i with
  | nil => simpa using wins
  | cons e rest ih => simpa using ih (wins.insert e.1 e.2)

theorem lastWins_of_course (course : Course log i) : LastWins log i := by
  induction course with
  | empty => exact ⟨List.nodup_nil, rfl, fun _ => rfl⟩
  | insert _ key item ih =>
    rw [exchange_eq]
    exact ih.insert key item
  | func _ key f ih => exact ih.insert key (.func f)
  | memory _ key limits ih => exact ih.insert key (.memory limits)
  | merge _ _ ih _ => exact ih.insertAll _

/-- Where no key is listed twice, looking from the other end finds the same. -/
theorem lookup_reverse_entries (distinct : i.keys.Nodup) (key : ImportKey) :
    i.entries.reverse.lookup key = i.get? key := by
  cases found : i.entries.reverse.lookup key with
  | none =>
    symm
    rw [get?_eq_none_iff]
    simp only [List.lookup_eq_none_iff, List.mem_reverse, bne_iff_ne] at found
    intro mem
    obtain ⟨e, listed, same⟩ := List.mem_map.1 mem
    exact found e listed same.symm
  | some item =>
    obtain ⟨before, after, same, _⟩ := List.lookup_eq_some_iff.1 found
    have listed : (key, item) ∈ i.entries := by
      rw [← List.mem_reverse, same]
      simp
    exact (get?_of_mem distinct listed).symm

theorem eq_of_keys (distinct : i.keys.Nodup) (order : i.keys = j.keys)
    (same : ∀ key, i.get? key = j.get? key) : i = j := by
  obtain ⟨entries⟩ := i
  obtain ⟨others⟩ := j
  congr 1
  have distinct' : (Imports.mk others).keys.Nodup := order ▸ distinct
  refine List.ext_getElem? fun n => ?_
  have place : (entries.map (·.1))[n]? = (others.map (·.1))[n]? := congrArg (·[n]?) order
  rw [List.getElem?_map, List.getElem?_map] at place
  cases here : entries[n]? with
  | none =>
    rw [here] at place
    exact (Option.map_eq_none_iff.1 place.symm).symm
  | some e =>
    rw [here] at place
    obtain ⟨e', there, key⟩ := Option.map_eq_some_iff.1 place.symm
    -- both entries are what is found under their common key
    have mine := get?_of_mem distinct (List.mem_of_getElem? here)
    have other := get?_of_mem distinct' (List.mem_of_getElem? there)
    rw [key, ← same, mine] at other
    rw [there]
    exact congrArg some (Prod.ext key.symm (Option.some.inj other))

theorem lastWins_entries (distinct : i.keys.Nodup) : LastWins i.entries i where
  distinct := distinct
  order := (eraseDups_of_nodup distinct).symm
  latest key := (lookup_reverse_entries distinct key).symm

theorem lastWins_merge (distinct : i.keys.Nodup) : LastWins (i.entries ++ j.entries) (i.merge j) :=
  (lastWins_entries distinct).insertAll j.entries

section
variable (first : i.keys.Nodup)

include first

theorem nodup_merge (j : Imports) : (i.merge j).keys.Nodup := (lastWins_merge first).distinct

variable (second : j.keys.Nodup)

include second

theorem get?_merge (key : ImportKey) : (i.merge j).get? key = (j.get? key).or (i.get? key) := by
  rw [(lastWins_merge first).latest, List.reverse_append, List.lookup_append,
    lookup_reverse_entries first, lookup_reverse_entries second]

theorem keys_merge : (i.merge j).keys = i.keys ++ j.keys.filter (· ∉ i.keys) := by
  have new : j.keys.removeAll i.keys = j.keys.filter (· ∉ i.keys) := by
    simp [List.removeAll]
  rw [(lastWins_merge first).order, List.map_append, List.eraseDups_append]
  change i.keys.eraseDups ++ (j.keys.removeAll i.keys).eraseDups = _
  rw [new, eraseDups_of_nodup first, eraseDups_of_nodup (second.filter _)]

theorem merge_assoc {k : Imports} (third : k.keys.Nodup) :
    (i.merge j).merge k = i.merge (j.merge k) := by
  have both := nodup_merge first j
  have others := nodup_merge second k
  apply eq_of_keys (nodup_merge both k)
  · rw [keys_merge both third, keys_merge first second, keys_merge first others,
      keys_merge second third, List.filter_append, List.filter_filter, List.append_assoc]
    congr 2
    refine List.filter_congr fun key _ => ?_
    -- a key is new to both exactly if it is new to the one and to what the other one adds
    simp only [List.mem_append, List.mem_filter, decide_not, Bool.not_eq_true', decide_eq_false_iff_not]
    by_cases here : key ∈ i.keys <;> simp [here]
  · intro key
    rw [get?_merge both third, get?_merge first second, get?_merge first others,
      get?_merge second third, Option.or_assoc]

end

theorem merge_self (distinct : i.keys.Nodup) : i.merge i = i := by
  apply eq_of_keys (nodup_merge distinct i)
  · rw [keys_merge distinct distinct]
    simp
  · intro key
    rw [get?_merge distinct distinct, Option.or_self]

theorem merge_empty (i : Imports) : i.merge {} = i := rfl

theorem empty_merge (distinct : i.keys.Nodup) : ({} : Imports).merge i = i := by
  have none : ({} : Imports).keys.Nodup := List.nodup_nil
  apply eq_of_keys (nodup_merge none i)
  · rw [keys_merge none distinct]
    simp [keys]
  · intro key
    rw [get?_merge none distinct]
    exact Option.or_none

/-- The laws of a map in insertion order in which the last insertion wins: what operations make of
registries, what an insertion hands out, and how registries merge. -/
theorem registry_laws :
    (∀ log i, Course log i → LastWins log i ∧
      ∀ key item, (i.exchange key item).1 = i.get? key) ∧
    ∀ la lb lc a b c, Course la a → Course lb b → Course lc c →
      (∀ key, (a.merge b).get? key = (b.get? key).or (a.get? key)) ∧
      (a.merge b).merge c = a.merge (b.merge c) ∧ a.merge a = a ∧ a.merge {} = a ∧
      ({} : Imports).merge a = a := by
  refine ⟨fun log i course => ⟨lastWins_of_course course, fun key item => ?_⟩, ?_⟩
  · rw [exchange_eq]
  · intro la lb lc a b c first second third
    have ha := (lastWins_of_course first).distinct
    have hb := (lastWins_of_course second).distinct
    have hc := (lastWins_of_course third).distinct
    exact ⟨get?_merge ha hb, merge_assoc ha hb hc, merge_self ha, merge_empty a, empty_merge ha⟩

/-- A memory takes the place of a function, and a merge takes over a memory and adds a function. -/
theorem registry_laws_of_other_kind :
    let f : HostFunction := .returning ⟨[], []⟩ .nothing []
    let base := (({} : Imports).func ⟨"env", "a"⟩ f).func ⟨"env", "b"⟩ f
    let extra := (({} : Imports).memory ⟨"env", "a"⟩ ⟨2, some 4⟩).func ⟨"env", "c"⟩ f
    (base.exchange ⟨"env", "a"⟩ (.memory ⟨1, none⟩)).1 = some (.func f) ∧
      (base.merge extra).keys = [⟨"env", "a"⟩, ⟨"env", "b"⟩, ⟨"env", "c"⟩] ∧
      (base.merge extra).get? ⟨"env", "a"⟩ = some (.memory ⟨2, some 4⟩) ∧
      (base.merge extra).get? ⟨"env", "b"⟩ = some (.func f) ∧
      (base.merge extra).merge base = base.merge (extra.merge base) := by
  intro f base extra
  have first : Course [(⟨"env", "a"⟩, .func f), (⟨"env", "b"⟩, .func f)] base :=
    (Course.empty.func _ f).func _ f
  have second : Course [(⟨"env", "a"⟩, .memory ⟨2, some 4⟩), (⟨"env", "c"⟩, .func f)] extra :=
    (Course.empty.memory _ _).func _ f
  obtain ⟨single, merging⟩ := registry_laws
  obtain ⟨finds, assoc, -⟩ := merging _ _ _ base extra base first second first
  refine ⟨?_, ?_, ?_, ?_, assoc⟩
  · rw [(single _ base first).2, (single _ base first).1.latest]
    rfl
  · rw [(single _ _ (first.merge second)).1.order]
    rfl
  · rw [finds, (single _ _ second).1.latest]
    rfl
  · rw [finds, (single _ _ second).1.latest, (single _ _ first).1.latest]
    rfl

end WasmBuilder.Imports
