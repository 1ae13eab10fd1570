import WasmBuilder.Value

/-!
What a module asks of its host: functions and memories, registered under two-part keys.

`Imports` is a map in insertion order. Inserting under a key that is present replaces the item in
its place.
-/

set_option autoImplicit false

namespace WasmBuilder

/-- An import is found by a namespace and a name in it. -/
structure ImportKey where
  space : String
  name : String
  deriving DecidableEq, Repr

namespace ImportKey

def text (k : ImportKey) : String := k.space ++ "." ++ k.name

end ImportKey

inductive Recording where
  | nothing
  | calls
  | values
  deriving DecidableEq, Repr

/-- A recorded call of a host function. -/
structure HostCall where
  key : ImportKey
  recording : Recording
  args : List Value
  deriving DecidableEq

def recordedCalls (calls : List HostCall) : List HostCall := calls.filter (·.recording = .calls)

def collectedValues (calls : List HostCall) : List Value :=
  (calls.filter (·.recording = .values)).flatMap (·.args)

/-- A host function. It sees the calls so far, the latest first, and its arguments, and writes
results or fails. -/
structure HostFunction where
  signature : Signature
  recording : Recording
  respond : List HostCall → List Value → Option (List Value)

namespace HostFunction

def returning (signature : Signature) (recording : Recording) (results : List Value) :
    HostFunction :=
  ⟨signature, recording, fun _ _ => some results⟩

def echo (signature : Signature) (recording : Recording) : HostFunction :=
  ⟨signature, recording, fun _ args => some args⟩

def failing (signature : Signature) (recording : Recording) : HostFunction :=
  ⟨signature, recording, fun _ _ => none⟩

/-- The results of a call: one value for each result of the signature, of its type. Values written
past the last result are lost. -/
def results? (f : HostFunction) (history : List HostCall) (args : List Value) :
    Option (List Value) :=
  match f.respond history args with
  | some written =>
    let results := written.take f.signature.results.length
    if results.map Value.type = f.signature.results then some results else none
  | none => none

end HostFunction

structure MemoryLimits where
  initial : Nat
  maximum : Option Nat
  deriving DecidableEq, Repr

/-- An item that the host supplies. A memory is made anew for every instance. -/
inductive ImportItem where
  | func (f : HostFunction)
  | memory (limits : MemoryLimits)

/-- Items in the order in which their keys were first inserted. -/
structure Imports where
  entries : List (ImportKey × ImportItem) := []

namespace Imports

def size (i : Imports) : Nat := i.entries.length

def get? (i : Imports) (key : ImportKey) : Option ImportItem := i.entries.lookup key

def insertEntry (key : ImportKey) (item : ImportItem) :
    List (ImportKey × ImportItem) → List (ImportKey × ImportItem)
  | [] => [(key, item)]
  | e :: rest => if key = e.1 then (key, item) :: rest else e :: insertEntry key item rest

def insert (i : Imports) (key : ImportKey) (item : ImportItem) : Imports :=
  ⟨insertEntry key item i.entries⟩

/-- The first entry answers for its own key, and the others for all other keys. -/
theorem lookup_cons (k : ImportKey) (e : ImportKey × ImportItem)
    (rest : List (ImportKey × ImportItem)) :
    (e :: rest).lookup k = if k = e.1 then some e.2 else rest.lookup k := by
  rw [List.lookup_cons]
  by_cases same : k = e.1
  · rw [if_pos same, beq_iff_eq.2 same]
  · rw [if_neg same, beq_eq_false_iff_ne.2 same]

theorem lookup_insertEntry (key k : ImportKey) (item : ImportItem)
    (entries : List (ImportKey × ImportItem)) :
    (insertEntry key item entries).lookup k =
      if k = key then some item else entries.lookup k := by
  induction entries with
  | nil => simp [insertEntry, lookup_cons]
  | cons e rest ih =>
    by_cases here : key = e.1
    · subst here
      by_cases same : k = e.1 <;> simp [insertEntry, lookup_cons, same]
    · by_cases same : k = key
      · subst same
        simp [insertEntry, lookup_cons, here, ih]
      · simp [insertEntry, lookup_cons, here, ih, same]

/-- What was inserted last under a key is what stands there; other keys keep their items. -/
theorem get?_insert (i : Imports) (key k : ImportKey) (item : ImportItem) :
    (i.insert key item).get? k = if k = key then some item else i.get? k :=
  lookup_insertEntry key k item i.entries

def func (i : Imports) (key : ImportKey) (f : HostFunction) : Imports := i.insert key (.func f)

def memory (i : Imports) (key : ImportKey) (limits : MemoryLimits) : Imports :=
  i.insert key (.memory limits)

def merge (i other : Imports) : Imports :=
  other.entries.foldl (fun i e => i.insert e.1 e.2) i

def exchangeEntry (key : ImportKey) (item : ImportItem) :
    List (ImportKey × ImportItem) → Option ImportItem × List (ImportKey × ImportItem)
  | [] => (none, [(key, item)])
  | e :: rest =>
    if key = e.1 then (some e.2, (key, item) :: rest)
    else
      let (replaced, rest) := exchangeEntry key item rest
      (replaced, e :: rest)

def exchange (i : Imports) (key : ImportKey) (item : ImportItem) : Option ImportItem × Imports :=
  let (replaced, entries) := exchangeEntry key item i.entries
  (replaced, ⟨entries⟩)

theorem exchangeEntry_eq (key : ImportKey) (item : ImportItem)
    (entries : List (ImportKey × ImportItem)) :
    exchangeEntry key item entries = (entries.lookup key, insertEntry key item entries) := by
  induction entries with
  | nil => rfl
  | cons e rest ih =>
    by_cases here : key = e.1
    · simp [exchangeEntry, insertEntry, lookup_cons, here]
    · simp [exchangeEntry, insertEntry, lookup_cons, here, ih]

theorem exchange_eq (i : Imports) (key : ImportKey) (item : ImportItem) :
    i.exchange key item = (i.get? key, i.insert key item) := by
  simp [exchange, exchangeEntry_eq, get?, insert]

end Imports

end WasmBuilder
