import WasmBuilder.Demo.Composite
import WasmBuilder.Demo.Effects
import WasmBuilder.Demo.Arithmetic
import WasmBuilder.Demo.LinearMemory

/-!
All demo libraries by name.
-/

set_option autoImplicit false

namespace WasmBuilder.Demo

inductive Name where
  | add
  | tuple
  | record
  | indirect
  | memory
  | io
  | loop
  | counter
  deriving DecidableEq, Repr

namespace Name

def text : Name → String
  | add => "add"
  | tuple => "tuple"
  | record => "record"
  | indirect => "indirect"
  | memory => "memory"
  | io => "io"
  | loop => "loop"
  | counter => "counter"

def all : List Name := [add, tuple, record, indirect, memory, io, loop, counter]

def ofText? (s : String) : Option Name := all.find? (·.text = s)

def build (args : Arguments) (recording : Recording) : Name → BuildM Library
  | add => Demo.add
  | tuple => Demo.tuple
  | record => Demo.record
  | indirect => Demo.indirect
  | memory => Demo.memory args
  | io => Demo.io recording
  | loop => Demo.loops
  | counter => Demo.counter args

end Name

def mount (name : Name) (args : Arguments) : BuildM Library :=
  Build.mount name.text (name.build args .nothing)

def mountCollecting : BuildM Library :=
  Build.mount Name.io.text (Name.io.build [] .values)

end WasmBuilder.Demo
