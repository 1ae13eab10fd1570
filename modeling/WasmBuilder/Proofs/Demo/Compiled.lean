import WasmBuilder.Build.Compile
import WasmBuilder.Demo.Catalog
import WasmBuilder.Proofs.Lowering.Loading
import WasmBuilder.Proofs.Wasm.Repetition

/-!
Builds that are compiled to the same module, simplified or not, and started from its binary.
-/

set_option autoImplicit false

namespace WasmBuilder.Build

variable {b : Build} {m : Wasm.Module}

/-- The build has this module, and nothing of it can be simplified. -/
structure LowersTo (b : Build) (m : Wasm.Module) : Prop where
  usable : b.failed = false
  settled : simplify b = .ok {} b
  lowered : b.lower none = .ok m

namespace LowersTo

variable (lowers : b.LowersTo m) (optimize validate : Bool)

include lowers

theorem simplified : simplifyIf optimize b = .ok ⟨⟩ b := by
  cases optimize with
  | false => rfl
  | true => simp only [simplifyIf, if_true, bind, EStateM.bind, lowers.settled]; rfl

theorem compiles (valid : validate = true → m.isValid = true) :
    compile { optimize, validate } b = .ok m.encode b :=
  compile_of_assemble
    (assemble_of_lower lowers.usable (lowers.simplified optimize) lowers.lowered valid)

theorem valid_of_compile {bytes : List UInt8} {c : Build}
    (done : compile { optimize } b = .ok bytes c) : m.isValid = true ∧ c = b := by
  obtain ⟨n, done, -⟩ := compile_eq_ok done
  rw [assemble_run, lowers.usable] at done
  have simplified : simplifyIf optimize (b.importing none) = .ok ⟨⟩ b := lowers.simplified optimize
  simp only [bind, EStateM.bind, simplified, lowered_run, lowers.lowered] at done
  cases valid : m.isValid with
  | false =>
    rw [valid] at done
    cases done
  | true =>
    rw [valid] at done
    cases done
    exact ⟨rfl, rfl⟩

/-- The binary is loaded, and the start function runs. -/
theorem starts (valid : m.isValid = true) (short : m.encode.length < 2 ^ 32) {bounds : Wasm.Bounds}
    {made : List Wasm.Memory} {i j : Wasm.Instance} {journal journal' : List HostCall}
    (created : Wasm.createMemories (Wasm.offeredMemories b.imports) = .ok made)
    (linked : Wasm.link m b.imports (Wasm.offeredNumbers b.imports) made journal = some i)
    (started : i.started bounds m.start journal = .ok j journal') :
    start { optimize, validate } bounds (b, journal) = .ok j (b, journal') := by
  have read := Wasm.decode_encode ((isPlain_of_lower lowers.lowered).writable valid short)
  have loaded : b.load m.encode bounds journal = .ok j journal' := by
    rw [load, Wasm.load_of_decode read valid, Wasm.instantiate_of_created created, linked]
    exact started
  simp only [start, lowers.compiles optimize validate fun _ => valid, loaded]

end LowersTo

end WasmBuilder.Build
