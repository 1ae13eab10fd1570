/-!
Powers and sums of numbers are those of the core library, also where algebraic structures that bring
powers and zeros of their own are in scope. So a definition means the same wherever it is read.
-/

set_option autoImplicit false

attribute [instance (high), default_instance 20000] instPowNat
attribute [instance (high)] Zero.ofOfNat0
