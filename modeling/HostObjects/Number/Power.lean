/-!
# Powers of natural numbers

Libraries that bring in algebra bring in powers of their own for natural numbers. Here a power is
that of the core language in every module, so that a definition says the same wherever it is read.
-/

namespace HostObjects

/-- The powers of the core language. -/
@[default_instance 20000]
instance (priority := 20000) natPower : Pow Nat Nat := instPowNat

end HostObjects
