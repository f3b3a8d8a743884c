/-!
# Powers

Powers of numbers are those of the core library, whatever other powers are in scope. A base of
which nothing else is known is a natural number.
-/

namespace ProtoSource

@[default_instance 30000]
instance (priority := high) powNat : Pow Nat Nat := instPowNat

@[default_instance 20000]
instance (priority := high) powInt : Pow Int Nat := instPowNat

end ProtoSource
