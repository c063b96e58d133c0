/-!
# Powers

The powers that definitions are written with are those of the core library. They are named here, so
that a definition means the same whatever other powers are known where it is read.

## Main definitions

* `Power.natural` — powers with a natural number as the exponent.
-/

namespace FormatCode.Power

/-- Powers with a natural number as the exponent. -/
scoped instance (priority := high) natural {α : Type} [NatPow α] : Pow α Nat := instPowNat

end FormatCode.Power
