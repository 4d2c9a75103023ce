import SignalRules.Value.Arithmetic

/-! # Single-precision numbers

Hosts that keep 32-bit floating-point numbers hand them over as bit patterns.
-/

namespace SignalRules

namespace Fixed

/-- The nearest count of hundredths, halves away from zero. The product with one hundred is
rounded to single precision first; what is too large becomes the nearest bound, and what is not
a number becomes zero. -/
def ofSingle (bits : UInt32) : Fixed :=
  clamp (Float32.ofBits bits * 100).round.toInt32.toInt

/-- The nearest single-precision number to the count of hundredths, divided by one hundred. -/
def toSingle (a : Fixed) : UInt32 :=
  ((Int32.ofInt a.raw).toFloat32 / 100).toBits

end Fixed

/-- The number as a single-precision bit pattern. -/
def Value.asSingle (v : Value) : Except ScriptError UInt32 :=
  v.asNumber.map Fixed.toSingle

end SignalRules
