/-!
# Binary floating point formats

A format is given by the number of fraction and exponent bits. `Format.decode` splits a bit pattern into sign and
magnitude; a finite magnitude is a whole number times a power of two, which is all that printing and reading need.
-/

namespace WasmEngine.Decimal

/-- An interchange format: one sign bit, then exponent bits, then fraction bits. -/
structure Format where
  fractionBits : Nat
  exponentBits : Nat

/-- The 32-bit format. -/
def single : Format :=
  ⟨23, 8⟩

/-- The 64-bit format. -/
def double : Format :=
  ⟨52, 11⟩

/-- The size of a number without its sign. -/
inductive Magnitude where
  /-- The number `mantissa * 2 ^ exponent`. -/
  | finite (mantissa : Nat) (exponent : Int)
  | infinite
  | notANumber
  deriving DecidableEq

namespace Format

/-- The exponent field that stands for a scale of one. -/
def bias (format : Format) : Nat :=
  Nat.pow 2 (format.exponentBits - 1) - 1

/-- The exponent field of infinities and of results that are not numbers. -/
def topField (format : Format) : Nat :=
  Nat.pow 2 format.exponentBits - 1

/-- The exponent of the last bit of the smallest numbers. -/
def leastExponent (format : Format) : Int :=
  1 - (format.bias : Int) - format.fractionBits

/-- Whether a bit pattern has its sign bit set. -/
def isNegative (format : Format) (bits : Nat) : Bool :=
  bits / Nat.pow 2 (format.fractionBits + format.exponentBits) % 2 = 1

/-- The magnitude that a bit pattern denotes. -/
def decode (format : Format) (bits : Nat) : Magnitude :=
  let fraction := bits % Nat.pow 2 format.fractionBits
  let field := bits / Nat.pow 2 format.fractionBits % Nat.pow 2 format.exponentBits
  if field = format.topField then
    if fraction = 0 then .infinite else .notANumber
  else if field = 0 then .finite fraction format.leastExponent
  else .finite (Nat.pow 2 format.fractionBits + fraction) (format.leastExponent + field - 1)

/-- The bit pattern of a magnitude without its sign. A finite magnitude has a mantissa below twice the implicit bit,
and at the least exponent if it is below that bit; exponents past the greatest give infinity. -/
def encode (format : Format) : Magnitude → Nat
  | .infinite => format.topField * Nat.pow 2 format.fractionBits
  | .notANumber => format.topField * Nat.pow 2 format.fractionBits + Nat.pow 2 (format.fractionBits - 1)
  | .finite mantissa exponent =>
    if mantissa < Nat.pow 2 format.fractionBits then mantissa
    else
      let field := (exponent - format.leastExponent + 1).toNat
      if field ≥ format.topField then format.topField * Nat.pow 2 format.fractionBits
      else field * Nat.pow 2 format.fractionBits + (mantissa - Nat.pow 2 format.fractionBits)

/-- The sign bit, if it is wanted. -/
def signBit (format : Format) (negative : Bool) : Nat :=
  if negative then Nat.pow 2 (format.fractionBits + format.exponentBits) else 0

end Format

end WasmEngine.Decimal
