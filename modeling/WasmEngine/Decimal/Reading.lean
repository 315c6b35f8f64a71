import WasmEngine.Decimal.Shortest
import WasmEngine.Text.Numeral

/-!
# Reading decimal numbers

Decimal text to the nearest number of a binary format, a half going to the even neighbour. The text is an optional
sign followed by `inf`, `infinity` or `nan` in any case, or by digits with an optional point and an optional exponent.
-/

namespace WasmEngine.Decimal

/-- A quotient rounded to the nearest whole number, a half going to the even one. -/
def roundHalfEven (num den : Nat) : Nat :=
  let down := num / den
  let rest := num % den
  if den < 2 * rest then down + 1
  else if 2 * rest = den then down + down % 2
  else down

/-- The greatest `e` with `2 ^ e ≤ ratio`, for a positive fraction. -/
def Ratio.log2 (ratio : Ratio) : Int :=
  let estimate : Int := (ratio.num.log2 : Int) - ratio.den.log2
  let fits :=
    if 0 ≤ estimate then ratio.den * Nat.pow 2 estimate.toNat ≤ ratio.num
    else ratio.den ≤ ratio.num * Nat.pow 2 (-estimate).toNat
  if fits then estimate else estimate - 1

/-- The nearest magnitude of the format to a positive fraction. -/
def Format.round (format : Format) (ratio : Ratio) : Magnitude :=
  let exponent := max format.leastExponent (ratio.log2 - format.fractionBits)
  let mantissa :=
    if 0 ≤ exponent then roundHalfEven ratio.num (ratio.den * Nat.pow 2 exponent.toNat)
    else roundHalfEven (ratio.num * Nat.pow 2 (-exponent).toNat) ratio.den
  -- Rounding up may carry into one more bit.
  if mantissa = Nat.pow 2 (format.fractionBits + 1) then .finite (Nat.pow 2 format.fractionBits) (exponent + 1)
  else .finite mantissa exponent

/-- Powers of ten beyond which every number of both formats is infinite or zero. -/
def powerLimit : Int :=
  400

/-- The magnitude of `value * 10 ^ power`. -/
def Format.ofDecimal (format : Format) (value : Nat) (power : Int) : Magnitude :=
  if value = 0 then .finite 0 format.leastExponent
  else
    let top := power + digitCount value
    if top > powerLimit then .infinite
    else if top < -powerLimit then .finite 0 format.leastExponent
    else format.round ((Ratio.mk value 1).shift10 power)

/-- Reads an exponent after its mark: an optional sign and one or more digits. -/
def exponent? (text : List Char) : Option Int :=
  Text.integer? text

/-- Reads digits with an optional point and an optional exponent. At least one digit stands before the exponent. -/
def number? (text : List Char) : Option (Nat × Int) :=
  let whole := text.takeWhile Text.isDecimal
  let afterWhole := text.dropWhile Text.isDecimal
  let (fraction, rest) :=
    match afterWhole with
    | '.' :: tail => (tail.takeWhile Text.isDecimal, tail.dropWhile Text.isDecimal)
    | _ => ([], afterWhole)
  if whole.isEmpty && fraction.isEmpty then none
  else
    let value := Text.digitsValue (whole ++ fraction)
    match rest with
    | [] => some (value, -(fraction.length : Int))
    | mark :: tail =>
      if mark = 'e' || mark = 'E' then
        (exponent? tail).map fun exponent => (value, exponent - fraction.length)
      else none

/-- Reads a magnitude. -/
def Format.magnitude? (format : Format) (text : List Char) : Option Magnitude :=
  let word := String.ofList (text.map Char.toLower)
  if word = "inf" || word = "infinity" then some .infinite
  else if word = "nan" then some .notANumber
  else (number? text).map fun (value, power) => format.ofDecimal value power

/-- Reads a number and gives its bit pattern. -/
def Format.read? (format : Format) : List Char → Option Nat
  | '-' :: text => (format.magnitude? text).map fun m => format.signBit true + format.encode m
  | '+' :: text => (format.magnitude? text).map format.encode
  | text => (format.magnitude? text).map format.encode

end WasmEngine.Decimal
