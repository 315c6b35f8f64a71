import WasmEngine.Decimal.Format

/-!
# Shortest decimal digits

The fewest decimal digits that still read back as the same number. On the grids of one digit, two digits and so on, the
two neighbours of the number are tried until one lies in the interval of numbers that round to it; the nearer one is
taken, and the upper one if both are equally near.
-/

namespace WasmEngine.Decimal

/-- A non-negative fraction. -/
structure Ratio where
  num : Nat
  den : Nat

/-- The fraction `mantissa * 2 ^ exponent`. -/
def Ratio.ofBinary (mantissa : Nat) (exponent : Int) : Ratio :=
  if 0 ≤ exponent then ⟨mantissa * Nat.pow 2 exponent.toNat, 1⟩ else ⟨mantissa, Nat.pow 2 (-exponent).toNat⟩

/-- The fraction times `10 ^ exponent`. -/
def Ratio.shift10 (ratio : Ratio) (exponent : Int) : Ratio :=
  if 0 ≤ exponent then ⟨ratio.num * Nat.pow 10 exponent.toNat, ratio.den⟩
  else ⟨ratio.num, ratio.den * Nat.pow 10 (-exponent).toNat⟩

/-- The numbers that round to a positive finite number, in units of a quarter of its last bit. -/
structure Interval where
  low : Nat
  value : Nat
  high : Nat
  /-- The exponent of the unit. -/
  exponent : Int
  /-- Whether the ends belong to the interval. -/
  closed : Bool

/-- The interval around `mantissa * 2 ^ exponent`. Below the implicit bit's own value the numbers lie twice as dense. -/
def Interval.around (format : Format) (mantissa : Nat) (exponent : Int) : Interval :=
  let below := if mantissa = Nat.pow 2 format.fractionBits then 1 else 2
  { low := 4 * mantissa - below, value := 4 * mantissa, high := 4 * mantissa + 2, exponent := exponent - 2,
    closed := mantissa % 2 = 0 }

/-- Whether `candidate * 10 ^ power` lies in the interval. -/
def Interval.contains (interval : Interval) (candidate : Nat) (power : Int) : Bool :=
  let unit := (Ratio.ofBinary 1 interval.exponent).shift10 (-power)
  let point := candidate * unit.den
  let low := interval.low * unit.num
  let high := interval.high * unit.num
  if interval.closed then low ≤ point && point ≤ high else low < point && point < high

/-- The number of decimal digits of a positive number. -/
def digitCount (n : Nat) : Nat :=
  (Nat.toDigits 10 n).length

/-- The power of ten just above a fraction: the least `p` with `ratio < 10 ^ p`, found near the estimate from the
digit counts. -/
def Ratio.magnitude (ratio : Ratio) : Int :=
  let estimate : Int := digitCount ratio.num - digitCount ratio.den
  let scaled := ratio.shift10 (-estimate)
  if scaled.num < scaled.den then estimate else estimate + 1

/-- Digits together with the power of ten of the last one. -/
structure Digits where
  value : Nat
  power : Int
  deriving DecidableEq

/-- Tries the two neighbours on the grid with the given number of digits. -/
def neighbour? (interval : Interval) (top : Int) (count : Nat) : Option Digits :=
  let power := top - count
  let scaled := (Ratio.ofBinary interval.value interval.exponent).shift10 (-power)
  let down := scaled.num / scaled.den
  let downFits := interval.contains down power
  let upFits := interval.contains (down + 1) power
  -- The upper neighbour is at least as near when the remainder is at least half a step.
  let upNearer := scaled.den ≤ 2 * (scaled.num % scaled.den)
  if upFits && (!downFits || upNearer) then some ⟨down + 1, power⟩
  else if downFits then some ⟨down, power⟩
  else none

/-- The first grid with a neighbour inside the interval. -/
def shortestFrom (interval : Interval) (top : Int) : (fuel count : Nat) → Digits
  | 0, count => ⟨0, top - count⟩
  | fuel + 1, count =>
    match neighbour? interval top count with
    | some digits => digits
    | none => shortestFrom interval top fuel (count + 1)

/-- The shortest digits of a positive finite number. Seventeen digits tell all numbers of both formats apart. -/
def shortest (format : Format) (mantissa : Nat) (exponent : Int) : Digits :=
  let interval := Interval.around format mantissa exponent
  let top := (Ratio.ofBinary interval.value interval.exponent).magnitude
  shortestFrom interval top 20 1

/-- Writes digits in positional notation, without an exponent and without a fraction of zeros. -/
def Digits.positional (digits : Digits) : String :=
  let text := Nat.toDigits 10 digits.value
  let kept := (text.reverse.dropWhile (· = '0')).reverse
  let power := digits.power + ((text.length - kept.length : Nat) : Int)
  if 0 ≤ power then String.ofList (kept ++ List.replicate power.toNat '0')
  else
    let places := (-power).toNat
    if places < kept.length then
      String.ofList (kept.take (kept.length - places) ++ '.' :: kept.drop (kept.length - places))
    else String.ofList ('0' :: '.' :: List.replicate (places - kept.length) '0' ++ kept)

/-- The text of a bit pattern: the sign, then the shortest digits in positional notation. What is not a number has no
sign. -/
def render (format : Format) (bits : Nat) : String :=
  let sign := if format.isNegative bits then "-" else ""
  match format.decode bits with
  | .notANumber => "NaN"
  | .infinite => sign ++ "inf"
  | .finite mantissa exponent =>
    if mantissa = 0 then sign ++ "0" else sign ++ (shortest format mantissa exponent).positional

end WasmEngine.Decimal
