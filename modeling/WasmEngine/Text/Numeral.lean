/-!
# Numerals

Reading whole numbers from decimal text and writing numbers in base sixteen.
-/

namespace WasmEngine.Text

/-- The value of a decimal digit. -/
def digitValue (c : Char) : Nat :=
  c.toNat - 48

/-- Whether a character is one of the ten decimal digits. -/
def isDecimal (c : Char) : Bool :=
  48 ≤ c.toNat && c.toNat ≤ 57

/-- The number that a run of decimal digits denotes. -/
def digitsValue (digits : List Char) : Nat :=
  digits.foldl (fun value c => value * 10 + digitValue c) 0

/-- Reads one or more decimal digits and nothing else. -/
def natural? (text : List Char) : Option Nat :=
  if text.isEmpty || !text.all isDecimal then none else some (digitsValue text)

/-- Reads an optional plus sign and one or more decimal digits. -/
def unsigned? : List Char → Option Nat
  | '+' :: digits => natural? digits
  | digits => natural? digits

/-- Reads an optional sign and one or more decimal digits. -/
def integer? : List Char → Option Int
  | '+' :: digits => (natural? digits).map Int.ofNat
  | '-' :: digits => (natural? digits).map fun value => -Int.ofNat value
  | digits => (natural? digits).map Int.ofNat

/-- The digits of a number in base sixteen, in lower case, with zeros in front up to the given width. -/
def hex (width value : Nat) : String :=
  let digits := Nat.toDigits 16 value
  String.ofList (List.replicate (width - digits.length) '0' ++ digits)

/-- The same digits in upper case. -/
def hexUpper (width value : Nat) : String :=
  String.ofList ((hex width value).toList.map Char.toUpper)

end WasmEngine.Text
