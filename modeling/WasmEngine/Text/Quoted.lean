/-!
# Quoted text

Text between quotes, with the characters that a reader could not see or would misread written as escapes: tab, return,
newline, backslash, zero, the quote itself, and by their number control, format and separator characters and combining
marks.
-/

namespace WasmEngine.Text

/-- The code points written by their number, as inclusive ranges in ascending order. -/
def hiddenRanges : List (Nat × Nat) :=
  [(0x0, 0x1F), (0x7F, 0xA0), (0xAD, 0xAD), (0x300, 0x36F), (0x600, 0x605), (0x61C, 0x61C), (0x6DD, 0x6DD),
    (0x70F, 0x70F), (0x1680, 0x1680), (0x180E, 0x180E), (0x2000, 0x200F), (0x2028, 0x202F), (0x205F, 0x206F),
    (0x3000, 0x3000), (0xD800, 0xF8FF), (0xFE00, 0xFE0F), (0xFE20, 0xFE2F), (0xFEFF, 0xFEFF), (0xFFF0, 0xFFFB),
    (0xFFFE, 0xFFFF)]

/-- Whether a character is written by its number. -/
def isHidden (c : Char) : Bool :=
  hiddenRanges.any fun range => range.1 ≤ c.toNat && c.toNat ≤ range.2

/-- How one character is written between the given quotes. -/
def escape (quote c : Char) : List Char :=
  if c = '\t' then ['\\', 't']
  else if c = '\r' then ['\\', 'r']
  else if c = '\n' then ['\\', 'n']
  else if c = '\\' then ['\\', '\\']
  else if c.toNat = 0 then ['\\', '0']
  else if c = quote then ['\\', quote]
  else if isHidden c then "\\u\x7b".toList ++ Nat.toDigits 16 c.toNat ++ "\x7d".toList
  else [c]

/-- A text between double quotes. -/
def quoted (text : String) : String :=
  let quote := Char.ofNat 0x22
  String.ofList (quote :: text.toList.flatMap (escape quote) ++ [quote])

/-- A character between single quotes. -/
def quotedChar (c : Char) : String :=
  let quote := Char.ofNat 0x27
  String.ofList (quote :: escape quote c ++ [quote])

end WasmEngine.Text
