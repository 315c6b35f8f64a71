/-!
# UTF-8

Strict decoding of byte strings: overlong forms, surrogates and numbers past U+10FFFF are refused. A refusal says how
many bytes before it were well formed and how long the ill-formed part is, unless the input ended inside a character.
-/

namespace WasmEngine.Text.Utf8

/-- Where and how a byte string stops being well formed. -/
structure Fault where
  /-- The number of bytes before the first ill-formed character. -/
  validUpTo : Nat
  /-- The length of the ill-formed part, or `none` when the input ended too early. -/
  badLength : Option Nat
  deriving DecidableEq

/-- What a lead byte announces. -/
structure Lead where
  /-- How many continuation bytes follow. -/
  following : Nat
  /-- The least value of the first of them. -/
  low : UInt8
  /-- The greatest value of the first of them. -/
  high : UInt8
  /-- The bits of the character that the lead byte carries. -/
  bits : Nat

/-- The meaning of a byte at the start of a character. -/
def lead? (byte : UInt8) : Option Lead :=
  if byte < 0x80 then some ⟨0, 0x80, 0xBF, byte.toNat⟩
  else if byte < 0xC2 then none
  else if byte < 0xE0 then some ⟨1, 0x80, 0xBF, byte.toNat - 0xC0⟩
  else if byte = 0xE0 then some ⟨2, 0xA0, 0xBF, 0⟩
  else if byte = 0xED then some ⟨2, 0x80, 0x9F, 0xD⟩
  else if byte < 0xF0 then some ⟨2, 0x80, 0xBF, byte.toNat - 0xE0⟩
  else if byte = 0xF0 then some ⟨3, 0x90, 0xBF, 0⟩
  else if byte < 0xF4 then some ⟨3, 0x80, 0xBF, byte.toNat - 0xF0⟩
  else if byte = 0xF4 then some ⟨3, 0x80, 0x8F, 4⟩
  else none

/-- Reads `count` continuation bytes, the first of them between `low` and `high`, after `seen` bytes of the
character with the given bits. Gives the bits and the rest, or the length of the ill-formed part. -/
def following : (count : Nat) → (low high : UInt8) → (seen bits : Nat) → List UInt8 →
    Except (Option Nat) (Nat × List UInt8)
  | 0, _, _, _, bits, rest => .ok (bits, rest)
  | _ + 1, _, _, _, _, [] => .error none
  | count + 1, low, high, seen, bits, byte :: rest =>
    if low ≤ byte ∧ byte ≤ high then
      following count 0x80 0xBF (seen + 1) (bits * 64 + (byte.toNat - 0x80)) rest
    else .error (some seen)

/-- Continuation bytes are taken from the front of the input. -/
theorem length_following {count : Nat} {low high : UInt8} {seen bits : Nat} {input rest : List UInt8} {all : Nat}
    (h : following count low high seen bits input = .ok (all, rest)) : rest.length ≤ input.length := by
  induction count generalizing low high seen bits input with
  | zero =>
    simp only [following, Except.ok.injEq, Prod.mk.injEq] at h
    simp [h.2]
  | succ count ih =>
    cases input with
    | nil => simp [following] at h
    | cons byte tail =>
      rw [following] at h
      split at h
      · have := ih h
        simp only [List.length_cons]
        omega
      · simp at h

/-- Decodes bytes that start `offset` bytes into the text. -/
def decodeAt (offset : Nat) (input : List UInt8) : Except Fault (List Char) :=
  match input with
  | [] => .ok []
  | byte :: tail =>
    match lead? byte with
    | none => .error ⟨offset, some 1⟩
    | some lead =>
      match h : following lead.following lead.low lead.high 1 lead.bits tail with
      | .error badLength => .error ⟨offset, badLength⟩
      | .ok (bits, rest) =>
        have : rest.length < (byte :: tail).length := by
          have := length_following h
          simp only [List.length_cons]
          omega
        match decodeAt (offset + 1 + lead.following) rest with
        | .error fault => .error fault
        | .ok chars => .ok (Char.ofNat bits :: chars)
termination_by input.length
decreasing_by exact this

/-- Decodes a whole byte string. -/
def decode (input : List UInt8) : Except Fault String :=
  match decodeAt 0 input with
  | .ok chars => .ok (String.ofList chars)
  | .error fault => .error fault

/-- The bytes of a text. -/
def encode (text : String) : List UInt8 :=
  text.toList.flatMap String.utf8EncodeChar

end WasmEngine.Text.Utf8
