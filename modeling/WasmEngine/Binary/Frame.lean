import WasmEngine.Binary.Reader

/-!
# Frames

The binary format frames its sections, and the parts of its name section, in one way: a number, the size of the payload
and the payload. `Frame.split` gives the complete frames at the front and the fault that stopped it, and does not look
into the payloads.
-/

namespace WasmEngine

/-- A numbered payload. -/
structure Frame where
  id : UInt8
  payload : List UInt8

namespace Frame

/-- Takes a size and a payload of that size. -/
def payloadRead : Read (List UInt8) := do
  let size ← Reader.varU32
  Reader.bytes size.toNat

theorem shrinks_payloadRead : Reader.Shrinks payloadRead :=
  Reader.Shrinks.bind Reader.shrinks_varU32 fun size => Reader.shrinks_bytes size.toNat

/-- The complete frames at the front, and why the rest is not one. -/
def split (input : List UInt8) : List Frame × Option Error :=
  match input with
  | [] => ([], none)
  | id :: rest =>
    match h : payloadRead (Reader.ofBytes rest) with
    | .error error _ => ([], some error)
    | .ok payload next =>
      have : next.rest.length < (id :: rest).length := by
        have := shrinks_payloadRead _ _ _ h
        simp only [List.length_cons]
        exact Nat.lt_succ_of_le this
      let (frames, fault) := split next.rest
      (⟨id, payload⟩ :: frames, fault)
termination_by input.length
decreasing_by exact this

end Frame

end WasmEngine
