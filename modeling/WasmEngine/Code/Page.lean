import WasmEngine.Code.Line

/-!
# Code pages

A code page has room for a fixed number of lines, which are filled from the front. Its bytes are paid for with a
grant of the heap.
-/

namespace WasmEngine

/-- A page of code. -/
structure CodePage where
  lines : Array Line := #[]
  /-- How many lines fit. -/
  capacity : Nat
  /-- How many users hold the page. -/
  usage : Nat := 0
  /-- The number the page got when it was allocated. -/
  sequence : UInt32
  /-- The next page on the chain that this page is on. -/
  next : Option Nat := none
  /-- What the heap handed out for the page. -/
  grant : Block

namespace CodePage

/-- How many lines are free. -/
def freeLines (page : CodePage) : Nat :=
  page.capacity - page.lines.size

/-- The place of the next line. -/
def pc (page : CodePage) : Nat :=
  min page.lines.size 0xFFFFFFFF

/-- Appends a line and gives its place. -/
def emit (page : CodePage) (line : Line) : Except Error (Nat × CodePage) :=
  if page.freeLines = 0 then .error .codePageFull
  else .ok (page.pc, { page with lines := page.lines.push line })

/-- Replaces a line. -/
def patch (page : CodePage) (index : Nat) (line : Line) : Except Error CodePage :=
  if index < page.lines.size then .ok { page with lines := page.lines.setIfInBounds index line }
  else .error .invalidCodeRef

/-- The page without its code, ready for another machine. -/
def reset (page : CodePage) : CodePage :=
  { page with lines := #[], usage := 0, next := none }

/-- The number of lines of a page with room for `minLines`: whole multiples of the configured size in bytes, if that
is a 64-bit number. -/
def capacityFor? (config : Config) (minLines : Nat) : Option Nat :=
  let bytes := roundUp (minLines * Line.byteSize) (max config.codePageAlign Line.byteSize)
  if bytes < 0x10000000000000000 then some (bytes / Line.byteSize) else none

/-- A new page with room for at least `minLines` lines, and the heap after paying for it. -/
def allocate (config : Config) (minLines : Nat) (sequence : UInt32) (heap : Heap) : Option CodePage × Heap :=
  match capacityFor? config minLines with
  | none => (none, heap)
  | some capacity =>
    match heap.allocate (capacity * Line.byteSize) with
    | none => (none, heap)
    | some (grant, heap) =>
      if Heap.addressable (capacity * Line.byteSize) then (some { capacity, sequence, grant }, heap)
      else (none, heap.free grant)

end CodePage

end WasmEngine
