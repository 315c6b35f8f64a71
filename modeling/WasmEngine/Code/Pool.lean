import WasmEngine.Code.Page

/-!
# The pool of released pages

When a machine is torn down its pages are reset and go to its environment's pool as one batch. Pages are handed out
again from the newest batch that has one with enough room.
-/

namespace WasmEngine

/-- Released pages, in batches. -/
structure PagePool where
  /-- The batches, newest first. None of them is empty. -/
  batches : List (List CodePage) := []
  /-- How many pages the batches hold. -/
  size : Nat := 0

namespace PagePool

/-- The place of the last element with a property. -/
def lastIndex? {α : Type} (p : α → Bool) : List α → Option Nat
  | [] => none
  | item :: items =>
    match lastIndex? p items with
    | some index => some (index + 1)
    | none => if p item then some 0 else none

/-- Leaves out the element at a place and puts the last element there instead. -/
def swapRemove {α : Type} (items : List α) (index : Nat) : List α :=
  match items.getLast? with
  | none => items
  | some last => (items.set index last).dropLast

/-- Takes the last page with enough room out of the first batch that has one. Batches that become empty go away. -/
def takeFrom (minLines : Nat) : List (List CodePage) → Option (CodePage × List (List CodePage))
  | [] => none
  | batch :: older =>
    match lastIndex? (fun page => minLines ≤ page.freeLines) batch with
    | some index =>
      match batch[index]? with
      | none => none
      | some page =>
        let kept := swapRemove batch index
        some (page, if kept.isEmpty then older else kept :: older)
    | none =>
      match takeFrom minLines older with
      | some (page, older) => some (page, batch :: older)
      | none => none

/-- Takes a page with at least `minLines` free lines. -/
def take (pool : PagePool) (minLines : Nat) : Option (CodePage × PagePool) :=
  match takeFrom minLines pool.batches with
  | some (page, batches) => some (page, { batches, size := pool.size - 1 })
  | none => none

/-- Adds a batch of pages, unless it is empty. -/
def add (pool : PagePool) (pages : List CodePage) : PagePool :=
  if pages.isEmpty then pool
  else { batches := pages :: pool.batches, size := pool.size + pages.length }

/-- All pages, oldest batch first. -/
def pages (pool : PagePool) : List CodePage :=
  pool.batches.reverse.flatten

end PagePool

end WasmEngine
