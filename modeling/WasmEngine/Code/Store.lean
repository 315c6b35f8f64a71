import WasmEngine.Code.Page

/-!
# The code pages of a machine

A machine keeps its pages in a store. Pages that nobody holds are on one of two chains, which run through the pages'
own `next` links: the open chain of pages with room for more code, and the full chain of the others.
-/

namespace WasmEngine

/-- The pages of one machine and its two chains. -/
structure CodeStore where
  /-- The pages by number. -/
  pages : Array CodePage := #[]
  /-- The first page of the open chain. -/
  openHead : Option Nat := none
  /-- The first page of the full chain. -/
  fullHead : Option Nat := none
  numOpen : Nat := 0
  numFull : Nat := 0
  /-- How many pages are held. -/
  numActive : Nat := 0
  numTotal : Nat := 0

namespace CodeStore

/-- The pages on the chain that starts at `head`, as far as `fuel` reaches. -/
def chainFrom (pages : Array CodePage) : (fuel : Nat) → (head : Option Nat) → List Nat
  | 0, _ => []
  | _ + 1, none => []
  | fuel + 1, some id =>
    match pages[id]? with
    | none => []
    | some page => id :: chainFrom pages fuel page.next

/-- The pages on the chain that starts at `head`. A chain without repetitions is no longer than the store. -/
def chain (store : CodeStore) (head : Option Nat) : List Nat :=
  chainFrom store.pages store.pages.size head

/-- Finds the first page with enough room on the chain at `cursor`: the page before it, the page, and the one after. -/
def findRoom (pages : Array CodePage) (minLines : Nat) :
    (fuel : Nat) → (before cursor : Option Nat) → Option (Option Nat × Nat × Option Nat)
  | 0, _, _ => none
  | _ + 1, _, none => none
  | fuel + 1, before, some id =>
    match pages[id]? with
    | none => none
    | some page =>
      if minLines ≤ page.freeLines then some (before, id, page.next)
      else findRoom pages minLines fuel (some id) page.next

/-- Changes the page with a given number. -/
def update (store : CodeStore) (id : Nat) (change : CodePage → CodePage) : CodeStore :=
  { store with pages := store.pages.modify id change }

/-- Takes a page off the open chain, given the page before it and the one after it. -/
def unlink (store : CodeStore) (before : Option Nat) (id : Nat) (after : Option Nat) : CodeStore :=
  let store := store.update id fun page => { page with next := none }
  match before with
  | none => { store with openHead := after }
  | some previous => store.update previous fun page => { page with next := after }

/-- Takes the first page with enough room off the open chain. -/
def takeOpen (store : CodeStore) (minLines : Nat) : Option (Nat × CodeStore) :=
  match findRoom store.pages minLines store.pages.size none store.openHead with
  | none => none
  | some (before, id, after) =>
    some (id, { store.unlink before id after with numOpen := store.numOpen - 1 })

/-- Adds a page and gives its number. -/
def insert (store : CodeStore) (page : CodePage) : Nat × CodeStore :=
  (store.pages.size, { store with pages := store.pages.push page, numTotal := store.numTotal + 1 })

/-- Marks a page as held. -/
def hold (store : CodeStore) (id : Nat) : CodeStore :=
  let store := store.update id fun page => { page with usage := page.usage + 1 }
  { store with numActive := store.numActive + 1 }

/-- Lets go of a page: it goes to the front of the full chain if it has fewer free lines than the threshold, and to
the front of the open chain otherwise. Pages that nobody holds are left alone. -/
def release (store : CodeStore) (threshold id : Nat) : CodeStore :=
  match store.pages[id]? with
  | none => store
  | some page =>
    if page.usage = 0 then store
    else if page.freeLines < threshold then
      let store := store.update id fun page => { page with usage := page.usage - 1, next := store.fullHead }
      { store with fullHead := some id, numFull := store.numFull + 1, numActive := store.numActive - 1 }
    else
      let store := store.update id fun page => { page with usage := page.usage - 1, next := store.openHead }
      { store with openHead := some id, numOpen := store.numOpen + 1, numActive := store.numActive - 1 }

/-- The line at an address. -/
def line? (store : CodeStore) (address : CodeRef) : Option Line :=
  match store.pages[address.page]? with
  | none => none
  | some page => page.lines[address.line]?

/-- Where the next line of a page goes. -/
def pc (store : CodeStore) (id : Nat) : CodeRef :=
  ⟨id, match store.pages[id]? with | none => 0 | some page => page.pc⟩

/-- How many lines of a page are free. -/
def freeLines (store : CodeStore) (id : Nat) : Nat :=
  match store.pages[id]? with
  | none => 0
  | some page => page.freeLines

/-- Appends a line to a page and gives its address. -/
def emit (store : CodeStore) (id : Nat) (line : Line) : Except Error (CodeRef × CodeStore) :=
  match store.pages[id]? with
  | none => .error .invalidCodeRef
  | some page =>
    match page.emit line with
    | .error error => .error error
    | .ok (index, page) => .ok (⟨id, index⟩, { store with pages := store.pages.setIfInBounds id page })

/-- Replaces the line at an address. -/
def patch (store : CodeStore) (address : CodeRef) (line : Line) : Except Error CodeStore :=
  match store.pages[address.page]? with
  | none => .error .invalidCodeRef
  | some page =>
    match page.patch address.line line with
    | .error error => .error error
    | .ok page => .ok { store with pages := store.pages.setIfInBounds address.page page }

/-- The pages that nobody holds, without their code: those of the open chain, then those of the full one. -/
def drain (store : CodeStore) : List CodePage :=
  (store.chain store.openHead ++ store.chain store.fullHead).filterMap fun id => store.pages[id]?.map CodePage.reset

end CodeStore

end WasmEngine
