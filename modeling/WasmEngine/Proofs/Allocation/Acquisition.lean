import WasmEngine.Proofs.Allocation.Sessions
import WasmEngine.Proofs.Allocation.Stock

/-!
# Which page is handed out

Somebody who needs room for some lines of code gets the first page on the open chain that has it, else a page of the
newest batch of the pool that has one with it, else a new page (`CodeArea.Chooses`).
-/

namespace WasmEngine

open Engine (Reaches)

theorem CodePage.Blank.freeLines_eq {page : CodePage} (h : page.Blank) : page.freeLines = page.capacity := by
  rw [CodePage.freeLines, h.lines]
  rfl

namespace CodeStore

variable {threshold minLines id : Nat} {store store' : CodeStore} {opens fulls held : List Nat}

theorem freeLines_of_page {page : CodePage} (h : store.pages[id]? = some page) :
    store.freeLines id = page.freeLines := by
  rw [freeLines, h]

theorem Laid.find?_of_takeOpen (h : Laid threshold store opens fulls held)
    (htake : store.takeOpen minLines = some (id, store')) :
    opens.find? (fun other => minLines ≤ store.freeLines other) = some id := by
  unfold CodeStore.takeOpen at htake
  split at htake
  · cases htake
  rename_i before found after hfind
  cases htake
  obtain ⟨skipped, rest, page, rfl, hpage, hroom, hskipped, -⟩ := findRoom_eq_some h.openChain hfind
  refine List.find?_eq_some_iff_append.2 ⟨?_, skipped, rest, rfl, fun other hother => ?_⟩
  · rw [freeLines_of_page hpage]
    exact decide_eq_true hroom
  · obtain ⟨otherPage, hotherPage⟩ := h.openChain.exists_page (List.mem_append_left _ hother)
    rw [freeLines_of_page hotherPage]
    simpa using hskipped other hother otherPage hotherPage

theorem Laid.find?_of_takeOpen_eq_none (h : Laid threshold store opens fulls held)
    (htake : store.takeOpen minLines = none) :
    opens.find? (fun other => minLines ≤ store.freeLines other) = none := by
  have hlength := h.split.length_eq
  simp only [List.length_append, List.length_range] at hlength
  unfold CodeStore.takeOpen at htake
  split at htake
  · rename_i hfind
    refine List.find?_eq_none.2 fun other hother => ?_
    obtain ⟨page, hpage⟩ := h.openChain.exists_page hother
    rw [freeLines_of_page hpage]
    simpa using findRoom_eq_none h.openChain (by omega) hfind other hother page hpage
  · cases htake

theorem pages_insert_hold (store : CodeStore) {page : CodePage} (husage : page.usage = 0) :
    ((store.insert page).2.hold (store.insert page).1).pages[store.pages.size]? = some { page with usage := 1 } := by
  rw [getElem?_hold]
  simp [CodeStore.insert, husage]

/-- A page takes as many lines as are free on it. -/
theorem emitAll_of_le {lines : List Line} {page : CodePage} (hpage : store.pages[id]? = some page)
    (hroom : lines.length ≤ page.freeLines) : ∃ store', store.emitAll id lines = (.ok (), store') := by
  induction lines generalizing store page with
  | nil => exact ⟨store, rfl⟩
  | cons line lines ih =>
    rw [List.length_cons] at hroom
    have hlt : id < store.pages.size := (Array.getElem?_eq_some_iff.1 hpage).1
    have hemit : store.emit id line =
        .ok (⟨id, page.pc⟩,
          { store with pages := store.pages.setIfInBounds id { page with lines := page.lines.push line } }) := by
      simp only [emit, hpage, CodePage.emit]
      rw [if_neg (by omega)]
    unfold emitAll
    rw [hemit]
    have hpushed : (store.pages.setIfInBounds id { page with lines := page.lines.push line })[id]? =
        some { page with lines := page.lines.push line } := Array.getElem?_setIfInBounds_self_of_lt hlt
    refine ih hpushed ?_
    simp only [CodePage.freeLines, Array.size_push] at hroom ⊢
    omega

end CodeStore

namespace CodeArea

variable {threshold minLines id : Nat} {area after : CodeArea} {opens fulls held : List Nat}

/-- The pages on the open chain of a machine. -/
def openPages (area : CodeArea) : List Nat :=
  area.code.chain area.code.openHead

/-- The pages on the full chain of a machine. -/
def fullPages (area : CodeArea) : List Nat :=
  area.code.chain area.code.fullHead

/-- The first page on the open chain with so many free lines. -/
def firstOpen? (area : CodeArea) (minLines : Nat) : Option Nat :=
  area.openPages.find? fun id => minLines ≤ area.code.freeLines id

/-- A page with so many free lines is handed out: it has one user, is on no chain, and the chains keep the others. -/
structure HandsOut (minLines : Nat) (area : CodeArea) (id : Nat) (after : CodeArea) : Prop where
  page : ∃ page, after.code.pages[id]? = some page ∧ minLines ≤ page.freeLines ∧ page.usage = 1 ∧ page.next = none
  apart : id ∉ after.openPages ∧ id ∉ after.fullPages
  opens : after.openPages = area.openPages.erase id
  fulls : after.fullPages = area.fullPages

/-- Which page is handed out to somebody who needs so many lines, if any. -/
inductive Chooses (minLines : Nat) (area : CodeArea) : EStateM.Result Error CodeArea Nat → Prop where
  /-- The first page on the open chain that has them. -/
  | opened {id : Nat} {after : CodeArea} (hfirst : area.firstOpen? minLines = some id) (henv : after.env = area.env)
      (hhands : HandsOut minLines area id after) : Chooses minLines area (.ok id after)
  /-- A page from the newest batch that has one of that capacity. -/
  | pooled {after : CodeArea} {newer older : List (List CodePage)} {batch kept : List CodePage} {page : CodePage}
      (hopen : area.firstOpen? minLines = none) (hbatches : area.env.pool.batches = newer ++ batch :: older)
      (hnewer : ∀ other ∈ newer.flatten, other.capacity < minLines) (hbatch : batch.Perm (page :: kept))
      (hroom : minLines ≤ page.capacity)
      (hleft : after.env.pool.batches = newer ++ if kept.isEmpty then older else kept :: older)
      (hpage : after.code.pages[area.code.pages.size]? = some { page with usage := 1 })
      (hhands : HandsOut minLines area area.code.pages.size after) :
      Chooses minLines area (.ok area.code.pages.size after)
  /-- A new page that the heap pays for. -/
  | served {after : CodeArea} {page : CodePage} (hopen : area.firstOpen? minLines = none)
      (hpool : ∀ other ∈ area.env.pool.batches.flatten, other.capacity < minLines) (hblank : page.Blank)
      (hcapacity : CodePage.capacityFor? area.env.config minLines = some page.capacity)
      (hroom : minLines ≤ page.capacity) (hsame : after.env.pool = area.env.pool)
      (hpage : after.code.pages[area.code.pages.size]? = some { page with usage := 1 })
      (hhands : HandsOut minLines area area.code.pages.size after) :
      Chooses minLines area (.ok area.code.pages.size after)
  /-- None: the size is no 64-bit number, or there is no space. Only the heap and the count of requests change. -/
  | refused {heap : Heap} (hopen : area.firstOpen? minLines = none)
      (hpool : ∀ other ∈ area.env.pool.batches.flatten, other.capacity < minLines)
      (hreason : ∀ capacity, CodePage.capacityFor? area.env.config minLines = some capacity →
        area.env.heap.allocate (capacity * Line.byteSize) = none ∨
          Heap.addressable (capacity * Line.byteSize) = false) :
      Chooses minLines area (.error .outOfCodePages
        { area with env := { area.env with heap, pagesAsked := area.env.pagesAsked + 1 } })

/-- A store whose layout has one more held page and otherwise the same lists has handed it out. -/
theorem HandsOut.of_laid (hbefore : area.code.Laid threshold opens fulls held)
    (hlaid : after.code.Laid threshold (opens.erase id) fulls (id :: held)) {page : CodePage}
    (hpage : after.code.pages[id]? = some page) (hroom : minLines ≤ page.freeLines) :
    HandsOut minLines area id after := by
  obtain ⟨hopens, hfulls⟩ := hbefore.chains_eq
  obtain ⟨hopens', hfulls'⟩ := hlaid.chains_eq
  have hapart := hlaid.ne_of_held (List.mem_cons_self ..)
  refine ⟨⟨page, hpage, hroom, hlaid.busy id (List.mem_cons_self ..) page hpage⟩, ⟨?_, ?_⟩, ?_, ?_⟩
  · rw [openPages, hopens']
    exact fun hmem => hapart id (List.mem_append_left _ hmem) rfl
  · rw [fullPages, hfulls']
    exact fun hmem => hapart id (List.mem_append_right _ hmem) rfl
  · rw [openPages, openPages, hopens', hopens]
  · rw [fullPages, fullPages, hfulls', hfulls]

/-- A new page is handed out. -/
theorem HandsOut.of_insert (env : Environment) (h : area.code.Laid threshold opens fulls held) {page : CodePage}
    (hblank : page.Blank) (hroom : minLines ≤ page.freeLines) :
    HandsOut minLines area area.code.pages.size (adopt { area with env } page) := by
  have hfresh : area.code.pages.size ∉ opens := fun hmem =>
    Nat.lt_irrefl _ (h.lt_size (List.mem_append_left _ (List.mem_append_left _ hmem)))
  have hlaid := h.insert hblank.usage hblank.next
  rw [← List.erase_of_not_mem hfresh] at hlaid
  exact .of_laid h hlaid (area.code.pages_insert_hold hblank.usage) hroom

/-- A page of the open chain is handed out. -/
theorem HandsOut.of_takeOpen (h : area.code.Laid threshold opens fulls held) {code : CodeStore}
    (htake : area.code.takeOpen minLines = some (id, code)) :
    HandsOut minLines area id { area with code := code.hold id } := by
  have hfind := h.find?_of_takeOpen htake
  obtain ⟨skipped, rest, hopens, hlaid⟩ := h.takeOpen htake
  have herase : opens.erase id = skipped ++ rest := by
    have hnodup : (skipped ++ id :: rest).Nodup :=
      hopens ▸ (List.nodup_append.1 (List.nodup_append.1 h.nodup).1).1
    have hskipped : id ∉ skipped := fun hmem => (List.nodup_append.1 hnodup).2.2 id hmem id (List.mem_cons_self ..) rfl
    rw [hopens, List.erase_append_right _ hskipped, List.erase_cons_head]
  obtain ⟨page, hpage⟩ := h.openChain.exists_page (List.mem_of_find?_eq_some hfind)
  have hroom : minLines ≤ page.freeLines := by
    rw [← CodeStore.freeLines_of_page hpage]
    simpa using List.find?_some hfind
  -- Neither unlinking nor holding a page touches its lines.
  have hbare := CodeStore.sameCode_hold code id id |>.trans (CodeStore.sameCode_takeOpen htake id)
  rw [hpage] at hbare
  obtain ⟨held', hheld, hsame⟩ := Option.map_eq_some_iff.1 hbare
  have hfree : held'.bare.freeLines = page.bare.freeLines := congrArg CodePage.freeLines hsame
  exact .of_laid h (herase ▸ hlaid) hheld (Nat.le_trans hroom (Nat.le_of_eq hfree.symm))

theorem firstOpen?_eq (h : area.code.Laid threshold opens fulls held) (minLines : Nat) :
    area.firstOpen? minLines = opens.find? fun id => minLines ≤ area.code.freeLines id := by
  rw [firstOpen?, openPages, h.chains_eq.1]

/-- If the heap refuses a page, it is for want of a size or of space. -/
theorem refusal_of_allocate {config : Config} {sequence : UInt32} {heap heap' : Heap}
    (h : CodePage.allocate config minLines sequence heap = (none, heap')) :
    ∀ capacity, CodePage.capacityFor? config minLines = some capacity →
      heap.allocate (capacity * Line.byteSize) = none ∨ Heap.addressable (capacity * Line.byteSize) = false := by
  intro capacity hcapacity
  unfold CodePage.allocate at h
  rw [hcapacity] at h
  dsimp only at h
  split at h
  · rename_i halloc
    exact .inl halloc
  · split at h
    · cases h
    · rename_i haddr
      exact .inr (Bool.eq_false_iff.2 haddr)

theorem capacity_of_allocate {config : Config} {sequence : UInt32} {heap heap' : Heap} {page : CodePage}
    (h : CodePage.allocate config minLines sequence heap = (some page, heap')) :
    CodePage.capacityFor? config minLines = some page.capacity := by
  unfold CodePage.allocate at h
  split at h
  · cases h
  · rename_i hcapacity
    split at h
    · cases h
    · split at h
      · cases h
        exact hcapacity
      · cases h

/-- Where the pages of a machine are laid out and the pool is tidy, pages are handed out by the policy. -/
theorem chooses_acquire (hlaid : area.code.Laid threshold opens fulls held) (htidy : area.env.pool.Tidy)
    (minLines : Nat) : Chooses minLines area (acquire minLines area) := by
  have hcapacity {page : CodePage} (hpage : page ∈ area.env.pool.batches.flatten) :
      page.freeLines = page.capacity := (htidy.blank_of_mem hpage).freeLines_eq
  have hcases := acquired minLines area
  generalize acquire minLines area = result at hcases ⊢
  cases hcases with
  | @opened id code htake =>
    exact .opened ((firstOpen?_eq hlaid minLines).trans (hlaid.find?_of_takeOpen htake)) rfl (.of_takeOpen hlaid htake)
  | @pooled page pool hopen htake =>
    obtain ⟨hblank, -, -⟩ := htidy.take htake
    have hnone := (firstOpen?_eq hlaid minLines).trans (hlaid.find?_of_takeOpen_eq_none hopen)
    have hroom := PagePool.le_freeLines_of_take htake
    have hhands := HandsOut.of_insert { area.env with pool } hlaid hblank hroom
    unfold PagePool.take at htake
    split at htake
    · rename_i batches hfrom
      cases htake
      obtain ⟨newer, batch, older, kept, hbatches, hnewer, hperm, -, hleft⟩ := PagePool.takeFrom_eq_some hfrom
      refine .pooled hnone hbatches (fun other hother => ?_) hperm (hblank.freeLines_eq ▸ hroom) hleft
        (area.code.pages_insert_hold hblank.usage) hhands
      have hmem : other ∈ area.env.pool.batches.flatten := by
        rw [hbatches, List.flatten_append]
        exact List.mem_append_left _ hother
      exact hcapacity hmem ▸ hnewer other hother
    · cases htake
  | @served page heap hopen hpool halloc =>
    obtain ⟨hblank, -⟩ := CodePage.allocate_eq_some halloc
    have hroom := CodePage.le_freeLines_of_allocate halloc
    exact .served ((firstOpen?_eq hlaid minLines).trans (hlaid.find?_of_takeOpen_eq_none hopen))
      (fun other hother => hcapacity hother ▸ PagePool.lt_of_take_eq_none hpool other hother) hblank
      (capacity_of_allocate halloc) (hblank.freeLines_eq ▸ hroom) rfl (area.code.pages_insert_hold hblank.usage)
      (.of_insert _ hlaid hblank hroom)
  | @refused heap hopen hpool halloc =>
    exact .refused ((firstOpen?_eq hlaid minLines).trans (hlaid.find?_of_takeOpen_eq_none hopen))
      (fun other hother => hcapacity hother ▸ PagePool.lt_of_take_eq_none hpool other hother)
      (refusal_of_allocate halloc)

/-- If a page on the open chain has the room, that one is handed out. -/
theorem Chooses.of_firstOpen? {result : EStateM.Result Error CodeArea Nat} (h : Chooses minLines area result)
    (hfirst : area.firstOpen? minLines = some id) :
    ∃ after, result = .ok id after ∧ after.env = area.env ∧ HandsOut minLines area id after := by
  cases h with
  | opened hfound henv hhands =>
    cases hfound.symm.trans hfirst
    exact ⟨_, rfl, henv, hhands⟩
  | pooled hopen => cases hopen.symm.trans hfirst
  | served hopen => cases hopen.symm.trans hfirst
  | refused hopen => cases hopen.symm.trans hfirst

/-- If no page on the open chain has the room and one of the pool has, one of the pool is handed out. -/
theorem Chooses.of_pool {result : EStateM.Result Error CodeArea Nat} (h : Chooses minLines area result)
    (hopen : area.firstOpen? minLines = none) {other : CodePage} (hother : other ∈ area.env.pool.batches.flatten)
    (hroom : minLines ≤ other.capacity) :
    ∃ after, ∃ page ∈ area.env.pool.batches.flatten, result = .ok area.code.pages.size after ∧
      minLines ≤ page.capacity ∧ after.code.pages[area.code.pages.size]? = some { page with usage := 1 } := by
  cases h with
  | opened hfirst => cases hopen.symm.trans hfirst
  | @pooled after newer older batch kept page _ hbatches _ hbatch hfits _ hpage =>
    have hmem : page ∈ area.env.pool.batches.flatten :=
      List.mem_flatten.2 ⟨batch, hbatches ▸ by simp, hbatch.mem_iff.2 (List.mem_cons_self ..)⟩
    exact ⟨after, page, hmem, rfl, hfits, hpage⟩
  | served _ hpool => exact absurd (hpool other hother) (Nat.not_lt.2 hroom)
  | refused _ hpool => exact absurd (hpool other hother) (Nat.not_lt.2 hroom)

/-- Whatever page is handed out, it takes the lines that were asked for. -/
theorem Chooses.emitAll (h : Chooses minLines area (.ok id after)) {lines : List Line}
    (hlines : lines.length ≤ minLines) : ∃ code, after.code.emitAll id lines = (.ok (), code) := by
  have hhands : HandsOut minLines area id after := by cases h <;> assumption
  obtain ⟨page, hpage, hroom, -⟩ := hhands.page
  exact CodeStore.emitAll_of_le hpage (Nat.le_trans hlines hroom)

theorem Chooses.error_eq {error : Error} (h : Chooses minLines area (.error error after)) :
    error = .outOfCodePages := by
  cases h
  rfl

/-- The call of a host function is installed unless there is no page for it. -/
theorem error_of_install (h : ∀ minLines, Chooses minLines area (acquire minLines area)) {link : HostLink}
    {error : Error} (hinstall : install link area = .error error after) : error = .outOfCodePages := by
  have hcases := installed link area
  rw [hinstall] at hcases
  have hchooses := h link.lines.length
  cases hcases with
  | refused hacquire => exact (hacquire ▸ hchooses).error_eq
  | failed hacquire hemit =>
    obtain ⟨code, hall⟩ := (hacquire ▸ hchooses).emitAll (Nat.le_refl _)
    cases hemit.symm.trans hall

end CodeArea

namespace Session

/-- At every point of every session pages are handed out by the policy, and a page that is handed out takes the lines
that it was asked for: the call of a host function is installed unless there is no page to put it on. -/
theorem pages_acquired (backing : Option Nat) (config : Config) (host : Host) (heap : Heap) (actions : List Action)
    {engine : Engine} (hengine : Reaches ((startWithin backing config host heap).performAll actions).engine engine)
    {place : Workplace} (hplace : place ∈ engine.places) :
    let area : CodeArea := ⟨engine.env, place.code⟩
    (∀ minLines, area.Chooses minLines (CodeArea.acquire minLines area)) ∧
    (∀ minLines id after, CodeArea.acquire minLines area = .ok id after →
      ∀ lines, lines.length ≤ minLines → ∃ code, after.code.emitAll id lines = (.ok (), code)) ∧
    ∀ link error after, CodeArea.install link area = .error error after → error = .outOfCodePages := by
  intro area
  have hsound : engine.Sound :=
    (sound_startWithin backing config host heap).reaches ((performAll_reaches _ actions).trans hengine)
  obtain ⟨opens, fulls, hlaid⟩ := hsound.laid place hplace
  have htidy : area.env.pool.Tidy := hsound.tidy
  have hchooses : ∀ minLines, area.Chooses minLines (CodeArea.acquire minLines area) :=
    CodeArea.chooses_acquire hlaid htidy
  refine ⟨hchooses, fun minLines id after hacquire lines hlines => ?_, fun link error after hinstall => ?_⟩
  · exact (hacquire ▸ hchooses minLines).emitAll hlines
  · exact CodeArea.error_of_install hchooses hinstall

/-- A machine whose open chain has pages with 3, 8 and 3 free lines, and a pool whose newest batch has a page of 8 lines
and whose older one has pages of 8 and 16. Whoever needs five lines gets the page in the middle of the chain, and
whoever needs nine gets the page of 16 lines. -/
theorem pages_acquired_between :
    let session := (startWithin none { codePageAlign := 128, freeLineThreshold := 3 }
      (.ofBackends .scripted .absent none) (.system 0)).performAll
        [.create "a" 64, .create "y" 64, .create "z" 64,
          .build "m" [.function "v()" 0
            [2, 0, 2, 0, 2, 0, 2, 0, 2, 0, 3, 8, 3, 8, 3, 3, 2, 0, 2, 0, 2, 0, 2, 0, 2, 0, 0x0B],
            .exportFunction 0 "f"], .load "a" "m", .find "a" "f",
          .build "n" [.function "v()" 0 [0x0B], .exportFunction 0 "f"], .load "y" "n", .find "y" "f",
          .build "o" [.function "v()" 0 [3, 9, 0x0B], .exportFunction 0 "f"], .load "z" "o", .find "z" "f",
          .dispose "z", .dispose "y"]
    ∃ machine, session.machines.get? "a" = some machine ∧
      (∃ after, CodeArea.acquire 5 ⟨session.env, machine.code⟩ = .ok 2 after ∧ after.openPages = [1, 0] ∧
        ∃ code, after.code.emitAll 2 (List.replicate 5 (.imm 0)) = (.ok (), code)) ∧
      ∃ after page, CodeArea.acquire 9 ⟨session.env, machine.code⟩ = .ok 3 after ∧
        after.code.pages[3]? = some page ∧ page.capacity = 16 ∧ page.usage = 1 := by
  intro session
  have hchains : (session.machines.get? "a").map (fun machine =>
      let area : CodeArea := ⟨session.env, machine.code⟩
      (area.openPages, area.firstOpen? 5, area.firstOpen? 9, machine.code.pages.size)) =
        some ([1, 2, 0], some 2, none, 3) := by decide +kernel
  have hpool : session.env.pool.batches.flatten.map (·.capacity) = [8, 16, 8] := by decide +kernel
  obtain ⟨machine, hget, hchains⟩ := Option.map_eq_some_iff.1 hchains
  simp only [Prod.mk.injEq] at hchains
  obtain ⟨hopens, hfive, hnine, hsize⟩ := hchains
  obtain ⟨hchooses, hemit, -⟩ := pages_acquired none { codePageAlign := 128, freeLineThreshold := 3 }
    (.ofBackends .scripted .absent none) (.system 0) _ .refl (mem_places_of_get? hget)
  refine ⟨machine, hget, ?_, ?_⟩
  · obtain ⟨after, hacquire, -, hhands⟩ := (hchooses 5).of_firstOpen? hfive
    exact ⟨after, hacquire, hhands.opens.trans (congrArg (List.erase · 2) hopens),
      hemit 5 2 after hacquire _ (Nat.le_of_eq List.length_replicate)⟩
  · have hlarge : (16 : Nat) ∈ session.env.pool.batches.flatten.map (·.capacity) := by rw [hpool]; decide
    obtain ⟨other, hother, hroom⟩ := List.mem_map.1 hlarge
    obtain ⟨after, page, hpage, hacquire, hfits, hheld⟩ :=
      (hchooses 9).of_pool hnine hother (hroom ▸ by decide)
    rw [hsize] at hacquire hheld
    have hcapacity : page.capacity ∈ session.env.pool.batches.flatten.map (·.capacity) := List.mem_map_of_mem hpage
    rw [hpool] at hcapacity
    simp only [List.mem_cons, List.not_mem_nil, or_false] at hcapacity
    exact ⟨after, _, hacquire, hheld, show page.capacity = 16 by omega, rfl⟩

end Session

end WasmEngine
