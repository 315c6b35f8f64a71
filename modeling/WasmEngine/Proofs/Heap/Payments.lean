import Mathlib.Algebra.BigOperators.Group.List.Basic
import WasmEngine.Proofs.Allocation.Machines
import WasmEngine.Proofs.Memory.Growth

/-!
# Everything is paid for

`Heap.Pays` says that a heap has handed out what some pages take and so many bytes more. A page that moves between the
pool and a machine stays one of the pages, and a linear memory that grows pays for what it gets.
-/

namespace WasmEngine

/-! ## Heaps -/

namespace Heap

variable {heap heap' : Heap} {block block' : Block} {bytes len : Nat}

/-- The heap has handed out so many bytes, as far as it counts. -/
def Counts : Heap → Nat → Prop
  | .system inUse, bytes => inUse = UInt64.ofNat bytes
  | .arena region, bytes => region.inUse = bytes

theorem counts_inUse (heap : Heap) : heap.Counts heap.inUse := by
  cases heap with
  | system inUse => exact (UInt64.ofNat_toNat).symm
  | arena region => rfl

theorem Counts.allocate (h : heap.Counts bytes) (hserved : heap.allocate len = some (block, heap')) :
    block.len = len ∧ heap'.Counts (bytes + len) := by
  cases heap with
  | system inUse =>
    cases hserved
    refine ⟨rfl, ?_⟩
    rw [show inUse = UInt64.ofNat bytes from h]
    exact (UInt64.ofNat_add ..).symm
  | arena region =>
    obtain ⟨⟨granted, region'⟩, hregion, hgiven⟩ := Option.map_eq_some_iff.1 hserved
    cases hgiven
    exact ⟨Arena.len_allocate hregion, (Arena.inUse_allocate hregion).trans (congrArg (· + len) h)⟩

theorem Counts.free (h : heap.Counts (bytes + block.len)) : (heap.free block).Counts bytes := by
  cases heap with
  | system inUse =>
    change inUse - UInt64.ofNat block.len = UInt64.ofNat bytes
    rw [show inUse = UInt64.ofNat (bytes + block.len) from h, UInt64.ofNat_add, UInt64.add_sub_cancel]
  | arena region =>
    have hinUse : region.inUse = bytes + block.len := h
    change (region.free block).inUse = bytes
    rw [Arena.inUse_free, hinUse, Nat.add_sub_cancel]

theorem Counts.reallocate (h : heap.Counts (bytes + block.len))
    (hserved : heap.reallocate block len = some (block', heap')) :
    block'.len = len ∧ heap'.Counts (bytes + len) := by
  cases heap with
  | system inUse =>
    cases hserved
    refine ⟨rfl, ?_⟩
    change inUse + UInt64.ofNat len - UInt64.ofNat block.len = UInt64.ofNat (bytes + len)
    rw [show inUse = UInt64.ofNat (bytes + block.len) from h, UInt64.ofNat_add, UInt64.ofNat_add,
      UInt64.add_assoc, UInt64.add_comm (UInt64.ofNat block.len), ← UInt64.add_assoc, UInt64.add_sub_cancel]
  | arena region =>
    obtain ⟨⟨granted, region'⟩, hregion, hgiven⟩ := Option.map_eq_some_iff.1 hserved
    cases hgiven
    have hinUse : region.inUse = bytes + block.len := h
    change block'.len = len ∧ region'.inUse = bytes + len
    by_cases hlast : region.last = some block
    · rw [Arena.reallocate_last hlast] at hregion
      refine ⟨Arena.len_allocate hregion, ?_⟩
      rw [Arena.inUse_allocate hregion, Arena.inUse_free, hinUse, Nat.add_sub_cancel]
    · obtain ⟨moved, hmoved, rfl⟩ := Arena.reallocate_moved hlast hregion
      refine ⟨Arena.len_allocate hmoved, ?_⟩
      rw [Arena.inUse_free, Arena.inUse_allocate hmoved]
      omega

end Heap

/-! ## Pages -/

namespace CodePage

/-- The bytes that a page takes. -/
def bytes (page : CodePage) : Nat :=
  Line.byteSize * page.capacity

/-- The bytes that a page takes and the block that pays for them. -/
def bill (page : CodePage) : Nat × Block :=
  (page.bytes, page.grant)

end CodePage

/-- The heap has handed out what some pages take and so many bytes more, and each page has its block. -/
structure Heap.Pays (heap : Heap) (pages : List CodePage) (rest : Nat) : Prop where
  counts : heap.Counts ((pages.map CodePage.bytes).sum + rest)
  paid : ∀ page ∈ pages, page.grant.len = page.bytes

namespace Heap.Pays

variable {heap heap' : Heap} {pages pages' : List CodePage} {page : CodePage} {rest : Nat}

/-- Only the bills matter, and not their order. -/
theorem of_perm (h : heap.Pays pages rest) (hbills : (pages.map CodePage.bill).Perm (pages'.map CodePage.bill)) :
    heap.Pays pages' rest := by
  constructor
  · have hbytes : (pages.map CodePage.bytes).Perm (pages'.map CodePage.bytes) := by
      simpa [Function.comp_def, CodePage.bill] using hbills.map Prod.fst
    exact hbytes.sum_eq ▸ h.counts
  · intro page hpage
    obtain ⟨old, hold, hbill⟩ := List.mem_map.1 (hbills.mem_iff.2 (List.mem_map_of_mem hpage))
    obtain ⟨hbytes, hgrant⟩ := Prod.ext_iff.1 hbill
    have hpaid : old.grant.len = old.bytes := h.paid old hold
    rwa [show old.grant = page.grant from hgrant, show old.bytes = page.bytes from hbytes] at hpaid

theorem of_perm_left {others : List CodePage} (h : heap.Pays (pages ++ others) rest)
    (hbills : (pages.map CodePage.bill).Perm (pages'.map CodePage.bill)) : heap.Pays (pages' ++ others) rest := by
  refine h.of_perm ?_
  rw [List.map_append, List.map_append]
  exact hbills.append_right _

/-- A new page is paid for. What was taken for one that there is no room for is given back. -/
theorem allocatePage {config : Config} {minLines : Nat} {sequence : UInt32} {served : Option CodePage}
    (h : heap.Pays pages rest) (halloc : CodePage.allocate config minLines sequence heap = (served, heap')) :
    heap'.Pays (served.toList ++ pages) rest := by
  unfold CodePage.allocate at halloc
  cases hcapacity : CodePage.capacityFor? config minLines with
  | none =>
    rw [hcapacity] at halloc
    cases halloc
    exact h
  | some capacity =>
    simp only [hcapacity] at halloc
    cases hgranted : heap.allocate (capacity * Line.byteSize) with
    | none =>
      rw [hgranted] at halloc
      cases halloc
      exact h
    | some granted =>
      obtain ⟨grant, between⟩ := granted
      obtain ⟨hlen, hcounts⟩ := h.counts.allocate hgranted
      simp only [hgranted] at halloc
      split at halloc
      · cases halloc
        have hbytes : grant.len = Line.byteSize * capacity := hlen.trans (Nat.mul_comm ..)
        refine ⟨?_, List.forall_mem_cons.2 ⟨hbytes, h.paid⟩⟩
        convert hcounts using 1
        simp only [Option.toList_some, List.cons_append, List.nil_append, List.map_cons, List.sum_cons,
          CodePage.bytes]
        omega
      · cases halloc
        exact ⟨(hlen ▸ hcounts).free, h.paid⟩

/-- Giving back a block that paid for bytes. -/
theorem freeBlock {block : Block} (h : heap.Pays pages (block.len + rest)) : (heap.free block).Pays pages rest := by
  refine ⟨Counts.free ?_, h.paid⟩
  rw [Nat.add_assoc, Nat.add_comm rest]
  exact h.counts

/-- Giving back a page. -/
theorem free (h : heap.Pays (page :: pages) rest) : (heap.free page.grant).Pays pages rest := by
  obtain ⟨hpage, hpaid⟩ := List.forall_mem_cons.1 h.paid
  refine freeBlock ⟨?_, hpaid⟩
  convert h.counts using 1
  rw [List.map_cons, List.sum_cons, hpage]
  omega

/-- Giving back all pages. -/
theorem freeAll (h : heap.Pays pages rest) : (pages.foldl (fun heap page => heap.free page.grant) heap).Counts rest := by
  induction pages generalizing heap with
  | nil => simpa using h.counts
  | cons page pages ih => exact ih h.free

end Heap.Pays

/-! ## Linear memory -/

namespace LinearMemory

/-- The block that a linear memory has, if any, is as long as its bytes. -/
def Paid (memory : LinearMemory) : Prop :=
  (memory.grant.map Block.len).getD 0 = memory.size

theorem Bare.paid {memory : LinearMemory} (h : memory.Bare) : memory.Paid := by
  rw [Paid, h.1, h.2]
  rfl

end LinearMemory

namespace MemoryState

variable {state state' : MemoryState} {pages : List CodePage} {rest : Nat}

/-- The bytes of the linear memory are paid for, and so are some pages and bytes more. The system backs them. -/
structure Covered (state : MemoryState) (pages : List CodePage) (rest : Nat) : Prop where
  paid : state.memory.Paid
  pays : state.heap.Pays pages (state.memory.size + rest)
  backing : state.memory.backing = none

/-- A renewed block pays for the bytes that were asked for, in place of what was paid before. -/
theorem Covered.renew {bytes : Nat} {block : Block} {heap : Heap} (h : state.Covered pages rest)
    (hserved : state.heap.renew state.memory.grant bytes = some (block, heap)) : heap.Pays pages (bytes + rest) := by
  have hpaid : (state.memory.grant.map Block.len).getD 0 = state.memory.size := h.paid
  have hcounts := h.pays.counts
  refine ⟨?_, h.pays.paid⟩
  cases hgrant : state.memory.grant with
  | none =>
    rw [hgrant] at hserved hpaid
    have hsize : state.memory.size = 0 := hpaid.symm
    obtain ⟨-, hcounts⟩ := hcounts.allocate hserved
    convert hcounts using 1
    omega
  | some old =>
    rw [hgrant] at hserved hpaid
    have hsize : old.len = state.memory.size := hpaid
    have hsum : (pages.map CodePage.bytes).sum + (state.memory.size + rest) =
        (pages.map CodePage.bytes).sum + rest + old.len := by omega
    rw [hsum] at hcounts
    obtain ⟨-, hcounts⟩ := hcounts.reallocate hserved
    convert hcounts using 1
    omega

theorem Covered.growTo (h : state.Covered pages rest) (count : Nat) :
    (stateAfter (LinearMemory.growTo count state)).Covered pages rest := by
  have hgrowth := LinearMemory.growth count state
  generalize LinearMemory.growTo count state = result at hgrowth ⊢
  cases hgrowth with
  | excess hmax => exact h
  | enough hmax henough => exact ⟨h.paid, h.pays, h.backing⟩
  | unpaid hmax hmore hrefused => exact ⟨h.paid, h.pays, h.backing⟩
  | unbacked hmax hmore hserved hbacks =>
    rw [LinearMemory.backs, h.backing] at hbacks
    cases hbacks
  | @grown block heap hmax hpages hmore hserved hbacks =>
    have hsize := LinearMemory.size_grown block hmore
    refine ⟨(Heap.len_renew hserved).trans hsize.symm, ?_, h.backing⟩
    change heap.Pays pages ((LinearMemory.commit { state.memory.sized with grant := some block }
      (state.memory.targetSize count)).size + rest)
    rw [hsize]
    exact h.renew hserved

theorem Event.covered (hevent : Event state state') (h : state.Covered pages rest) : state'.Covered pages rest := by
  cases hevent with
  | grow count => exact h.growTo count
  | @write memory memory' offset data heap hwrite =>
    obtain ⟨bytes, rfl, hsize⟩ := LinearMemory.write_eq_ok hwrite
    refine ⟨h.paid.trans hsize.symm, ?_, h.backing⟩
    change heap.Pays pages (LinearMemory.size { memory with bytes } + rest)
    rw [hsize]
    exact h.pays

end MemoryState

/-! ## Code areas -/

namespace CodeArea

/-- The heap pays for what it paid for before, whatever other pages and bytes there are. -/
def Balances (area area' : CodeArea) : Prop :=
  ∀ (others : List CodePage) (rest : Nat),
    area.env.heap.Pays (area.pages ++ others) rest → area'.env.heap.Pays (area'.pages ++ others) rest

namespace Balances

variable {first second third : CodeArea}

theorem refl (area : CodeArea) : Balances area area :=
  fun _ _ h => h

theorem trans (h : Balances first second) (h' : Balances second third) : Balances first third :=
  fun others rest hpays => h' others rest (h others rest hpays)

theorem of_code (env : Environment) {code code' : CodeStore}
    (hbills : code'.pages.toList.map CodePage.bill = code.pages.toList.map CodePage.bill) :
    Balances ⟨env, code⟩ ⟨env, code'⟩ := by
  intro others rest hpays
  refine hpays.of_perm_left ?_
  simp only [CodeArea.pages, List.map_append, hbills]
  exact .refl _

theorem of_env {env env' : Environment} (code : CodeStore) (hpool : env'.pool = env.pool)
    (hheap : env'.heap = env.heap) : Balances ⟨env, code⟩ ⟨env', code⟩ := by
  intro others rest hpays
  simpa only [CodeArea.pages, hpool, hheap] using hpays

end Balances

theorem release_balances (area : CodeArea) (id : Nat) : Balances area (area.release id) :=
  .of_code area.env ((CodeStore.sameCode_release area.code _ id).map_eq CodePage.bill fun _ => rfl)

/-- A page that is adopted is one more page. -/
theorem bills_adopt (area : CodeArea) (page : CodePage) :
    ((page :: area.pages).map CodePage.bill).Perm ((area.adopt page).pages.map CodePage.bill) := by
  rw [map_pages_adopt CodePage.bill fun _ => rfl]
  exact (List.perm_append_singleton _ _).symm

theorem acquire_balances (minLines : Nat) : Keeps Balances (acquire minLines) := by
  intro area others rest hpays
  have hcases := acquired minLines area
  generalize acquire minLines area = result at hcases ⊢
  cases hcases with
  | @opened id code htake =>
    have htaken := (CodeStore.sameCode_takeOpen htake).map_eq CodePage.bill fun _ => rfl
    have hheld := (CodeStore.sameCode_hold code id).map_eq CodePage.bill fun _ => rfl
    exact Balances.of_code area.env (hheld.trans htaken) others rest hpays
  | @pooled page pool hopen htake =>
    have hadopted := bills_adopt { area with env := { area.env with pool } } page
    have hmoved : (area.pages.map CodePage.bill).Perm _ :=
      (((PagePool.perm_of_take htake).append_right area.code.pages.toList).map CodePage.bill).trans hadopted
    exact hpays.of_perm_left hmoved
  | @served page heap hopen hpool halloc =>
    have hserved : heap.Pays (page :: area.pages ++ others) rest := hpays.allocatePage halloc
    exact hserved.of_perm_left (bills_adopt area page)
  | refused hopen hpool halloc => exact hpays.allocatePage halloc

end CodeArea

end WasmEngine
