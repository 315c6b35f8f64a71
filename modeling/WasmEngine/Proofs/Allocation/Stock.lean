import Mathlib.Data.List.Perm.Subperm
import WasmEngine.Proofs.Allocation.Machines
import WasmEngine.Proofs.Heap.Arena

/-!
# The stock of code pages

The pages of the pool and of a machine, as they are once they are reset, are the stock that the machine works with. No
page ever leaves the stock, and a machine that is disposed of turns its stock into the pool.
-/

namespace WasmEngine

namespace CodePage

theorem Blank.reset_eq {page : CodePage} (h : page.Blank) : page.reset = page := by
  obtain ⟨lines, capacity, usage, sequence, next, grant⟩ := page
  obtain ⟨rfl, rfl, rfl⟩ := h
  rfl

/-- A page that the heap serves has the room that was asked for. -/
theorem le_freeLines_of_allocate {config : Config} {minLines : Nat} {sequence : UInt32} {heap heap' : Heap}
    {page : CodePage} (h : allocate config minLines sequence heap = (some page, heap')) :
    minLines ≤ page.freeLines := by
  have hstep : 0 < max config.codePageAlign Line.byteSize := Nat.lt_of_lt_of_le (by decide) (Nat.le_max_right ..)
  have hbytes := le_roundUp hstep (minLines * Line.byteSize)
  unfold allocate capacityFor? at h
  dsimp only at h
  split at h
  · cases h
  · rename_i capacity hcapacity
    split at hcapacity
    · cases hcapacity
      split at h
      · cases h
      · split at h
        · cases h
          exact (Nat.le_div_iff_mul_le (by decide)).2 hbytes
        · cases h
    · cases hcapacity

end CodePage

namespace PagePool

variable {pool : PagePool}

theorem perm_pages (pool : PagePool) : pool.pages.Perm pool.batches.flatten :=
  (List.reverse_perm pool.batches).flatten

theorem Tidy.blank_of_mem (h : Tidy pool) {page : CodePage} (hpage : page ∈ pool.batches.flatten) : page.Blank := by
  obtain ⟨batch, hbatch, hmem⟩ := List.mem_flatten.1 hpage
  exact h.blank batch hbatch page hmem

/-- The pages of a tidy pool are reset already. -/
theorem Tidy.map_reset (h : Tidy pool) : pool.batches.flatten.map CodePage.reset = pool.batches.flatten := by
  rw [List.map_congr_left fun page hpage => (h.blank_of_mem hpage).reset_eq]
  exact List.map_id _

end PagePool

namespace CodeArea

/-- The pages of the pool and of a machine, as they are once they are reset. -/
def stock (area : CodeArea) : List CodePage :=
  area.pages.map CodePage.reset

/-- No page leaves the stock. -/
def Stocks (area area' : CodeArea) : Prop :=
  area.stock.Subperm area'.stock

theorem stock_of_code (env : Environment) {code code' : CodeStore}
    (h : code'.pages.toList.map CodePage.reset = code.pages.toList.map CodePage.reset) :
    stock ⟨env, code'⟩ = stock ⟨env, code⟩ := by
  simp only [stock, pages, List.map_append, h]

theorem stock_of_sameCode (env : Environment) {code code' : CodeStore} (h : CodeStore.SameCode code code') :
    stock ⟨env, code'⟩ = stock ⟨env, code⟩ :=
  stock_of_code env (h.map_eq CodePage.reset fun _ => rfl)

theorem stock_release (area : CodeArea) (page : Nat) : (area.release page).stock = area.stock :=
  stock_of_sameCode area.env (CodeStore.sameCode_release area.code _ page)

theorem stock_adopt (area : CodeArea) (page : CodePage) : (area.adopt page).stock = area.stock ++ [page.reset] :=
  map_pages_adopt CodePage.reset (fun _ => rfl) area page

/-- A machine without code has the pages of the pool to work with. -/
theorem stock_empty {env : Environment} (htidy : env.pool.Tidy) : stock ⟨env, {}⟩ = env.pool.batches.flatten := by
  unfold stock pages
  change (env.pool.batches.flatten ++ []).map CodePage.reset = _
  rw [List.append_nil, htidy.map_reset]

/-- Taking hold of a page adds none to the stock, unless the heap serves one. -/
theorem stock_acquire (minLines : Nat) (area : CodeArea) :
    (stateAfter (acquire minLines area)).stock.Perm area.stock ∨
      ∃ page heap, area.code.takeOpen minLines = none ∧ area.env.pool.take minLines = none ∧
        CodePage.allocate area.env.config minLines (UInt32.ofNat area.env.pagesAsked) area.env.heap =
          (some page, heap) ∧
        (stateAfter (acquire minLines area)).stock = area.stock ++ [page.reset] := by
  have hcases := acquired minLines area
  generalize acquire minLines area = result at hcases ⊢
  cases hcases with
  | @opened id code htake =>
    have htaken := stock_of_sameCode area.env (CodeStore.sameCode_takeOpen htake)
    have hheld := stock_of_sameCode area.env (CodeStore.sameCode_hold code id)
    exact .inl (.of_eq (hheld.trans htaken))
  | @pooled page pool hopen htake =>
    refine .inl ?_
    have hmoved := ((PagePool.perm_of_take htake).append_right area.code.pages.toList).map CodePage.reset
    change (stock (adopt _ page)).Perm area.stock
    rw [stock_adopt]
    exact (List.perm_append_singleton _ _).trans hmoved.symm
  | @served page heap hopen hpool halloc => exact .inr ⟨page, heap, hopen, hpool, halloc, stock_adopt _ page⟩
  | refused hopen hpool halloc => exact .inl (.refl _)

/-- A machine without code takes hold of a blank page with the room that it asks for. -/
theorem adopted_of_acquire {env : Environment} (htidy : env.pool.Tidy) {minLines id : Nat} {area : CodeArea}
    (h : acquire minLines ⟨env, {}⟩ = .ok id area) :
    ∃ env' page, id = 0 ∧ area = adopt ⟨env', {}⟩ page ∧ page.Blank ∧ minLines ≤ page.freeLines := by
  have hcases := acquired minLines ⟨env, {}⟩
  rw [h] at hcases
  cases hcases with
  | opened htake => cases htake
  | pooled hopen htake =>
    exact ⟨_, _, rfl, rfl, (htidy.take htake).1, PagePool.le_freeLines_of_take htake⟩
  | served hopen hpool halloc =>
    exact ⟨_, _, rfl, rfl, (CodePage.allocate_eq_some halloc).1, CodePage.le_freeLines_of_allocate halloc⟩

theorem stocks_acquire (minLines : Nat) : Keeps Stocks (acquire minLines) := by
  intro area
  rcases stock_acquire minLines area with hperm | ⟨page, heap, -, -, -, hstock⟩
  · exact hperm.symm.subperm
  · unfold Stocks
    rw [hstock]
    exact (List.sublist_append_left _ _).subperm

theorem stocks_of_eq {area area' : CodeArea} (h : area'.stock = area.stock) : Stocks area area' := by
  unfold Stocks
  rw [h]

/-- No answer to a compiler or an executor takes a page out of the stock. -/
theorem stocks_closed : ExecClosed Stocks where
  refl _ := .refl _
  trans := .trans
  acquire := stocks_acquire
  release area page := stocks_of_eq (area.stock_release page)
  emit hemit := stocks_of_eq (stock_of_code _ (CodeStore.map_emit CodePage.reset (fun _ _ => rfl) hemit))
  patch hpatch := stocks_of_eq (stock_of_code _ (CodeStore.map_patch CodePage.reset (fun _ _ => rfl) hpatch))
  note _ _ := .refl _
  grow _ _ _ := .refl _
  yields _ _ := .refl _

end CodeArea

/-! ## Scratch machines -/

/-- The stock of a machine that is disposed of is in the pool. -/
theorem Machine.pool_dispose {machine : Machine} {env : Environment} {places : Multiset Workplace}
    (hsound : Engine.Sound ⟨env, ⟨machine.code, []⟩ ::ₘ places⟩) :
    (machine.dispose env).pool.batches.flatten.Perm (CodeArea.stock ⟨env, machine.code⟩) := by
  obtain ⟨opens, fulls, hlaid⟩ := hsound.laid _ (Multiset.mem_cons_self ..)
  have htidy : env.pool.Tidy := hsound.tidy
  rw [(machine.samePages_dispose env).pool]
  change (env.pool.add machine.code.drain).batches.flatten.Perm _
  rw [PagePool.flatten_add]
  unfold CodeArea.stock CodeArea.pages
  rw [List.map_append, htidy.map_reset]
  exact (hlaid.drain_perm.append_right _).trans List.perm_append_comm

namespace Environment

variable {env : Environment} {places : Multiset Workplace}

/-- Either there is no scratch machine and nothing changes, or the pool ends as the stock of the scratch machine, which
starts with the pages of the pool and no code. -/
theorem stocked_constValue (module : Module) (expr : List UInt8) (type : ValType)
    (hsound : Engine.Sound ⟨env, places⟩) :
    stateAfter (constValue module expr type env) = env ∨
      ∃ state : MachineState, state.machine.code = {} ∧ env.SamePages state.env ∧ state.env.heap = env.heap ∧
        (stateAfter (constValue module expr type env)).pool.batches.flatten.Perm
          (stateAfter (Machine.evaluate module expr type state)).area.stock := by
  rcases evaluated module expr type env with hunchanged | ⟨scratch, created, hcreate, hafter⟩
  · exact .inl hunchanged
  · obtain ⟨hcode, -, hsame⟩ := Machine.create_eq_ok hcreate
    have hstart : Engine.Sound ⟨created, ⟨scratch.code, []⟩ ::ₘ places⟩ := by
      rw [hcode]
      exact (hsound.step (.tend _ hsame)).step (.arrive _ _)
    have hend := hstart.reaches (Machine.evaluate_travels module expr type ⟨created, scratch⟩ [] places)
    refine .inr ⟨⟨created, scratch⟩, hcode, hsame, (Machine.create_memory hcreate).2, ?_⟩
    rw [hafter]
    exact Machine.pool_dispose hend

/-- No page leaves the pool for good. -/
theorem pool_constValue (module : Module) (expr : List UInt8) (type : ValType)
    (hsound : Engine.Sound ⟨env, places⟩) :
    env.pool.batches.flatten.Subperm (stateAfter (constValue module expr type env)).pool.batches.flatten := by
  rcases stocked_constValue module expr type hsound with hunchanged | ⟨state, hcode, hsame, -, hperm⟩
  · rw [hunchanged]
  · have hstocks := CodeArea.stocks_closed.evaluate module expr type state
    have htidy : state.env.pool.Tidy := hsame.pool ▸ hsound.tidy
    have hstock : state.area.stock = env.pool.batches.flatten := by
      unfold MachineState.area
      rw [hcode, CodeArea.stock_empty htidy, hsame.pool]
    rw [← hstock]
    exact hstocks.trans hperm.symm.subperm

end Environment

end WasmEngine
