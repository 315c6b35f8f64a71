import Mathlib.Algebra.GroupWithZero.Nat
import Mathlib.Data.List.Perm.Basic
import WasmEngine.Code.Pool
import WasmEngine.Proofs.Code.Layout

/-!
# The pool keeps what it is given

Pages go into the pool in batches and come out one by one. Nothing else happens to them: the pages that are left
after a page is taken are the others, batches are never empty, and the count is the number of pages.
-/

namespace WasmEngine.PagePool

variable {pool pool' : PagePool} {page : CodePage} {batches left : List (List CodePage)} {minLines : Nat}

/-- The count is right, no batch is empty, and the pages are blank. -/
structure Tidy (pool : PagePool) : Prop where
  size : pool.size = (pool.batches.map List.length).sum
  nonempty : ∀ batch ∈ pool.batches, batch ≠ []
  blank : ∀ batch ∈ pool.batches, ∀ page ∈ batch, page.Blank

theorem Tidy.empty : Tidy {} where
  size := rfl
  nonempty := by simp
  blank := by simp

/-- Removing an element by putting the last one in its place leaves the others. -/
theorem perm_cons_swapRemove {α : Type} {items : List α} {index : Nat} {item : α} (h : items[index]? = some item) :
    items.Perm (item :: swapRemove items index) := by
  obtain ⟨hindex, hitem⟩ := List.getElem?_eq_some_iff.1 h
  obtain ⟨front, last, rfl⟩ : ∃ front last, items = front ++ [last] := by
    refine ⟨items.dropLast, items.getLast ?_, (List.dropLast_append_getLast _).symm⟩
    rintro rfl
    cases hindex
  rw [List.length_append, List.length_singleton] at hindex
  unfold swapRemove
  rw [List.getLast?_append_of_ne_nil _ (List.cons_ne_nil _ _)]
  simp only [List.getLast?_singleton]
  by_cases hlast : index = front.length
  · subst hlast
    simp only [List.getElem_concat_length] at hitem
    subst hitem
    simp
  · have hlt : index < front.length := by omega
    rw [List.getElem_append_left hlt] at hitem
    rw [List.set_append_left _ _ hlt, List.dropLast_concat]
    calc
      (front ++ [last]).Perm (last :: front) := List.perm_append_singleton last front
      _ |>.Perm (last :: item :: front.eraseIdx index) :=
        (hitem ▸ (List.getElem_cons_eraseIdx_perm hlt).symm).cons last
      _ |>.Perm (item :: last :: front.eraseIdx index) := .swap ..
      _ |>.Perm (item :: front.set index last) := ((List.set_perm_cons_eraseIdx hlt last).symm).cons item

/-- The place that is found is one of an element with the property. -/
theorem lastIndex?_eq_some {α : Type} {p : α → Bool} {items : List α} {index : Nat}
    (h : lastIndex? p items = some index) : ∃ item, items[index]? = some item ∧ p item = true := by
  induction items generalizing index with
  | nil => cases h
  | cons first items ih =>
    unfold lastIndex? at h
    cases hrest : lastIndex? p items with
    | some later =>
      rw [hrest] at h
      cases h
      exact ih hrest
    | none =>
      rw [hrest] at h
      dsimp only at h
      split at h
      · rename_i hfirst
        cases h
        exact ⟨first, rfl, hfirst⟩
      · cases h

theorem lastIndex?_eq_none {α : Type} {p : α → Bool} {items : List α} (h : lastIndex? p items = none) :
    ∀ item ∈ items, p item = false := by
  induction items with
  | nil => simp
  | cons first items ih =>
    unfold lastIndex? at h
    cases hrest : lastIndex? p items with
    | some later =>
      rw [hrest] at h
      cases h
    | none =>
      rw [hrest] at h
      dsimp only at h
      split at h
      · cases h
      · rename_i hfirst
        exact List.forall_mem_cons.2 ⟨Bool.eq_false_iff.2 hfirst, ih hrest⟩

/-- A page is taken out of the newest batch that has one with enough room. The others of that batch stay. -/
theorem takeFrom_eq_some (h : takeFrom minLines batches = some (page, left)) :
    ∃ newer batch older kept, batches = newer ++ batch :: older ∧
      (∀ other ∈ newer.flatten, other.freeLines < minLines) ∧ batch.Perm (page :: kept) ∧
      minLines ≤ page.freeLines ∧ left = newer ++ if kept.isEmpty then older else kept :: older := by
  induction batches generalizing left with
  | nil => cases h
  | cons batch older ih =>
    unfold takeFrom at h
    split at h
    · rename_i index hindex
      obtain ⟨found, hfound, hroom⟩ := lastIndex?_eq_some hindex
      rw [hfound] at h
      cases h
      exact ⟨[], batch, older, swapRemove batch index, rfl, by simp, perm_cons_swapRemove hfound,
        of_decide_eq_true hroom, rfl⟩
    · rename_i hindex
      split at h
      · rename_i older' hrest
        cases h
        obtain ⟨newer, found, rest, kept, rfl, hnewer, hperm, hroom, rfl⟩ := ih hrest
        refine ⟨batch :: newer, found, rest, kept, rfl, fun other hother => ?_, hperm, hroom, rfl⟩
        rcases List.mem_append.1 hother with hbatch | hlater
        · exact Nat.lt_of_not_le (of_decide_eq_false (lastIndex?_eq_none hindex other hbatch))
        · exact hnewer other hlater
      · cases h

/-- Taking a page leaves the other pages. -/
theorem perm_of_takeFrom
    (h : takeFrom minLines batches = some (page, left)) : batches.flatten.Perm (page :: left.flatten) := by
  obtain ⟨newer, batch, older, kept, rfl, -, hperm, -, rfl⟩ := takeFrom_eq_some h
  have hleft : (if kept.isEmpty then older else kept :: older).flatten = kept ++ older.flatten := by
    cases kept <;> rfl
  rw [List.flatten_append, List.flatten_append, hleft, List.flatten_cons]
  exact ((hperm.append_right older.flatten).append_left newer.flatten).trans List.perm_middle

/-- Taking a page out of batches that are not empty leaves batches that are not empty. -/
theorem nonempty_of_takeFrom
    (h : takeFrom minLines batches = some (page, left)) (hbatches : ∀ batch ∈ batches, batch ≠ []) :
    ∀ batch ∈ left, batch ≠ [] := by
  obtain ⟨newer, batch, older, kept, rfl, -, -, -, rfl⟩ := takeFrom_eq_some h
  intro other hother
  rcases List.mem_append.1 hother with hnewer | hrest
  · exact hbatches other (List.mem_append_left _ hnewer)
  · have holder (hmem : other ∈ older) : other ≠ [] :=
      hbatches other (List.mem_append_right _ (List.mem_cons_of_mem _ hmem))
    cases kept with
    | nil => exact holder hrest
    | cons first kept =>
      rcases List.mem_cons.1 hrest with rfl | hrest
      · exact List.cons_ne_nil _ _
      · exact holder hrest

theorem perm_of_take (h : pool.take minLines = some (page, pool')) :
    pool.batches.flatten.Perm (page :: pool'.batches.flatten) := by
  unfold PagePool.take at h
  split at h
  · rename_i batches htake
    cases h
    exact perm_of_takeFrom htake
  · cases h

theorem lt_of_takeFrom_eq_none
    (h : takeFrom minLines batches = none) : ∀ page ∈ batches.flatten, page.freeLines < minLines := by
  induction batches with
  | nil => simp
  | cons batch older ih =>
    unfold takeFrom at h
    split at h
    · rename_i index hindex
      obtain ⟨found, hfound, -⟩ := lastIndex?_eq_some hindex
      rw [hfound] at h
      cases h
    · rename_i hindex
      split at h
      · cases h
      · rename_i hrest
        intro page hpage
        rcases List.mem_append.1 hpage with hbatch | holder
        · exact Nat.lt_of_not_le (of_decide_eq_false (lastIndex?_eq_none hindex page hbatch))
        · exact ih hrest page holder

/-- A page that is taken has the room that was asked for. -/
theorem le_freeLines_of_take (h : pool.take minLines = some (page, pool')) :
    minLines ≤ page.freeLines := by
  unfold PagePool.take at h
  split at h
  · rename_i batches htake
    cases h
    obtain ⟨newer, batch, older, kept, -, -, -, hroom, -⟩ := takeFrom_eq_some htake
    exact hroom
  · cases h

/-- If none is taken, no page has that room. -/
theorem lt_of_take_eq_none (h : pool.take minLines = none) :
    ∀ page ∈ pool.batches.flatten, page.freeLines < minLines := by
  unfold PagePool.take at h
  split at h
  · cases h
  · rename_i htake
    exact lt_of_takeFrom_eq_none htake

/-- Taking a page out of a tidy pool gives a blank page and leaves a tidy pool with the others. -/
theorem Tidy.take (htidy : Tidy pool) (h : pool.take minLines = some (page, pool')) :
    page.Blank ∧ Tidy pool' ∧ pool.batches.flatten.Perm (page :: pool'.batches.flatten) := by
  unfold PagePool.take at h
  split at h
  · rename_i batches htake
    cases h
    have hperm := perm_of_takeFrom htake
    have hblank : ∀ other ∈ page :: batches.flatten, other.Blank := by
      intro other hother
      obtain ⟨batch, hbatch, hmem⟩ := List.mem_flatten.1 (hperm.mem_iff.2 hother)
      exact htidy.blank batch hbatch other hmem
    refine ⟨hblank page (List.mem_cons_self ..), ⟨?_, nonempty_of_takeFrom htake htidy.nonempty, ?_⟩, hperm⟩
    · have hlength := hperm.length_eq
      rw [List.length_cons, List.length_flatten, List.length_flatten] at hlength
      have hsize := htidy.size
      change pool.size - 1 = (batches.map List.length).sum
      omega
    · intro batch hbatch other hmem
      exact hblank other (List.mem_cons_of_mem _ (List.mem_flatten.2 ⟨batch, hbatch, hmem⟩))
  · cases h

/-- A batch of blank pages goes into a tidy pool as it is. -/
theorem Tidy.add (htidy : Tidy pool) {pages : List CodePage} (hblank : ∀ page ∈ pages, page.Blank) :
    Tidy (pool.add pages) := by
  unfold PagePool.add
  split
  · exact htidy
  · rename_i hempty
    refine ⟨?_, ?_, ?_⟩
    · simp only [List.map_cons, List.sum_cons, htidy.size]
      omega
    · intro batch hbatch
      rcases List.mem_cons.1 hbatch with rfl | hbatch
      · exact fun heq => hempty (List.isEmpty_iff.2 heq)
      · exact htidy.nonempty batch hbatch
    · intro batch hbatch
      rcases List.mem_cons.1 hbatch with rfl | hbatch
      · exact hblank
      · exact htidy.blank batch hbatch

theorem flatten_add (pool : PagePool) (pages : List CodePage) :
    (pool.add pages).batches.flatten = pages ++ pool.batches.flatten := by
  unfold PagePool.add
  split
  · rename_i hempty
    rw [List.isEmpty_iff.1 hempty, List.nil_append]
  · rfl

theorem size_add (pool : PagePool) (pages : List CodePage) : (pool.add pages).size = pool.size + pages.length := by
  unfold PagePool.add
  split
  · rename_i hempty
    rw [List.isEmpty_iff.1 hempty]
    rfl
  · rfl

end WasmEngine.PagePool
