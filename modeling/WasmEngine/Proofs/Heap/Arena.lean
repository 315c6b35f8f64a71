import Mathlib.Algebra.GroupWithZero.Nat
import Mathlib.Algebra.Order.BigOperators.Group.List
import Mathlib.Algebra.Order.Group.Nat
import Mathlib.Data.Finset.Union
import Mathlib.Data.List.Perm.Basic
import Mathlib.Order.Interval.Finset.Nat
import WasmEngine.Heap

/-!
# Blocks of an arena do not overlap

`Arena.Tenancy` is an arena with the blocks that its clients have, and `Arena.Sound` says how they fit: the blocks
stand one after another below the top. Blocks without bytes may coincide.
-/

namespace WasmEngine

theorem le_roundUp {step : Nat} (hstep : 0 < step) (value : Nat) : value ≤ roundUp value step := by
  have hsplit := Nat.div_add_mod' (value + step - 1) step
  have hrest := Nat.mod_lt (value + step - 1) hstep
  unfold roundUp
  omega

theorem dvd_roundUp (value step : Nat) : step ∣ roundUp value step :=
  Nat.dvd_mul_left ..

namespace Block

/-- The first place behind a block. -/
def stop (block : Block) : Nat :=
  block.offset + block.len

/-- The places of the bytes of a block. -/
def places (block : Block) : Finset Nat :=
  Finset.Ico block.offset block.stop

/-- One of two blocks ends before the other one starts. -/
def Apart (first second : Block) : Prop :=
  first.stop ≤ second.offset ∨ second.stop ≤ first.offset

theorem Apart.symm {first second : Block} (h : Apart first second) : Apart second first :=
  Or.symm h

theorem Apart.disjoint {first second : Block} (h : Apart first second) : Disjoint first.places second.places := by
  rw [Finset.disjoint_left]
  intro place hfirst hsecond
  obtain ⟨hge, hlt⟩ := Finset.mem_Ico.1 hfirst
  obtain ⟨hge', hlt'⟩ := Finset.mem_Ico.1 hsecond
  rcases h with h | h <;> omega

/-- Blocks that do not overlap have as many bytes as they have places. -/
theorem card_places {blocks : List Block} (h : blocks.Pairwise Apart) :
    (blocks.toFinset.biUnion places).card = (blocks.map len).sum := by
  induction blocks with
  | nil => rfl
  | cons block blocks ih =>
    obtain ⟨hblock, hblocks⟩ := List.pairwise_cons.1 h
    have hdisjoint : Disjoint block.places (blocks.toFinset.biUnion places) := by
      rw [Finset.disjoint_biUnion_right]
      exact fun other hother => (hblock other (List.mem_toFinset.1 hother)).disjoint
    have hcard : block.places.card = block.len := by
      simp [places, stop]
    rw [List.toFinset_cons, Finset.biUnion_insert, Finset.card_union_of_disjoint hdisjoint, hcard, ih hblocks,
      List.map_cons, List.sum_cons]

/-- Blocks that do not overlap have no more bytes than there are places below a bound of theirs. -/
theorem sum_len_le {blocks : List Block} {bound : Nat} (h : blocks.Pairwise Apart)
    (hbound : ∀ block ∈ blocks, block.stop ≤ bound) : (blocks.map len).sum ≤ bound := by
  rw [← card_places h, ← Finset.card_range bound]
  refine Finset.card_le_card (Finset.biUnion_subset.2 fun block hblock place hplace => ?_)
  have hstop := hbound block (List.mem_toFinset.1 hblock)
  exact Finset.mem_range.2 (Nat.lt_of_lt_of_le (Finset.mem_Ico.1 hplace).2 hstop)

end Block

namespace Arena

variable {capacity align : Nat} {arena arena' : Arena} {block : Block} {live rest : List Block} {len : Nat}

/-- The blocks that clients have fit the state of an arena with a given size and alignment. -/
structure Sound (capacity align : Nat) (arena : Arena) (live : List Block) : Prop where
  capacity_eq : arena.capacity = capacity
  align_eq : arena.align = align
  align_pos : 0 < align
  top_le : arena.top ≤ capacity
  dvd_top : align ∣ arena.top
  dvd_offset : ∀ block ∈ live, align ∣ block.offset
  stop_le : ∀ block ∈ live, block.stop ≤ arena.top
  apart : live.Pairwise Block.Apart
  inUse : arena.inUse = (live.map Block.len).sum
  /-- The block handed out last is one that a client has, and the others end before it. -/
  last : ∀ block, arena.last = some block →
    ∃ others, live.Perm (block :: others) ∧ ∀ other ∈ others, other.stop ≤ block.offset

/-- Resizing the last block is taking it back and handing out another one in its place. -/
theorem reallocate_last (hlast : arena.last = some block) :
    arena.reallocate block len = (arena.free block).allocate len := by
  simp only [reallocate, Arena.allocate, Arena.free, if_pos hlast]
  rfl

/-- Resizing any other block is handing out another one at the top and then taking it back. -/
theorem reallocate_moved {moved : Block} (hlast : arena.last ≠ some block)
    (hserved : arena.reallocate block len = some (moved, arena')) :
    ∃ between, arena.allocate len = some (moved, between) ∧ arena' = between.free block := by
  simp only [reallocate, if_neg hlast] at hserved
  split at hserved
  · cases hserved
  rename_i between hmoved
  cases hserved
  exact ⟨between, hmoved, rfl⟩

/-- Only a block that would end behind the arena is not handed out. -/
theorem allocate_eq_none (hrefused : arena.allocate len = none) :
    arena.capacity < roundUp (arena.top + len) arena.align := by
  simp only [Arena.allocate, endOf?] at hrefused
  split at hrefused
  · rename_i hstop
    simpa using hstop
  · cases hrefused

/-- The same of a block that is resized: the last one in place, any other one at the top. -/
theorem reallocate_eq_none (hrefused : arena.reallocate block len = none) :
    arena.capacity <
      roundUp ((if arena.last = some block then block.offset else arena.top) + len) arena.align := by
  by_cases hlast : arena.last = some block
  · rw [if_pos hlast]
    simp only [Arena.reallocate, if_pos hlast, endOf?] at hrefused
    split at hrefused
    · rename_i hstop
      simpa using hstop
    · cases hrefused
  · rw [if_neg hlast]
    simp only [Arena.reallocate, if_neg hlast] at hrefused
    split at hrefused
    · rename_i hmoved
      exact allocate_eq_none hmoved
    · cases hrefused

theorem inUse_allocate (hserved : arena.allocate len = some (block, arena')) :
    arena'.inUse = arena.inUse + len := by
  unfold Arena.allocate at hserved
  split at hserved
  · cases hserved
  · cases hserved
    rfl

theorem len_allocate (hserved : arena.allocate len = some (block, arena')) : block.len = len := by
  unfold Arena.allocate at hserved
  split at hserved
  · cases hserved
  · cases hserved
    rfl

theorem inUse_free (arena : Arena) (block : Block) : (arena.free block).inUse = arena.inUse - block.len := by
  unfold Arena.free
  dsimp only
  split <;> rfl

namespace Sound

/-- The order of the blocks does not matter. -/
theorem perm (h : Sound capacity align arena live) {live' : List Block} (hperm : live.Perm live') :
    Sound capacity align arena live' where
  capacity_eq := h.capacity_eq
  align_eq := h.align_eq
  align_pos := h.align_pos
  top_le := h.top_le
  dvd_top := h.dvd_top
  dvd_offset block hblock := h.dvd_offset block (hperm.mem_iff.2 hblock)
  stop_le block hblock := h.stop_le block (hperm.mem_iff.2 hblock)
  apart := hperm.pairwise h.apart Block.Apart.symm
  inUse := h.inUse.trans (hperm.map Block.len).sum_eq
  last block hlast :=
    have ⟨others, hothers, hstop⟩ := h.last block hlast
    ⟨others, hperm.symm.trans hothers, hstop⟩

theorem inUse_le (h : Sound capacity align arena live) : arena.inUse ≤ capacity :=
  (h.inUse ▸ Block.sum_len_le h.apart h.stop_le).trans h.top_le

theorem len_le_inUse (h : Sound capacity align arena live) (hblock : block ∈ live) : block.len ≤ arena.inUse :=
  h.inUse ▸ List.single_le_sum (fun _ _ => Nat.zero_le _) _ (List.mem_map_of_mem hblock)

/-- Nothing was handed out yet. -/
theorem of_new (h : ofAlign? capacity align = .ok arena) : Sound capacity align arena [] := by
  unfold ofAlign? at h
  split at h
  · rename_i hpower
    cases h
    have hpositive : 0 < align := by
      rw [of_decide_eq_true hpower]
      exact Nat.two_pow_pos _
    exact ⟨rfl, rfl, hpositive, Nat.zero_le _, Nat.dvd_zero _, by simp, by simp, .nil, rfl, by simp⟩
  · cases h

/-- Handing out a block at the top. -/
theorem allocate (h : Sound capacity align arena live)
    (hserved : arena.allocate len = some (block, arena')) : Sound capacity align arena' (block :: live) := by
  simp only [Arena.allocate, endOf?, h.capacity_eq, h.align_eq] at hserved
  split at hserved
  · cases hserved
  rename_i stop hstop
  cases hserved
  obtain ⟨hfits, hstop⟩ := Option.ite_none_right_eq_some.1 hstop
  cases hstop
  have hle : arena.top + len ≤ roundUp (arena.top + len) align := le_roundUp h.align_pos _
  refine ⟨rfl, rfl, h.align_pos, hfits, dvd_roundUp _ _, ?_, ?_, ?_, ?_, ?_⟩
  · exact List.forall_mem_cons.2 ⟨h.dvd_top, h.dvd_offset⟩
  · refine List.forall_mem_cons.2 ⟨hle, fun other hother => ?_⟩
    exact (h.stop_le other hother).trans ((Nat.le_add_right _ _).trans hle)
  · exact List.pairwise_cons.2 ⟨fun other hother => .inr (h.stop_le other hother), h.apart⟩
  · simp only [List.map_cons, List.sum_cons, h.inUse]
    omega
  · intro last hlast
    cases hlast
    exact ⟨live, .refl _, h.stop_le⟩

/-- Taking back a block that a client has. -/
theorem free (h : Sound capacity align arena (block :: rest)) : Sound capacity align (arena.free block) rest := by
  obtain ⟨-, hapart⟩ := List.pairwise_cons.1 h.apart
  obtain ⟨hdvd, hoffsets⟩ := List.forall_mem_cons.1 h.dvd_offset
  obtain ⟨hstop, hstops⟩ := List.forall_mem_cons.1 h.stop_le
  have hinUse : arena.inUse - block.len = (rest.map Block.len).sum := by
    rw [h.inUse, List.map_cons, List.sum_cons]
    omega
  unfold Arena.free
  by_cases hlast : arena.last = some block
  · obtain ⟨others, hothers, hbefore⟩ := h.last block hlast
    simp only [if_pos hlast]
    have hle : block.offset ≤ capacity := (Nat.le_add_right ..).trans (hstop.trans h.top_le)
    refine ⟨h.capacity_eq, h.align_eq, h.align_pos, hle, hdvd, hoffsets, fun other hother => ?_, hapart, hinUse,
      by simp⟩
    exact hbefore other (hothers.cons_inv.mem_iff.1 hother)
  · simp only [if_neg hlast]
    refine ⟨h.capacity_eq, h.align_eq, h.align_pos, h.top_le, h.dvd_top, hoffsets, hstops, hapart, hinUse,
      fun last hsome => ?_⟩
    obtain ⟨others, hothers, hbefore⟩ := h.last last hsome
    have hne : last ≠ block := fun heq => hlast (heq ▸ hsome)
    have hmem : last ∈ rest := (List.mem_cons.1 (hothers.mem_iff.2 (List.mem_cons_self ..))).resolve_left hne
    have hsplit : others.Perm (block :: rest.erase last) := by
      refine List.Perm.cons_inv (a := last) (hothers.symm.trans ?_)
      exact ((List.perm_cons_erase hmem).cons block).trans (.swap ..)
    refine ⟨rest.erase last, List.perm_cons_erase hmem, fun other hother => ?_⟩
    exact hbefore other (hsplit.mem_iff.2 (List.mem_cons_of_mem _ hother))

/-- Resizing a block that a client has. -/
theorem reallocate (h : Sound capacity align arena (block :: rest)) {resized : Block}
    (hserved : arena.reallocate block len = some (resized, arena')) :
    Sound capacity align arena' (resized :: rest) := by
  by_cases hlast : arena.last = some block
  · rw [reallocate_last hlast] at hserved
    exact h.free.allocate hserved
  · obtain ⟨between, hmoved, rfl⟩ := reallocate_moved hlast hserved
    -- Both blocks are there for a moment.
    exact ((h.allocate hmoved).perm (.swap ..)).free

end Sound

/-- What the clients of an arena may ask for. Blocks go by their place among those of the clients. -/
inductive Request where
  | allocate (len : Nat)
  | reallocate (index len : Nat)
  | free (index : Nat)

/-- An arena and the blocks that its clients have. -/
structure Tenancy where
  arena : Arena
  live : List Block := []

namespace Tenancy

/-- Serves a request and gives the block that was handed out. -/
def serve (tenancy : Tenancy) : Request → Option Block × Tenancy
  | .allocate len =>
    match tenancy.arena.allocate len with
    | none => (none, tenancy)
    | some (block, arena) => (some block, ⟨arena, block :: tenancy.live⟩)
  | .reallocate index len =>
    match tenancy.live[index]? with
    | none => (none, tenancy)
    | some block =>
      match tenancy.arena.reallocate block len with
      | none => (none, tenancy)
      | some (resized, arena) => (some resized, ⟨arena, resized :: tenancy.live.eraseIdx index⟩)
  | .free index =>
    match tenancy.live[index]? with
    | none => (none, tenancy)
    | some block => (none, ⟨tenancy.arena.free block, tenancy.live.eraseIdx index⟩)

/-- Serves requests one after the other. -/
def serveAll (tenancy : Tenancy) (requests : List Request) : Tenancy :=
  requests.foldl (fun tenancy request => (tenancy.serve request).2) tenancy

variable {tenancy : Tenancy}

/-- The block at an index and the others. -/
theorem sound_split {index : Nat} (h : tenancy.arena.Sound capacity align tenancy.live)
    (hblock : tenancy.live[index]? = some block) :
    Sound capacity align tenancy.arena (block :: tenancy.live.eraseIdx index) := by
  obtain ⟨hindex, rfl⟩ := List.getElem?_eq_some_iff.1 hblock
  exact h.perm (List.getElem_cons_eraseIdx_perm hindex).symm

theorem sound_serve (h : Sound capacity align tenancy.arena tenancy.live) (request : Request) :
    Sound capacity align (tenancy.serve request).2.arena (tenancy.serve request).2.live := by
  cases request with
  | allocate len =>
    simp only [serve]
    cases hserved : tenancy.arena.allocate len with
    | none => exact h
    | some served => exact h.allocate hserved
  | reallocate index len =>
    simp only [serve]
    cases hblock : tenancy.live[index]? with
    | none => exact h
    | some block =>
      dsimp only
      cases hserved : tenancy.arena.reallocate block len with
      | none => exact h
      | some served => exact (sound_split h hblock).reallocate hserved
  | free index =>
    simp only [serve]
    cases hblock : tenancy.live[index]? with
    | none => exact h
    | some block => exact (sound_split h hblock).free

theorem sound_serveAll (h : Sound capacity align tenancy.arena tenancy.live) (requests : List Request) :
    Sound capacity align (tenancy.serveAll requests).arena (tenancy.serveAll requests).live := by
  induction requests generalizing tenancy with
  | nil => exact h
  | cons request requests ih => exact ih (sound_serve h request)

/-- The blocks that clients have do not overlap, lie below the top, and are aligned like it; the top does not pass the
end of the arena, and the bytes in use are those of the blocks. So no count of bytes passes the size of the arena, not
even while a block is moved. A request is refused only if the block would end behind the arena, and then nothing
changes. -/
theorem blocks_apart (h : ofAlign? capacity align = .ok arena) (requests : List Request) :
    let tenancy := serveAll ⟨arena, []⟩ requests
    tenancy.live.Pairwise (fun first second => Disjoint first.places second.places) ∧
    (∀ block ∈ tenancy.live, block.stop ≤ tenancy.arena.top ∧ align ∣ block.offset) ∧
    tenancy.arena.top ≤ capacity ∧ align ∣ tenancy.arena.top ∧
    tenancy.arena.inUse = (tenancy.live.map Block.len).sum ∧
    (∀ block ∈ tenancy.live, block.len ≤ tenancy.arena.inUse) ∧ tenancy.arena.inUse ≤ capacity ∧
    (∀ len block next, tenancy.arena.allocate len = some (block, next) →
      next.inUse = tenancy.arena.inUse + len ∧ next.inUse ≤ capacity) ∧
    (∀ len, (tenancy.serve (.allocate len)).1 = none →
      capacity < roundUp (tenancy.arena.top + len) align ∧ (tenancy.serve (.allocate len)).2 = tenancy) ∧
    ∀ index block len, tenancy.live[index]? = some block → (tenancy.serve (.reallocate index len)).1 = none →
      capacity < roundUp ((if tenancy.arena.last = some block then block.offset else tenancy.arena.top) + len) align ∧
        (tenancy.serve (.reallocate index len)).2 = tenancy := by
  intro tenancy
  have hsound : tenancy.arena.Sound capacity align tenancy.live := sound_serveAll (.of_new h) requests
  refine ⟨hsound.apart.imp Block.Apart.disjoint, fun block hblock => ⟨hsound.stop_le block hblock,
    hsound.dvd_offset block hblock⟩, hsound.top_le, hsound.dvd_top, hsound.inUse,
    fun block hblock => hsound.len_le_inUse hblock, hsound.inUse_le, fun len block next hserved =>
      ⟨inUse_allocate hserved, (hsound.allocate hserved).inUse_le⟩, fun len => ?_, fun index block len hblock => ?_⟩
  · simp only [serve, ← hsound.capacity_eq, ← hsound.align_eq]
    cases hserved : tenancy.arena.allocate len with
    | none => exact fun _ => ⟨allocate_eq_none hserved, rfl⟩
    | some served => exact nofun
  · simp only [serve, hblock, ← hsound.capacity_eq, ← hsound.align_eq]
    cases hserved : tenancy.arena.reallocate block len with
    | none => exact fun _ => ⟨reallocate_eq_none hserved, rfl⟩
    | some served => exact nofun

/-- Two blocks without bytes coincide with each other and with the start of a third one. One of them is moved to get
bytes, and may not grow past the end of the arena. -/
theorem blocks_apart_moved :
    let tenancy := serveAll ⟨{ capacity := 64, align := 8 }, []⟩
      [.allocate 0, .allocate 0, .allocate 5, .reallocate 1 3]
    tenancy.live = [⟨8, 3⟩, ⟨0, 5⟩, ⟨0, 0⟩] ∧
      tenancy.live.Pairwise (fun first second => Disjoint first.places second.places) ∧
      tenancy.arena.inUse = 8 ∧ tenancy.arena.top = 16 ∧ 8 ∣ tenancy.arena.top ∧
      (tenancy.serve (.reallocate 0 57)).1 = none ∧ (tenancy.serve (.reallocate 0 57)).2 = tenancy := by
  intro tenancy
  obtain ⟨hdisjoint, -, -, haligned, -, -, -, -, -, hrefused⟩ :=
    blocks_apart (show ofAlign? 64 8 = .ok { capacity := 64, align := 8 } from rfl)
      [.allocate 0, .allocate 0, .allocate 5, .reallocate 1 3]
  have hlive : tenancy.live = [⟨8, 3⟩, ⟨0, 5⟩, ⟨0, 0⟩] := by decide
  have hnone : (tenancy.serve (.reallocate 0 57)).1 = none := by decide
  exact ⟨hlive, hdisjoint, by decide, by decide, haligned, hnone,
    (hrefused 0 ⟨8, 3⟩ 57 (congrArg (·[0]?) hlive) hnone).2⟩

end Tenancy

end Arena

end WasmEngine
