import WasmEngine.Proofs.Machine.FailedLoad
import WasmEngine.Proofs.Machine.Filling
import WasmEngine.Proofs.Module.Fresh

/-!
# Element segments and the table

An element segment says from which slot of the table on it puts how many functions. Whatever bytes segments are read
from, and wherever reading them stops, the table holds functions of the module only.
-/

namespace WasmEngine

/-- Every filled slot of the table holds a function of the module. -/
def Module.TableInBounds (module : Module) : Prop :=
  ∀ slot function : Nat, module.table[slot]?.join = some function → function < module.functions.size

theorem Module.tableInBounds_of_empty {module : Module} (h : module.table = #[]) : module.TableInBounds := by
  intro slot function hslot
  simp [h] at hslot

namespace Loading

/-- The module gets a table that is at least so long. -/
def extended (state : Loading) (size : Nat) : Loading :=
  { state with module := { state.module with table := LoadM.extendTable state.module.table size } }

theorem inBounds_extended {state : Loading} (h : state.module.TableInBounds) (size : Nat) :
    (state.extended size).module.TableInBounds := by
  intro slot function hslot
  apply h slot function
  rw [← FillStep.join_extendTable state.module.table size]
  exact hslot

/-- Slots from `first` up to `stop` are filled with functions of the module. -/
structure Fills (first stop : Nat) (state state' : Loading) : Prop where
  functions : state'.module.functions = state.module.functions
  size : state'.module.table.size = state.module.table.size
  outside : ∀ slot : Nat, slot < first ∨ stop ≤ slot → state'.module.table[slot]? = state.module.table[slot]?
  filled : ∀ slot function : Nat, state'.module.table[slot]?.join = some function →
    state.module.table[slot]?.join = some function ∨ function < state.module.functions.size

namespace Fills

variable {first stop : Nat} {state state' : Loading}

theorem of_module (h : state'.module = state.module) : Fills first stop state state' := by
  refine ⟨by rw [h], by rw [h], fun _ _ => by rw [h], fun _ _ hslot => .inl ?_⟩
  rwa [h] at hslot

instance : Std.Refl (Fills first stop) where
  refl _ := of_module rfl

instance : IsTrans Loading (Fills first stop) where
  trans state between state' h h' := by
    refine ⟨h'.functions.trans h.functions, h'.size.trans h.size, fun slot hslot => ?_, fun slot function hslot => ?_⟩
    · rw [h'.outside slot hslot, h.outside slot hslot]
    · rcases h'.filled slot function hslot with hbetween | hlt
      · exact h.filled slot function hbetween
      · rw [h.functions] at hlt
        exact .inr hlt

/-- A slot in the range gets a function of the module. -/
theorem setSlot {slot function : Nat} (hfirst : first ≤ slot) (hstop : slot < stop)
    (hfunction : function < state.module.functions.size) :
    Fills first stop state
      { state with
        module := { state.module with table := state.module.table.setIfInBounds slot (some function) } } := by
  refine ⟨rfl, Array.size_setIfInBounds, fun other hother => ?_, fun other found hfound => ?_⟩
  · exact Array.getElem?_setIfInBounds_ne (by omega)
  · rw [Array.getElem?_setIfInBounds] at hfound
    split at hfound
    · split at hfound
      · cases hfound
        exact .inr hfunction
      · cases hfound
    · exact .inl hfound

theorem inBounds (h : Fills first stop state state') (hbounds : state.module.TableInBounds) :
    state'.module.TableInBounds := by
  intro slot function hslot
  rw [h.functions]
  rcases h.filled slot function hslot with hbefore | hlt
  · exact hbounds slot function hbefore
  · exact hlt

end Fills

/-- What a module is loaded with: its functions, its element segments and its table. -/
def elements (state : Loading) : Array Func × ElementState :=
  (state.module.functions, state.module.elements)

end Loading

namespace LoadM

open Loading

variable {state state' : Loading} {offset count : UInt32}

/-! ## One segment -/

theorem fills_read {α : Type} {first stop : Nat} (program : Read α) : Keeps (Fills first stop) (read program) := by
  intro state
  unfold read
  split <;> exact .of_module rfl

theorem fills_fillSlots {first stop : Nat} (slot count : Nat) (hfirst : first ≤ slot) (hstop : slot + count ≤ stop) :
    Keeps (Fills first stop) (fillSlots slot count) := by
  induction count generalizing slot with
  | zero => exact .pure _
  | succ count ih =>
    refine .bind (fills_read _) fun function => ?_
    intro state
    rw [run_get_bind]
    split
    · exact Std.Refl.refl state
    · -- The check is what keeps the table in bounds.
      rename_i hfunction
      have hset := Fills.setSlot hfirst (show slot < stop by omega) (Nat.lt_of_not_ge hfunction)
      exact IsTrans.trans _ _ _ hset (ih (slot + 1) (by omega) (by omega) _)

/-- Reading functions into slots does not fail as reading the range of a segment does. -/
theorem confines_fillSlots (slot count : Nat) :
    Confines (fun _ => True) (· ≠ .tableOverflow) (fillSlots slot count) := by
  induction count generalizing slot with
  | zero => exact .pure _
  | succ count ih =>
    refine .bind (confines_read (fun _ _ => id) fun reader error herror => ?_) fun function =>
      .bind .get fun state => ?_
    · obtain ⟨fault, rfl⟩ := Reader.varU32_error herror
      cases fault <;> exact nofun
    · dsimp only
      split
      · exact .throw nofun
      · exact .bind (.modify fun _ => id) fun _ => ih (slot + 1)

/-- The end of a segment comes after the start unless there are no slots or too many. -/
theorem stop_le_iff (offset count : UInt32) :
    offset + count ≤ offset ↔ count = 0 ∨ 2 ^ 32 ≤ offset.toNat + count.toNat := by
  have hoffset := offset.toNat_lt
  have hcount := count.toNat_lt
  rw [UInt32.le_iff_toNat_le, UInt32.toNat_add, ← UInt32.toNat_inj, UInt32.toNat_zero]
  omega

section Body

theorem segmentBody_of_overflow (h : count = 0 ∨ 2 ^ 32 ≤ offset.toNat + count.toNat) (state : Loading) :
    segmentBody offset count state = .error .tableOverflow state := by
  unfold segmentBody
  dsimp only
  rw [if_pos ((stop_le_iff offset count).2 h)]
  rfl

variable (h : ¬(count = 0 ∨ 2 ^ 32 ≤ offset.toNat + count.toNat))

include h

/-- A segment that ends within 32 bits ends where it should. -/
theorem toNat_stop : (offset + count).toNat = offset.toNat + count.toNat := by
  rw [UInt32.toNat_add]
  omega

theorem segmentBody_of_unbacked (hbacks : state.env.backs ((offset.toNat + count.toNat) * tableSlotSize) = false) :
    segmentBody offset count state = .error .outOfMemory state := by
  unfold segmentBody
  dsimp only
  rw [if_neg (mt (stop_le_iff offset count).1 h), toNat_stop h]
  apply run_bind_of_error
  unfold reserveTable
  rw [run_get_bind, hbacks]
  rfl

theorem segmentBody_of_backed (hbacks : state.env.backs ((offset.toNat + count.toNat) * tableSlotSize) = true) :
    segmentBody offset count state =
      fillSlots offset.toNat count.toNat (state.extended (offset.toNat + count.toNat)) := by
  have hreserved : reserveTable (offset.toNat + count.toNat) state = .ok () state := by
    unfold reserveTable
    rw [run_get_bind, hbacks]
    rfl
  unfold segmentBody
  dsimp only
  rw [if_neg (mt (stop_le_iff offset count).1 h), toNat_stop h, run_bind_of_ok hreserved, Nat.add_sub_cancel_left]
  rfl

/-- The slots of a segment are slots of the table, and no others are written. -/
theorem segmentBody_fills (hbacks : state.env.backs ((offset.toNat + count.toNat) * tableSlotSize) = true) :
    Fills offset.toNat (offset.toNat + count.toNat) (state.extended (offset.toNat + count.toNat))
      (stateAfter (segmentBody offset count state)) := by
  rw [segmentBody_of_backed h hbacks]
  exact fills_fillSlots _ _ (Nat.le_refl _) (Nat.le_refl _) _

end Body

/-- A segment without slots, or one that does not end within 32 bits, is refused, and no other. -/
theorem segmentBody_overflow_iff (offset count : UInt32) (state : Loading) :
    resultOf (segmentBody offset count state) = .error .tableOverflow ↔
      count = 0 ∨ 2 ^ 32 ≤ offset.toNat + count.toNat := by
  constructor
  · intro hresult
    by_contra h
    cases hbacks : state.env.backs ((offset.toNat + count.toNat) * tableSlotSize) with
    | false =>
      rw [segmentBody_of_unbacked h hbacks] at hresult
      cases hresult
    | true =>
      rw [segmentBody_of_backed h hbacks] at hresult
      exact (confines_fillSlots _ _ _ trivial).2 _ hresult rfl
  · intro h
    rw [segmentBody_of_overflow h]
    rfl

/-! ## All that is done before the module is linked -/

theorem leaves_constValue (expr : List UInt8) (type : ValType) : Keeps (Leaves elements) (constValue expr type) := by
  intro state
  unfold constValue
  split <;> rfl

theorem leaves_read {α : Type} (program : Read α) : Keeps (Leaves elements) (read program) := by
  intro state
  unfold read
  split <;> rfl

theorem leaves_sizeMemory : Keeps (Leaves elements) sizeMemory := by
  intro state
  unfold sizeMemory
  split
  · rfl
  · dsimp only
    split <;> rfl

theorem leaves_setGlobal (index : Nat) : Keeps (Leaves elements) (setGlobal index) := by
  refine .bind .get fun state => ?_
  split
  · exact .pure _
  · split
    · exact .pure _
    · exact .bind (leaves_constValue _ _) fun (slot, _) => .modify fun _ => rfl

theorem leaves_copySegment (segment : DataSegment) : Keeps (Leaves elements) (copySegment segment) := by
  refine .bind (leaves_constValue _ _) fun (slot, _) => ?_
  intro state
  dsimp only
  rw [run_get_bind]
  split
  · rfl
  · split
    · rfl
    · cases state.memory.write slot.toNat segment.bytes <;> rfl

/-- Sizing the memory, setting the globals and copying the data segments leave the table alone. -/
theorem leaves_setUp : Keeps (Leaves elements) (do sizeMemory; setGlobals; copySegments) := by
  refine .bind leaves_sizeMemory fun _ => ?_
  refine .bind (.bind .get fun _ => .forM _ leaves_setGlobal) fun _ => ?_
  exact .bind .get fun _ => .forM _ leaves_copySegment

theorem leaves_segmentHead : Keeps (Leaves elements) segmentHead := by
  refine .bind (leaves_read _) fun index => ?_
  dsimp only
  split
  · exact .throw _
  · refine .bind .get fun state => .bind (leaves_constValue _ _) fun (slot, length) => ?_
    exact .bind (leaves_read _) fun _ => .bind (leaves_read _) fun count => .pure _

/-- The table holds functions of the module. -/
abbrev Bounded (state : Loading) : Prop :=
  state.module.TableInBounds

theorem bounded_of_leaves {α : Type} {program : LoadM α} (h : Keeps (Leaves elements) program) :
    Keeps (Preserves Bounded) program := by
  intro state hbounded
  obtain ⟨hfunctions, helements⟩ := Prod.ext_iff.1 (h state)
  have htable : (stateAfter (program state)).module.table = state.module.table := congrArg ElementState.table helements
  intro slot function hslot
  rw [htable] at hslot
  have hlt := hbounded slot function hslot
  rwa [← show (stateAfter (program state)).module.functions = state.module.functions from hfunctions] at hlt

theorem bounded_segmentBody (offset count : UInt32) : Keeps (Preserves Bounded) (segmentBody offset count) := by
  intro state hbounded
  by_cases h : count = 0 ∨ 2 ^ 32 ≤ offset.toNat + count.toNat
  · rw [segmentBody_of_overflow h]
    exact hbounded
  · cases hbacks : state.env.backs ((offset.toNat + count.toNat) * tableSlotSize) with
    | false =>
      rw [segmentBody_of_unbacked h hbacks]
      exact hbounded
    | true => exact (segmentBody_fills h hbacks).inBounds (inBounds_extended hbounded _)

theorem bounded_elementSegments (count : Nat) : Keeps (Preserves Bounded) (elementSegments count) := by
  induction count with
  | zero => exact .pure _
  | succ count ih =>
    refine .bind ?_ fun _ => ih
    exact .bind (bounded_of_leaves leaves_segmentHead) fun (offset, count) => bounded_segmentBody offset count

/-! ## The segments one after the other -/

/-- Everything that is done before the element segment at an index. -/
def upTo (index : Nat) : LoadM Unit := do
  (do sizeMemory; setGlobals; copySegments)
  modify fun state => { state with input := .ofBytes state.module.elementBytes }
  elementSegments index

theorem elementSegments_add (first second : Nat) :
    elementSegments (first + second) = (do elementSegments first; elementSegments second) := by
  induction first with
  | zero =>
    rw [Nat.zero_add]
    exact (pure_bind _ _).symm
  | succ first ih =>
    rw [Nat.succ_add, elementSegments, elementSegments, ih, bind_assoc]

/-- A module is prepared up to its last element segment. -/
theorem prepare_eq_upTo (state : Loading) : prepare state = upTo state.module.elementCount state := by
  have hprepare : prepare = (do (do sizeMemory; setGlobals; copySegments); fillTable) := by
    unfold prepare
    simp only [bind_assoc]
  rw [hprepare]
  have hleaves := leaves_setUp state
  unfold upTo
  cases hsetUp : (do sizeMemory; setGlobals; copySegments : LoadM Unit) state with
  | error error after => rw [run_bind_of_error hsetUp, run_bind_of_error hsetUp]
  | ok done after =>
    rw [hsetUp] at hleaves
    have hcount : after.module.elementCount = state.module.elementCount :=
      congrArg (fun elements => elements.2.count) hleaves
    rw [run_bind_of_ok hsetUp, run_bind_of_ok hsetUp, ← hcount]
    rfl

/-- Wherever loading stops, the table holds functions of the module only. -/
theorem bounded_prepare : Keeps (Preserves Bounded) prepare := by
  intro state hbounded
  rw [prepare_eq_upTo]
  have hupTo (index : Nat) : Keeps (Preserves Bounded) (upTo index) := by
    refine .bind (bounded_of_leaves leaves_setUp) fun _ => ?_
    exact .bind (.modify fun _ hbounded => hbounded) fun _ => bounded_elementSegments index
  exact hupTo _ state hbounded

theorem upTo_add (first second : Nat) : upTo (first + second) = (do upTo first; elementSegments second) := by
  unfold upTo
  rw [elementSegments_add]
  simp only [bind_assoc]

/-- Loading fails with the first element segment that fails. -/
theorem prepare_of_error {between after : Loading} {index : Nat} {error : Error}
    (hbetween : upTo index state = .ok () between) (hindex : index < state.module.elementCount)
    (h : elementSegment between = .error error after) : prepare state = .error error after := by
  obtain ⟨rest, hcount⟩ := Nat.exists_eq_add_of_lt hindex
  rw [prepare_eq_upTo, hcount, Nat.add_assoc, upTo_add, run_bind_of_ok hbetween]
  exact run_bind_of_error h

end LoadM

end WasmEngine
