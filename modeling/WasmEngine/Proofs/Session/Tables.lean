import WasmEngine.Proofs.Machine.Tables
import WasmEngine.Proofs.Session.Modules
import WasmEngine.Proofs.Session.Retry

/-!
# Tables of loaded modules

Whatever bytes element segments are read from, and wherever loading stops, tables hold functions of their modules only.
-/

namespace WasmEngine

/-- New modules have empty tables, loading keeps tables in bounds, and nothing else changes them. -/
theorem Module.lasting_tableInBounds : Module.Lasting Module.TableInBounds where
  built limit items registry := by
    apply Module.tableInBounds_of_empty
    have htable (items : List BuildItem) (state : ElementState) :
        (items.foldl (fun state item => item.addElements state) state).table = state.table := by
      induction items generalizing state with
      | nil => rfl
      | cons item items ih =>
        rw [List.foldl_cons, ih]
        cases item with
        | elements table offset functions =>
          simp only [BuildItem.addElements]
          split <;> rfl
        | _ => rfl
    have helements := (Draft.adds_addAll limit items ⟨registry, {}⟩).2.2
    exact (congrArg ElementState.table helements).trans (htable items _)
  decoded h := Module.tableInBounds_of_empty (Module.table_decode h)
  named _ _ h := h
  owned _ _ h := h
  coded module index entry := by
    unfold Module.TableInBounds Module.setCode Module.updateFunction
    rw [Array.size_modify]
  prepared := LoadM.bounded_prepare

namespace Session

open LoadM

/-- In every session every filled table slot holds a function of its module, also in modules that were handed back, and
after loading any module into any machine. When an element segment has been read up to its functions, loading fails
with an overflow of the table exactly if the segment has no slots or they do not end within 32 bits; otherwise the
table gets slots up to its end, if the system can back them, and all that is written is in the segment. -/
theorem tables_in_bounds (backing : Option Nat) (config : Config) (host : Host) (heap : Heap) (actions : List Action)
    (module : Module) (state : MachineState) :
    ((startWithin backing config host heap).performAll actions).All Module.TableInBounds ∧
    (module.TableInBounds → state.machine.All Module.TableInBounds →
      (Machine.load module state).2.machine.All Module.TableInBounds ∧
        ∀ error returned after, Machine.load module state = (.refused error returned, after) →
          returned.TableInBounds) ∧
    ∀ (index : Nat) (between head : Loading) (offset count : UInt32),
      upTo index (Machine.preparing module state) = .ok () between → segmentHead between = .ok (offset, count) head →
      let table := between.module.table
      let final := stateAfter (elementSegment between)
      (resultOf (elementSegment between) = .error .tableOverflow ↔
        count = 0 ∨ 2 ^ 32 ≤ offset.toNat + count.toNat) ∧
      (∀ error, resultOf (elementSegment between) = .error error → module.isLinked = false →
        index < module.elementCount →
        (Machine.load module state).1 = .refused error { final.module with owner := none }) ∧
      (¬(count = 0 ∨ 2 ^ 32 ≤ offset.toNat + count.toNat) →
        (head.env.backs ((offset.toNat + count.toNat) * tableSlotSize) = true →
          final.module.table.size = max table.size (offset.toNat + count.toNat) ∧
          ∀ slot : Nat, slot < offset.toNat ∨ offset.toNat + count.toNat ≤ slot →
            final.module.table[slot]?.join = table[slot]?.join) ∧
        (head.env.backs ((offset.toNat + count.toNat) * tableSlotSize) = false →
          elementSegment between = .error .outOfMemory head ∧ final.module.table = table)) := by
  refine ⟨(all_startWithin ..).performAll Module.lasting_tableInBounds actions, fun hmodule hall => ?_, ?_⟩
  · exact Machine.all_load Module.lasting_tableInBounds hmodule hall
  intro index between head offset count hbetween hhead table final
  have hsegment : elementSegment between = segmentBody offset count head := run_bind_of_ok hhead
  have htable : head.module.table = table := by
    have hleaves := leaves_segmentHead between
    rw [hhead] at hleaves
    exact congrArg (fun elements => elements.2.table) hleaves
  refine ⟨?_, fun error herror hlinked hindex => ?_, fun h => ⟨fun hbacks => ?_, fun hbacks => ?_⟩⟩
  · rw [hsegment]
    exact segmentBody_overflow_iff offset count head
  · have hprepare := prepare_of_error hbetween hindex (eq_error_of_resultOf herror)
    unfold Machine.preparing at hprepare
    unfold Machine.load
    rw [hlinked, if_neg Bool.false_ne_true]
    dsimp only
    rw [hprepare]
  · have hfills := segmentBody_fills h hbacks
    rw [← hsegment] at hfills
    refine ⟨?_, fun slot hslot => ?_⟩
    · rw [hfills.size, ← htable]
      exact FillStep.size_extendTable _ _
    · rw [hfills.outside slot hslot, ← htable]
      exact FillStep.join_extendTable _ _ _
  · have hrun := hsegment.trans (segmentBody_of_unbacked h hbacks)
    refine ⟨hrun, ?_⟩
    rw [← htable]
    exact congrArg (fun state : Loading => state.module.table) (congrArg stateAfter hrun)

/-- One function. The second element segment has two slots, from the last one on that 32 bits can number. -/
def overlong : Module where
  functions := #[.declared ⟨0, ⟨none, []⟩⟩]
  elementCount := 2
  elementBytes := [0x00, 0x41, 0x01, 0x0B, 0x01, 0x00, 0x00, 0x41, 0x7F, 0x0B, 0x02, 0x00, 0x00]

/-- The first segment has filled slot 1 when the second one is refused. -/
theorem tables_in_bounds_overlong :
    ∃ between head, upTo 1 (Machine.preparing overlong (spare {})) = .ok () between ∧
      segmentHead between = .ok (4294967295, 2) head ∧ between.module.table = #[none, some 0] ∧
      ∃ returned, (Machine.load overlong (spare {})).1 = .refused .tableOverflow returned ∧ returned.TableInBounds := by
  have hready : (resultOf (upTo 1 (Machine.preparing overlong (spare {})))).isOk = true := by decide +kernel
  have htable : (stateAfter (upTo 1 (Machine.preparing overlong (spare {})))).module.table = #[none, some 0] := by
    decide +kernel
  have hread : (resultOf (segmentHead (stateAfter (upTo 1 (Machine.preparing overlong (spare {})))))).toOption =
      some (4294967295, 2) := by
    decide +kernel
  obtain ⟨done, hdone⟩ := exists_of_isOk hready
  have hbetween := eq_ok_of_resultOf hdone
  have hhead := eq_ok_of_resultOf (eq_ok_of_toOption hread)
  obtain ⟨-, hload, hsegments⟩ :=
    tables_in_bounds none {} (.ofBackends .threaded .threaded none) (.system 0) [] overlong (spare {})
  obtain ⟨hoverflow, hrefused, -⟩ := hsegments 1 _ _ _ _ hbetween hhead
  have hlate : (2 : UInt32) = 0 ∨ 2 ^ 32 ≤ (4294967295 : UInt32).toNat + (2 : UInt32).toNat := by decide
  have hrefused := hrefused _ (hoverflow.2 hlate) rfl (by decide)
  have hbounds := (hload (Module.tableInBounds_of_empty rfl) nofun).2 _ _ _ (Prod.ext hrefused rfl)
  exact ⟨_, _, hbetween, hhead, htable, _, hrefused, hbounds⟩

end Session

end WasmEngine
