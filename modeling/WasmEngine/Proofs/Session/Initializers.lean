import WasmEngine.Proofs.Machine.Supply
import WasmEngine.Proofs.Session.Segments

/-!
# The initial values of globals

The constant expressions that hosts write have the values that they were written with. Globals are set in order: one
that copies a global sees what was set before it (`SetsGlobals`).
-/

namespace WasmEngine

open Threaded

/-! ## Initializers -/

namespace Initializer

/-- The global that is read is one of the first so many. -/
def ReadsBelow (count : Nat) : Initializer → Prop
  | .global index => index.toNat < count
  | _ => True

theorem exists_value {initializer : Initializer} {globals : Array Global} (h : initializer.ReadsBelow globals.size) :
    ∃ slot, initializer.value (globals[·]?) = some slot := by
  cases initializer with
  | i32 value => exact ⟨_, rfl⟩
  | i64 value => exact ⟨_, rfl⟩
  | global index =>
    refine ⟨globals[index.toNat].value.toSlot, ?_⟩
    change globals[index.toNat]?.map _ = _
    rw [Array.getElem?_eq_getElem h]
    rfl

/-- Bytes that begin with two initializers have one value. -/
theorem value_eq_of_bytes {first second : Initializer} {rest rest' : List UInt8}
    (h : first.bytes ++ rest = second.bytes ++ rest') (lookup : Nat → Option Global) :
    first.value lookup = second.value lookup := by
  have hinstruction : first.instruction = second.instruction := by
    have hread := first.ofConstExpr_bytes rest
    rw [h, second.ofConstExpr_bytes rest'] at hread
    exact (List.cons.inj (Prod.mk.inj hread).1).1.symm
  cases first <;> cases second <;>
    simp only [instruction, Instruction.const.injEq, Instruction.globalGet.injEq, reduceCtorEq] at hinstruction <;>
    simp [value, hinstruction]

end Initializer

/-! ## Globals -/

/-- The globals before an index are set in order, and the others are as they were. -/
structure SetsGlobals (before after : Array Global) (count : Nat) : Prop where
  size : after.size = before.size
  later : ∀ index, count ≤ index → after[index]? = before[index]?
  unset : ∀ index global, index < count → before[index]? = some global → global.initial = none →
    after[index]? = some global
  set : ∀ index global (initializer : Initializer) rest, index < count → before[index]? = some global →
    global.initial = some (initializer.bytes ++ rest) →
    ∃ slot, initializer.value (fun read => if read < index then after[read]? else before[read]?) = some slot ∧
      after[index]? = some { global with slot := global.type.narrow slot }

namespace SetsGlobals

variable {before after : Array Global} {count : Nat} {global : Global}

theorem zero (globals : Array Global) : SetsGlobals globals globals 0 :=
  ⟨rfl, fun _ _ => rfl, fun _ _ h => absurd h (Nat.not_lt_zero _), fun _ _ _ _ h => absurd h (Nat.not_lt_zero _)⟩

/-- A global without a constant expression stays. -/
theorem skip (h : SetsGlobals before after count) (hglobal : before[count]? = some global)
    (hnone : global.initial = none) : SetsGlobals before after (count + 1) where
  size := h.size
  later index hindex := h.later index (by omega)
  unset index other hindex hother hinitial := by
    rcases Nat.lt_succ_iff_lt_or_eq.1 hindex with hlt | rfl
    · exact h.unset index other hlt hother hinitial
    · rw [h.later index (Nat.le_refl _), hother]
  set index other initializer rest hindex hother hinitial := by
    rcases Nat.lt_succ_iff_lt_or_eq.1 hindex with hlt | rfl
    · exact h.set index other initializer rest hlt hother hinitial
    · rw [hglobal] at hother
      cases hother
      rw [hnone] at hinitial
      cases hinitial

/-- A global is set to what its initializer gives when the globals before it are set. -/
theorem next (h : SetsGlobals before after count) (hglobal : before[count]? = some global)
    {initializer : Initializer} {rest : List UInt8} (hinitial : global.initial = some (initializer.bytes ++ rest))
    {slot : Slot} (hslot : initializer.value (after[·]?) = some slot) :
    SetsGlobals before (after.modify count ({ · with slot := global.type.narrow slot })) (count + 1) := by
  have hother (index : Nat) (hne : count ≠ index) :
      (after.modify count ({ · with slot := global.type.narrow slot }))[index]? = after[index]? := by
    rw [Array.getElem?_modify, if_neg hne]
  have hsame : (after.modify count ({ · with slot := global.type.narrow slot }))[count]? =
      some { global with slot := global.type.narrow slot } := by
    rw [Array.getElem?_modify, if_pos rfl, h.later count (Nat.le_refl _), hglobal]
    rfl
  -- What the initializers of the globals up to this one see does not change any more.
  have hseen (index : Nat) (hindex : index ≤ count) :
      (fun read => if read < index then (after.modify count ({ · with slot := global.type.narrow slot }))[read]?
        else before[read]?) = fun read => if read < index then after[read]? else before[read]? := by
    funext read
    by_cases hread : read < index
    · rw [if_pos hread, if_pos hread, hother read (by omega)]
    · rw [if_neg hread, if_neg hread]
  refine ⟨(Array.size_modify ..).trans h.size, fun index hindex => ?_, ?_, ?_⟩
  · rw [hother index (by omega), h.later index (by omega)]
  · intro index entry hindex hentry hnone
    rcases Nat.lt_succ_iff_lt_or_eq.1 hindex with hlt | rfl
    · rw [hother index (by omega), h.unset index entry hlt hentry hnone]
    · rw [hglobal] at hentry
      cases hentry
      rw [hinitial] at hnone
      cases hnone
  · intro index entry other rest' hindex hentry hbytes
    rcases Nat.lt_succ_iff_lt_or_eq.1 hindex with hlt | rfl
    · rw [hseen index (by omega), hother index (by omega)]
      exact h.set index entry other rest' hlt hentry hbytes
    · rw [hglobal] at hentry
      cases hentry
      have hvalue := Initializer.value_eq_of_bytes (Option.some.inj (hbytes.symm.trans hinitial)) (after[·]?)
      refine ⟨slot, ?_, hsame⟩
      have hlookup : (fun read => if read < index then after[read]? else before[read]?) = (after[·]?) := by
        funext read
        by_cases hread : read < index
        · rw [if_pos hread]
        · rw [if_neg hread, h.later read (by omega)]
      rw [hseen index (Nat.le_refl _), hlookup, hvalue, hslot]

end SetsGlobals

/-! ## Loading -/

/-- The state of loading with other globals. -/
def Loading.withGlobals (state : Loading) (env : Environment) (globals : Array Global) : Loading :=
  { state with env, module := { state.module with globals } }

/-- Every constant expression of a global is one that hosts write, of a global of the module if any. -/
def Module.Initializable (module : Module) : Prop :=
  ∀ (index : Nat) (global : Global) (expr : List UInt8), module.globals[index]? = some global →
    global.initial = some expr → ∃ (initializer : Initializer) (rest : List UInt8), expr = initializer.bytes ++ rest ∧
      initializer.ReadsBelow module.globals.size

namespace LoadM

variable {fuel : Nat} {state : Loading} {index : Nat} {global : Global}

theorem setGlobal_of_none (hglobal : state.module.globals[index]? = some global) (hnone : global.initial = none) :
    setGlobal index state = .ok () state := by
  unfold setGlobal
  rw [run_get_bind, hglobal]
  dsimp only
  rw [hnone]
  rfl

/-- A global is set to the value of its initializer. -/
theorem setGlobal_of_value (hglobal : state.module.globals[index]? = some global) {expr : List UInt8}
    (hinitial : global.initial = some expr) {slot : Slot} {length : Nat} {env' : Environment}
    (hvalue : Environment.constValue state.module expr global.type state.env = .ok (slot, length) env') :
    setGlobal index state = .ok () (state.withGlobals env' (state.module.globals.modify index ({ · with slot }))) := by
  unfold setGlobal
  rw [run_get_bind, hglobal]
  dsimp only
  rw [hinitial]
  dsimp only
  rw [run_bind_of_ok (constValue_of_ok hvalue)]
  rfl

/-- The globals before an index are set in order. -/
theorem sets_forM (hevaluates : state.env.Evaluates fuel) (hmodule : state.module.Initializable) {count : Nat}
    (hcount : count ≤ state.module.globals.size) :
    ∃ env' globals, (List.range count).forM setGlobal state = .ok () (state.withGlobals env' globals) ∧
      env'.Evaluates fuel ∧ SetsGlobals state.module.globals globals count := by
  induction count with
  | zero => exact ⟨state.env, state.module.globals, rfl, hevaluates, .zero _⟩
  | succ count ih =>
    obtain ⟨env', globals, hrun, hevaluates', hsets⟩ := ih (by omega)
    have hrange : (List.range (count + 1)).forM setGlobal =
        (do (List.range count).forM setGlobal; [count].forM setGlobal : LoadM Unit) := by
      rw [List.range_succ]
      exact List.forM_append
    obtain ⟨global, hglobal⟩ : ∃ global, state.module.globals[count]? = some global :=
      ⟨_, Array.getElem?_eq_getElem (by omega)⟩
    have hcurrent : (state.withGlobals env' globals).module.globals[count]? = some global := by
      change globals[count]? = _
      rw [hsets.later count (Nat.le_refl _), hglobal]
    rw [hrange, run_bind_of_ok hrun]
    cases hinitial : global.initial with
    | none =>
      refine ⟨env', globals, ?_, hevaluates', hsets.skip hglobal hinitial⟩
      exact run_bind_of_ok (setGlobal_of_none hcurrent hinitial)
    | some expr =>
      obtain ⟨initializer, rest, rfl, hbelow⟩ := hmodule count global expr hglobal hinitial
      rw [← hsets.size] at hbelow
      obtain ⟨slot, hslot⟩ := Initializer.exists_value hbelow
      obtain ⟨env'', hvalue, hevaluates'', -⟩ :=
        @Environment.Evaluates.constValue_bytes fuel env' (state.withGlobals env' globals).module hevaluates'
          initializer slot hslot global.type rest
      refine ⟨env'', _, ?_, hevaluates'', hsets.next hglobal hinitial hslot⟩
      exact run_bind_of_ok (setGlobal_of_value hcurrent hinitial hvalue)

end LoadM

/-! ## Sessions -/

namespace Session

open LoadM

/-- Where threaded code runs, and there is a slot for the value of a constant expression and a page with three lines
for its code: a constant that was written is found again, cut to its type, and so is the value of a global. Exactly the
bytes that were written are taken up. So the globals of every module are set in order: each one that copies another
sees those before it as they were set, and those without a constant expression stay. -/
theorem initializers_evaluated {session : Session} (hthreaded : session.IsThreaded) {engine : Engine}
    (hreached : Engine.Reaches session.engine engine) (state : Loading) (henv : state.env = engine.env)
    (hsupplied : state.env.Supplied) (hlines : 3 ≤ state.env.config.freeLineThreshold) :
    (∀ (value : Int32) (rest : List UInt8), ∃ env', constValue (ConstExpr.ofI32 value ++ rest) .i32 state =
      .ok (value.toUInt32.toUInt64, (ConstExpr.ofI32 value).length) { state with env := env' }) ∧
    (∀ (value : Int64) (rest : List UInt8), ∃ env', constValue (ConstExpr.ofI64 value ++ rest) .i64 state =
      .ok (value.toUInt64, (ConstExpr.ofI64 value).length) { state with env := env' }) ∧
    (∀ (index : UInt32) (global : Global) (type : ValType) (rest : List UInt8),
      state.module.globals[index.toNat]? = some global →
        ∃ env', constValue (ConstExpr.ofGlobal index.toNat ++ rest) type state =
          .ok (type.narrow global.value.toSlot, (ConstExpr.ofGlobal index.toNat).length) { state with env := env' }) ∧
    (state.module.Initializable → ∃ env' globals, setGlobals state = .ok () (state.withGlobals env' globals) ∧
      SetsGlobals state.module.globals globals state.module.globals.size) := by
  have hserves : state.env.Serves Backend.ampleFuel := henv ▸ hthreaded.serves_of_reaches hreached
  have hevaluates : state.env.Evaluates Backend.ampleFuel := ⟨hserves, by decide, hsupplied, hlines⟩
  have hwritten (initializer : Initializer) (type : ValType) (slot : Slot) (rest : List UInt8)
      (hslot : initializer.value (state.module.globals[·]?) = some slot) :
      ∃ env', constValue (initializer.bytes ++ rest) type state =
        .ok (type.narrow slot, initializer.bytes.length) { state with env := env' } := by
    obtain ⟨env', hvalue, -, -⟩ := hevaluates.constValue_bytes hslot type rest
    exact ⟨env', constValue_of_ok hvalue⟩
  refine ⟨fun value rest => ?_, fun value rest => ?_, fun index global type rest hglobal => ?_, fun hmodule => ?_⟩
  · rw [← ValType.narrow_i32]
    exact hwritten (.i32 value) .i32 _ rest rfl
  · exact hwritten (.i64 value) .i64 _ rest rfl
  · refine hwritten (.global index) type _ rest ?_
    change state.module.globals[index.toNat]?.map _ = _
    rw [hglobal]
    rfl
  · obtain ⟨env', globals, hrun, -, hsets⟩ := sets_forM hevaluates hmodule (Nat.le_refl _)
    exact ⟨env', globals, hrun, hsets⟩

/-- An imported global, a 32-bit copy of it, a copy of the copy followed by a stray byte, and a number. -/
def chained : Module where
  globals := #[{ type := .i64, isMutable := false, imported := some ⟨"host", "base"⟩, slot := 0x100000005 },
    { type := .i32, isMutable := true, initial := some (ConstExpr.ofGlobal 0) },
    { type := .i64, isMutable := true, initial := some (ConstExpr.ofGlobal 1 ++ [0xFF]) },
    { type := .i32, isMutable := true, initial := some (ConstExpr.ofI32 (-1)) }]

/-- The second copy sees the first one. -/
theorem initializers_evaluated_chained :
    (spare {}).env.Supplied ∧ chained.Initializable ∧
      ∃ env' globals, setGlobals (Machine.preparing chained (spare {})) =
          .ok () ((Machine.preparing chained (spare {})).withGlobals env' globals) ∧
        globals.map Global.slot = #[0x100000005, 5, 5, 0xFFFFFFFF] := by
  have hsupplied : (spare {}).env.Supplied := ⟨by decide +kernel, by decide, _, _, rfl⟩
  have hmodule : chained.Initializable := by
    intro index global expr hglobal hinitial
    have hindex : index < 4 := (Array.getElem?_eq_some_iff.1 hglobal).1
    rcases index with _ | _ | _ | _ | index
    · cases hglobal
      cases hinitial
    · cases hglobal
      cases hinitial
      exact ⟨.global 0, [], (List.append_nil _).symm, show 0 < 4 by decide⟩
    · cases hglobal
      cases hinitial
      exact ⟨.global 1, [0xFF], rfl, show 1 < 4 by decide⟩
    · cases hglobal
      cases hinitial
      exact ⟨.i32 (-1), [], (List.append_nil _).symm, trivial⟩
    · omega
  obtain ⟨-, -, -, hset⟩ := initializers_evaluated (isThreaded_untouched {}) .refl
    (Machine.preparing chained (spare {})) rfl hsupplied (by decide)
  obtain ⟨env', globals, hrun, -⟩ := hset hmodule
  have hslots : (stateAfter (setGlobals (Machine.preparing chained (spare {})))).module.globals.map Global.slot =
      #[0x100000005, 5, 5, 0xFFFFFFFF] := by
    decide +kernel
  rw [hrun] at hslots
  exact ⟨hsupplied, hmodule, env', globals, hrun, hslots⟩

end Session

end WasmEngine
