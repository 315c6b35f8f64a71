import WasmEngine.Proofs.Memory.Writing
import WasmEngine.Proofs.Session.Retry

/-!
# Data segments

Loading a module lays its data segments over the bytes of linear memory, one after another, until one is in the way:
its offset has no value, or it ends past the end of the memory. An offset is a 32-bit number without sign.
-/

namespace WasmEngine

/-! ## Offsets -/

/-- The value on top once the instructions of a constant expression were run. -/
def Threaded.lastPushed (module : Module) (instructions : List Instruction) (value : Slot) : Slot :=
  instructions.foldl (fun value instruction => (pushed module instruction).toOption.getD value) value

/-- The value that a constant expression pushes last, zero if it pushes none. -/
def ConstExpr.value (module : Module) (expr : List UInt8) : Slot :=
  Threaded.lastPushed module (Threaded.Instruction.ofConstExpr expr).1 0

theorem Threaded.headD_pushAll {module : Module} {fuel : Nat} {instructions : List Instruction}
    {operands result : List Slot} (h : pushAll module fuel instructions operands = .ok result) :
    result.headD 0 = lastPushed module instructions (operands.headD 0) := by
  induction instructions generalizing fuel operands with
  | nil =>
    cases fuel with
    | zero => cases h
    | succ fuel =>
      cases h
      rfl
  | cons instruction rest ih =>
    cases fuel with
    | zero => cases h
    | succ fuel =>
      unfold pushAll at h
      rw [lastPushed, List.foldl_cons]
      cases hpushed : pushed module instruction with
      | error error =>
        rw [hpushed] at h
        cases h
      | ok value =>
        rw [hpushed] at h
        exact ih h

namespace DataSegment

variable {module : Module} {segment : DataSegment} {segments before after : List DataSegment}

/-- Where a data segment goes. -/
def place (module : Module) (segment : DataSegment) : Nat :=
  (ConstExpr.value module segment.offset).toUInt32.toNat

/-- The bytes of a data segment and where they go. -/
def piece (module : Module) (segment : DataSegment) : Nat × List UInt8 :=
  (segment.place module, segment.bytes)

/-- A data segment ends within a memory. -/
def Fits (module : Module) (memory : LinearMemory) (segment : DataSegment) : Prop :=
  segment.place module + segment.bytes.length ≤ memory.size

instance (module : Module) (memory : LinearMemory) (segment : DataSegment) : Decidable (segment.Fits module memory) :=
  inferInstanceAs (Decidable (_ ≤ _))

theorem fits_overlay (memory : LinearMemory) (pieces : List (Nat × List UInt8)) :
    segment.Fits module (memory.overlay pieces) ↔ segment.Fits module memory := by
  unfold Fits
  rw [LinearMemory.size_overlay]

/-- Evaluates the offsets of data segments one after another. -/
def evaluateOffsets (module : Module) (segments : List DataSegment) : EStateM Error Environment Unit :=
  segments.forM fun segment => do
    let _ ← Environment.constValue module segment.offset .i32

/-- An offset that is evaluated is where the segment goes. -/
theorem toNat_offset {fuel : Nat} {env env' : Environment} (hserves : env.Serves fuel) {slot : Slot} {length : Nat}
    (h : Environment.constValue module segment.offset .i32 env = .ok (slot, length) env') :
    slot.toNat = segment.place module := by
  obtain ⟨reader, operands, -, hpush, hvalue, -⟩ := Environment.constValue_eq_ok hserves h
  have hlast : operands.headD 0 = ConstExpr.value module segment.offset := Threaded.headD_pushAll hpush
  rw [hvalue, hlast]
  exact UInt32.toNat_toUInt64 _

theorem evaluateOffsets_cons {env env' : Environment}
    (h : evaluateOffsets module (segment :: segments) env = .ok () env') :
    ∃ value between, Environment.constValue module segment.offset .i32 env = .ok value between ∧
      evaluateOffsets module segments between = .ok () env' := by
  obtain ⟨done, between, hfirst, hrest⟩ := run_bind_eq_ok h
  obtain ⟨value, next, hvalue, hpure⟩ := run_bind_eq_ok hfirst
  cases hpure
  exact ⟨value, _, hvalue, hrest⟩

theorem evaluateOffsets_cons_of_ok {env between : Environment} {value : Slot × Nat}
    (h : Environment.constValue module segment.offset .i32 env = .ok value between) :
    evaluateOffsets module (segment :: segments) env = evaluateOffsets module segments between := by
  have hfirst : (do let _ ← Environment.constValue module segment.offset .i32 : EStateM Error Environment Unit) env =
      .ok () between := run_bind_of_ok h
  exact run_bind_of_ok hfirst

end DataSegment

/-! ## One segment -/

/-- The state of loading with data segments laid over the linear memory. -/
def Loading.overlaid (state : Loading) (env : Environment) (segments : List DataSegment) : Loading :=
  { state with env, memory := state.memory.overlay (segments.map (DataSegment.piece state.module)) }

theorem Loading.overlaid_nil (state : Loading) (env : Environment) : state.overlaid env [] = { state with env } := by
  unfold overlaid
  rw [List.map_nil, LinearMemory.overlay_nil]

theorem Loading.overlaid_append (state : Loading) (env env' : Environment) (first second : List DataSegment) :
    (state.overlaid env first).overlaid env' second = state.overlaid env' (first ++ second) := by
  unfold overlaid
  rw [List.map_append, LinearMemory.overlay_append]

namespace LoadM

variable {fuel : Nat} {state : Loading} {segment : DataSegment} {env' : Environment}

/-- Once the offset is evaluated, the memory has to be sized and to have room; the write is within bounds. -/
theorem copySegment_of_value (hserves : state.env.Serves fuel) {value : Slot × Nat}
    (h : Environment.constValue state.module segment.offset .i32 state.env = .ok value env') :
    copySegment segment state =
      if state.memory.allocated = false then .error .memoryUnallocated (state.overlaid env' [])
      else if segment.Fits state.module state.memory then .ok () (state.overlaid env' [segment])
      else .error .dataSegmentOverflow (state.overlaid env' []) := by
  obtain ⟨slot, length⟩ := value
  have hplace := DataSegment.toNat_offset hserves h
  rw [copySegment_eq, run_bind_of_ok (constValue_of_ok h), Loading.overlaid_nil]
  dsimp only
  unfold onMemory placeSegment
  dsimp only
  rw [hplace]
  cases state.memory.allocated with
  | false => rfl
  | true =>
    by_cases hfits : segment.Fits state.module state.memory
    · have hwrite : state.memory.write (segment.place state.module) segment.bytes = _ :=
        LinearMemory.write_overlay hfits
      rw [if_pos hfits, if_neg (Nat.not_lt.2 hfits), hwrite]
      rfl
    · rw [if_neg hfits, if_pos (Nat.lt_of_not_le hfits)]
      rfl

section Sized

variable (hserves : state.env.Serves fuel) (hallocated : state.memory.allocated = true) {value : Slot × Nat}
  (h : Environment.constValue state.module segment.offset .i32 state.env = .ok value env')

include hserves hallocated h

theorem copySegment_of_fits (hfits : segment.Fits state.module state.memory) :
    copySegment segment state = .ok () (state.overlaid env' [segment]) := by
  simp [copySegment_of_value hserves h, hallocated, hfits]

theorem copySegment_of_overflow (hfits : ¬segment.Fits state.module state.memory) :
    copySegment segment state = .error .dataSegmentOverflow (state.overlaid env' []) := by
  simp [copySegment_of_value hserves h, hallocated, hfits]

end Sized

end LoadM

/-! ## All segments -/

/-- The offsets of data segments are evaluated, and all segments fit. -/
structure Loading.Admits (state : Loading) (segments : List DataSegment) (env' : Environment) : Prop where
  evaluated : DataSegment.evaluateOffsets state.module segments state.env = .ok () env'
  fit : ∀ segment ∈ segments, segment.Fits state.module state.memory

/-- A data segment is in the way: its offset has no value, or it does not fit. -/
inductive DataSegment.Obstructs (module : Module) (memory : LinearMemory) (segment : DataSegment) (env : Environment) :
    Error → Environment → Prop where
  | offset {error : Error} {env' : Environment}
      (h : Environment.constValue module segment.offset .i32 env = .error error env') :
      Obstructs module memory segment env error env'
  | overflow {value : Slot × Nat} {env' : Environment}
      (h : Environment.constValue module segment.offset .i32 env = .ok value env')
      (hfits : ¬segment.Fits module memory) : Obstructs module memory segment env .dataSegmentOverflow env'

namespace LoadM

variable {fuel : Nat} {state : Loading} {segment : DataSegment} {segments before after : List DataSegment}
  {env' : Environment}

/-- All segments are copied, or there is a first one that is in the way. -/
theorem admits_or_obstructs (state : Loading) (segments : List DataSegment) :
    (∃ env', state.Admits segments env') ∨
      ∃ before segment after between error env', segments = before ++ segment :: after ∧
        state.Admits before between ∧ segment.Obstructs state.module state.memory between error env' := by
  induction segments generalizing state with
  | nil => exact .inl ⟨state.env, rfl, nofun⟩
  | cons segment segments ih =>
    cases hvalue : Environment.constValue state.module segment.offset .i32 state.env with
    | error error env' => exact .inr ⟨[], segment, segments, _, error, env', rfl, ⟨rfl, nofun⟩, .offset hvalue⟩
    | ok value between =>
      by_cases hfits : segment.Fits state.module state.memory
      -- Whether a segment fits does not depend on those before it, only its evaluation does.
      · have hcons {others : List DataSegment} {env' : Environment}
            (h : ({ state with env := between } : Loading).Admits others env') :
            state.Admits (segment :: others) env' :=
          ⟨(DataSegment.evaluateOffsets_cons_of_ok hvalue).trans h.evaluated, List.forall_mem_cons.2 ⟨hfits, h.fit⟩⟩
        rcases ih { state with env := between } with
          ⟨env', h⟩ | ⟨before, other, after, next, error, env', rfl, h, hstop⟩
        · exact .inl ⟨env', hcons h⟩
        · exact .inr ⟨segment :: before, other, after, next, error, env', rfl, hcons h, hstop⟩
      · exact .inr ⟨[], segment, segments, _, _, between, rfl, ⟨rfl, nofun⟩, .overflow hvalue hfits⟩

section Allocated

variable (hserves : state.env.Serves fuel) (hallocated : state.memory.allocated = true)

include hserves hallocated

/-- Segments that are not in the way are laid over the memory. -/
theorem copy_of_admits (h : state.Admits segments env') :
    segments.forM copySegment state = .ok () (state.overlaid env' segments) ∧ env'.Serves fuel := by
  induction segments generalizing state with
  | nil =>
    cases h.evaluated
    rw [Loading.overlaid_nil]
    exact ⟨rfl, hserves⟩
  | cons segment segments ih =>
    obtain ⟨value, between, hvalue, hrest⟩ := DataSegment.evaluateOffsets_cons h.evaluated
    obtain ⟨hfits, hothers⟩ := List.forall_mem_cons.1 h.fit
    have hfirst := copySegment_of_fits hserves hallocated hvalue hfits
    have hserves' := hserves.constValue state.module segment.offset .i32
    rw [hvalue] at hserves'
    -- The memory is as long as before, so the others fit into what the first one leaves.
    have hadmits : (state.overlaid between [segment]).Admits segments env' :=
      ⟨hrest, fun other hmem => (DataSegment.fits_overlay ..).2 (hothers other hmem)⟩
    obtain ⟨hcopied, hends⟩ := @ih (state.overlaid between [segment]) hserves' hallocated hadmits
    refine ⟨?_, hends⟩
    rw [Loading.overlaid_append] at hcopied
    exact (run_bind_of_ok hfirst).trans hcopied

/-- A segment that is in the way stops the copying. -/
theorem copy_of_obstructs {between : Environment} (hbefore : state.Admits before between) {error : Error}
    (h : segment.Obstructs state.module state.memory between error env') (after : List DataSegment) :
    (before ++ segment :: after).forM copySegment state = .error error (state.overlaid env' before) := by
  obtain ⟨hcopied, hserves'⟩ := copy_of_admits hserves hallocated hbefore
  have hstop : copySegment segment (state.overlaid between before) = .error error (state.overlaid env' before) := by
    cases h with
    | offset hvalue => exact run_bind_of_error (constValue_of_error hvalue)
    | overflow hvalue hfits =>
      have hcopy := @copySegment_of_overflow fuel (state.overlaid between before) segment env' hserves' hallocated
        _ hvalue (mt (DataSegment.fits_overlay ..).1 hfits)
      rwa [Loading.overlaid_append, List.append_nil] at hcopy
  have happend : (before ++ segment :: after).forM copySegment =
      (do before.forM copySegment; (segment :: after).forM copySegment : LoadM Unit) := List.forM_append
  rw [happend, run_bind_of_ok hcopied]
  exact run_bind_of_error hstop

/-- How copying the segments can end. -/
theorem copy_cases (segments : List DataSegment) :
    (∃ env', state.Admits segments env' ∧ segments.forM copySegment state = .ok () (state.overlaid env' segments)) ∨
      ∃ before segment after between error env', segments = before ++ segment :: after ∧
        state.Admits before between ∧ segment.Obstructs state.module state.memory between error env' ∧
        segments.forM copySegment state = .error error (state.overlaid env' before) := by
  rcases admits_or_obstructs state segments with ⟨env', hadmits⟩ | hfirst
  · exact .inl ⟨env', hadmits, (copy_of_admits hserves hallocated hadmits).1⟩
  · obtain ⟨before, segment, after, between, error, env', rfl, hbefore, hstop⟩ := hfirst
    have hrun := copy_of_obstructs hserves hallocated hbefore hstop after
    exact .inr ⟨before, segment, after, between, error, env', rfl, hbefore, hstop, hrun⟩

end Allocated

/-! ### Before the data segments -/

/-- Sizes the linear memory and sets the globals. -/
def setUp : LoadM Unit := do
  sizeMemory
  setGlobals

theorem prepare_eq : prepare = (do setUp; copySegments; fillTable) := by
  unfold prepare setUp
  rw [bind_assoc]

theorem serves_closed : Closed fun _ program => Keeps (Loading.Along (Preserves (Environment.Serves fuel))) program :=
  along_closed fun module expr type _ hserves => hserves.constValue module expr type

theorem serves_sizeMemory : Keeps (Loading.Along (Preserves (Environment.Serves fuel))) sizeMemory :=
  along_sizeMemory fun _ memory pages hserves => hserves.grown memory pages

/-- The environment serves as before, and the data segments are those of the module. -/
theorem setUp_eq_ok {state' : Loading} (h : setUp state = .ok () state') (hserves : state.env.Serves fuel) :
    state'.env.Serves fuel ∧ state'.module.data = state.module.data := by
  have hkept : Keeps (Loading.Along (Preserves (Environment.Serves fuel))) setUp :=
    .bind serves_sizeMemory fun _ => serves_closed.setGlobals
  have hfollows : Keeps (Loading.Follows True) setUp := .bind keeps_sizeMemory fun _ => keeps_closed.setGlobals
  have hdata := congrArg Module.data (hfollows.of_ok h).outline
  exact ⟨hkept.of_ok h hserves, hdata⟩

end LoadM

namespace Session

open LoadM

/-- The data segments of a module are laid over the linear memory, the later over the earlier. They all are exactly if
their offsets are evaluated and none ends past the end of the memory. If one is in the way, those before it are in
place, and nothing else. A write that is made is within bounds. A memory that was never sized takes no segment. -/
theorem segments_applied {session : Session} (hthreaded : session.IsThreaded) {machine : Machine} {module : Module}
    {state : Loading} (hready : setUp (Machine.preparing module ⟨session.env, machine⟩) = .ok () state) :
    prepare (Machine.preparing module ⟨session.env, machine⟩) = (do copySegments; fillTable) state ∧
    (state.memory.allocated = true →
      (∀ state', copySegments state = .ok () state' ↔
        ∃ env', state.Admits module.data.toList env' ∧ state' = state.overlaid env' module.data.toList) ∧
      (∀ error state', copySegments state = .error error state' ↔
        ∃ before segment after between env', module.data.toList = before ++ segment :: after ∧
          state.Admits before between ∧ segment.Obstructs state.module state.memory between error env' ∧
          state' = state.overlaid env' before)) ∧
    (∀ before segment, segment.Fits state.module state.memory →
      (state.overlaid state.env before).memory.write (segment.place state.module) segment.bytes =
        .ok (state.overlaid state.env (before ++ [segment])).memory) ∧
    (state.memory.allocated = false → ∀ segment after, module.data.toList = segment :: after →
      ∀ value env', Environment.constValue state.module segment.offset .i32 state.env = .ok value env' →
        copySegments state = .error .memoryUnallocated { state with env := env' }) := by
  obtain ⟨hserves, hdata⟩ := setUp_eq_ok hready hthreaded.serves
  have hphase : prepare (Machine.preparing module ⟨session.env, machine⟩) = (do copySegments; fillTable) state := by
    rw [prepare_eq, run_bind_of_ok hready]
  have hsegments : copySegments state = module.data.toList.forM copySegment state := by
    unfold copySegments
    rw [run_get_bind, hdata]
    rfl
  rw [hsegments]
  refine ⟨hphase, fun hallocated => ⟨fun state' => ⟨?_, ?_⟩, fun error state' => ⟨?_, ?_⟩⟩, ?_, ?_⟩
  · intro hcopied
    rcases copy_cases hserves hallocated module.data.toList with
      ⟨env', hadmits, hrun⟩ | ⟨_, _, _, _, _, _, -, -, -, hrun⟩
    · cases hrun.symm.trans hcopied
      exact ⟨env', hadmits, rfl⟩
    · cases hrun.symm.trans hcopied
  · rintro ⟨env', hadmits, rfl⟩
    exact (copy_of_admits hserves hallocated hadmits).1
  · intro hcopied
    rcases copy_cases hserves hallocated module.data.toList with
      ⟨_, -, hrun⟩ | ⟨before, segment, after, between, _, env', hsplit, hbefore, hstop, hrun⟩
    · cases hrun.symm.trans hcopied
    · cases hrun.symm.trans hcopied
      exact ⟨before, segment, after, between, env', hsplit, hbefore, hstop, rfl⟩
  · rintro ⟨before, segment, after, between, env', hsplit, hbefore, hstop, rfl⟩
    rw [hsplit]
    exact copy_of_obstructs hserves hallocated hbefore hstop after
  · intro before segment hfits
    rw [← Loading.overlaid_append state state.env]
    exact LinearMemory.write_overlay ((DataSegment.fits_overlay ..).2 hfits)
  · intro hunsized segment after hsplit value env' hvalue
    rw [hsplit]
    have hcopy := copySegment_of_value hserves hvalue
    rw [if_pos hunsized, Loading.overlaid_nil] at hcopy
    exact run_bind_of_error hcopy

/-- The second segment lies over the first one, and the third ends past the end of any memory. -/
def spilled : Module where
  data := #[⟨0, [0x41, 0x00, 0x0B], [1, 2, 3]⟩, ⟨0, [0x41, 0x01, 0x0B], [9]⟩, ⟨0, [0x41, 0x7F, 0x0B], [7]⟩]
  memory := some ⟨1, none⟩

/-- The state in which its segments are copied. -/
def spilling : Loading :=
  stateAfter (setUp (Machine.preparing spilled (spare {})))

theorem evaluateOffsets_spilled :
    ∃ env', DataSegment.evaluateOffsets spilling.module spilled.data.toList spilling.env = .ok () env' := by
  have hok : (resultOf (DataSegment.evaluateOffsets spilling.module spilled.data.toList spilling.env)).isOk = true := by
    decide +kernel
  obtain ⟨done, hdone⟩ := exists_of_isOk hok
  exact ⟨_, eq_ok_of_resultOf hdone⟩

/-- The first two segments are in place when the third is refused. -/
theorem segments_applied_spilled :
    ∃ state env', setUp (Machine.preparing spilled (spare {})) = .ok () state ∧ state.memory.size = pageSize ∧
      copySegments state = .error .dataSegmentOverflow
        { state with env := env', memory := state.memory.overlay [(0, [1, 2, 3]), (1, [9])] } := by
  have hready : setUp (Machine.preparing spilled (spare {})) = .ok () spilling := rfl
  have hsize : spilling.memory.size = pageSize := LinearMemory.size_commit (by decide)
  have hpieces : (spilled.data.toList.take 2).map (DataSegment.piece spilling.module) = [(0, [1, 2, 3]), (1, [9])] := by
    decide +kernel
  have hfit : ∀ segment ∈ spilled.data.toList.take 2,
      segment.place spilling.module + segment.bytes.length ≤ pageSize := by
    decide +kernel
  obtain ⟨env', hall⟩ := evaluateOffsets_spilled
  obtain ⟨first, next, hfirst, hrest⟩ := DataSegment.evaluateOffsets_cons hall
  obtain ⟨second, between, hsecond, hrest⟩ := DataSegment.evaluateOffsets_cons hrest
  obtain ⟨third, after, hthird, -⟩ := DataSegment.evaluateOffsets_cons hrest
  obtain ⟨-, hsized, -⟩ := segments_applied (isThreaded_untouched {}) hready
  obtain ⟨-, hfailed⟩ := hsized rfl
  refine ⟨spilling, after, hready, hsize, (hfailed _ _).2 ?_⟩
  refine ⟨spilled.data.toList.take 2, _, [], between, after, rfl, ⟨?_, ?_⟩, .overflow hthird ?_, ?_⟩
  · exact (DataSegment.evaluateOffsets_cons_of_ok hfirst).trans (DataSegment.evaluateOffsets_cons_of_ok hsecond)
  · intro segment hmem
    unfold DataSegment.Fits
    rw [hsize]
    exact hfit segment hmem
  · unfold DataSegment.Fits
    rw [hsize]
    decide +kernel
  · unfold Loading.overlaid
    rw [hpieces]

end Session

end WasmEngine
