import WasmEngine.Proofs.Machine.Supply
import WasmEngine.Proofs.Machine.Tables

/-!
# Element segments that hosts write

Reading element segments back fills the table slot by slot: a slot holds what the last segment that reaches it puts
there, and the slots that none reaches are empty (`ElementSegment.table`).
-/

namespace WasmEngine

/-- An element segment that a host writes: the slot that it starts at, and its functions. -/
structure ElementSegment where
  offset : Int32
  functions : List UInt32

namespace ElementSegment

/-- The first slot that it fills. Offsets count without sign. -/
def start (segment : ElementSegment) : Nat :=
  segment.offset.toUInt32.toNat

/-- The end of the slots that it fills. -/
def stop (segment : ElementSegment) : Nat :=
  segment.start + segment.functions.length

/-- How many slots it fills, as it is written. -/
def count (segment : ElementSegment) : UInt32 :=
  UInt32.ofNat segment.functions.length

/-- The piece of a module that it is. -/
def item (segment : ElementSegment) : BuildItem :=
  .elements 0 (ConstExpr.ofI32 segment.offset) (segment.functions.map UInt32.toNat)

/-- Its bytes. -/
def bytes (segment : ElementSegment) : List UInt8 :=
  Draft.encodeElements 0 (ConstExpr.ofI32 segment.offset) (segment.functions.map UInt32.toNat)

/-- It has functions, all of them among so many, and it ends within 32 bits. -/
structure Valid (functions : Nat) (segment : ElementSegment) : Prop where
  nonempty : segment.functions ≠ []
  known : ∀ function ∈ segment.functions, function.toNat < functions
  within : segment.stop < 0x100000000

/-- The function that it puts into a slot. -/
def function? (segment : ElementSegment) (slot : Nat) : Option Nat :=
  if segment.start ≤ slot then segment.functions[slot - segment.start]?.map UInt32.toNat else none

/-- What the last segment that reaches a slot puts there. -/
def content? (segments : List ElementSegment) (slot : Nat) : Option Nat :=
  segments.reverse.findSome? (·.function? slot)

/-- The end of all slots that are filled. -/
def reach (segments : List ElementSegment) : Nat :=
  (segments.map stop).foldr max 0

/-- The table that segments fill. -/
def table (segments : List ElementSegment) : Array (Option Nat) :=
  (Array.range (reach segments)).map (content? segments)

variable {segment : ElementSegment} {segments : List ElementSegment} {slot : Nat}

namespace Valid

variable {functions : Nat} (h : segment.Valid functions)

include h

theorem length_lt : segment.functions.length < 0x100000000 :=
  Nat.lt_of_le_of_lt (Nat.le_add_left ..) h.within

theorem toNat_count : segment.count.toNat = segment.functions.length :=
  UInt32.toNat_ofNat_of_lt' h.length_lt

theorem start_add_count : segment.offset.toUInt32.toNat + segment.count.toNat = segment.stop :=
  congrArg (segment.start + ·) h.toNat_count

/-- Its range is accepted. -/
theorem accepted : ¬(segment.count = 0 ∨ 2 ^ 32 ≤ segment.offset.toUInt32.toNat + segment.count.toNat) := by
  have hpos := List.length_pos_iff.2 h.nonempty
  have hwithin := h.within
  rw [h.start_add_count, ← UInt32.toNat_inj, UInt32.toNat_zero, h.toNat_count]
  omega

theorem bytes_eq : segment.bytes = Leb128.encodeUnsigned 0 ++ ConstExpr.ofI32 segment.offset ++
    Leb128.encodeUnsigned segment.count.toNat ++ segment.functions.flatMap (Leb128.encodeUnsigned ·.toNat) := by
  rw [h.toNat_count]
  simp [bytes, Draft.encodeElements, List.flatMap_map]

end Valid

theorem content?_cons (segment : ElementSegment) (segments : List ElementSegment) (slot : Nat) :
    content? (segment :: segments) slot = (content? segments slot).or (segment.function? slot) := by
  simp [content?, List.findSome?_append]

theorem stop_le_reach (h : segment ∈ segments) : segment.stop ≤ reach segments := by
  induction segments with
  | nil => cases h
  | cons other segments ih =>
    change _ ≤ max other.stop (reach segments)
    rcases List.mem_cons.1 h with rfl | hmem
    · exact Nat.le_max_left _ _
    · exact Nat.le_trans (ih hmem) (Nat.le_max_right _ _)

theorem function?_of_stop_le (h : segment.stop ≤ slot) : segment.function? slot = none := by
  unfold function? stop at *
  rw [if_pos (by omega), List.getElem?_eq_none (by omega)]
  rfl

theorem content?_of_reach_le (h : reach segments ≤ slot) : content? segments slot = none := by
  unfold content?
  rw [List.findSome?_eq_none_iff]
  intro segment hsegment
  exact function?_of_stop_le (Nat.le_trans (stop_le_reach (List.mem_reverse.1 hsegment)) h)

theorem size_table (segments : List ElementSegment) : (table segments).size = reach segments := by
  simp [table]

theorem join_table (segments : List ElementSegment) (slot : Nat) :
    (table segments)[slot]?.join = content? segments slot := by
  unfold table
  rw [Array.getElem?_map]
  rcases Nat.lt_or_ge slot (reach segments) with hlt | hle
  · simp [hlt]
  · rw [content?_of_reach_le hle, Array.getElem?_eq_none (by simpa using hle)]
    rfl

end ElementSegment

/-! ## Building -/

/-- It is an element segment. -/
def BuildItem.isElements : BuildItem → Bool
  | .elements _ _ _ => true
  | _ => false

/-- Only element segments add to the element segments. -/
theorem BuildItem.foldl_addElements (items : List BuildItem) (state : ElementState) :
    items.foldl (fun state item => item.addElements state) state =
      (items.filter isElements).foldl (fun state item => item.addElements state) state := by
  induction items generalizing state with
  | nil => rfl
  | cons item items ih =>
    rw [List.foldl_cons, ih]
    cases item <;> rfl

/-- Segments that are not too long are added one after the other. -/
theorem ElementSegment.foldl_addElements {segments : List ElementSegment}
    (h : ∀ segment ∈ segments, segment.functions.length < 0x100000000) (state : ElementState) :
    (segments.map item).foldl (fun state item => item.addElements state) state =
      { state with
        count := state.count + segments.length
        bytes := state.bytes ++ segments.flatMap bytes } := by
  induction segments generalizing state with
  | nil => simp
  | cons segment segments ih =>
    obtain ⟨hshort, hothers⟩ := List.forall_mem_cons.1 h
    have hfew : ¬0x100000000 ≤ (segment.functions.map UInt32.toNat).length := by
      rw [List.length_map]
      exact Nat.not_le.2 hshort
    rw [List.map_cons, List.foldl_cons, ih hothers]
    simp only [BuildItem.addElements, item, if_neg hfew, List.length_cons, List.flatMap_cons, bytes, List.append_assoc]
    congr 1
    omega

/-! ## Loading -/

/-- What the system could back, and less, it can back later. -/
theorem Environment.Lasts.backs {env env' : Environment} (h : env.Lasts env') {bytes bytes' : Nat}
    (hle : bytes' ≤ bytes) (hbacks : env.backs bytes = true) : env'.backs bytes' = true := by
  unfold Environment.backs at hbacks ⊢
  rw [h.backing]
  cases hbacking : env.memoryBacking with
  | none => rfl
  | some most =>
    rw [hbacking] at hbacks
    exact decide_eq_true (Nat.le_trans hle (of_decide_eq_true hbacks))

/-- Loading has got to a point of the element segments, with a table. -/
def Loading.reading (state : Loading) (env : Environment) (table : Array (Option Nat)) (input : Reader) : Loading :=
  { state with env, input, module := { state.module with table } }

theorem Loading.input_reading (state : Loading) (env : Environment) (table : Array (Option Nat)) (input : Reader) :
    (state.reading env table input).input = input :=
  rfl

namespace LoadM

variable {fuel : Nat} {state : Loading} {env : Environment} {table : Array (Option Nat)} {segment : ElementSegment}

theorem read_written {α : Type} {program : Read α} {bytes : List UInt8} {value : α} (h : Reads program {bytes} value)
    (position : Nat) (rest : List UInt8) :
    read program (state.reading env table ⟨position, bytes ++ rest⟩) =
      .ok value (state.reading env table ⟨position + bytes.length, rest⟩) := by
  have hread : program ⟨position, bytes ++ rest⟩ = .ok value ⟨position + bytes.length, rest⟩ :=
    h bytes rfl rest trivial position
  unfold read Loading.reading
  dsimp only
  rw [hread]

/-- The functions of a segment are put into slots that the table has. -/
theorem fillSlots_written {functions : List UInt32}
    (hknown : ∀ function ∈ functions, function.toNat < state.module.functions.size) {slot : Nat}
    (hslots : slot + functions.length ≤ table.size) (position : Nat) (rest : List UInt8) :
    ∃ table' position', fillSlots slot functions.length
        (state.reading env table ⟨position, functions.flatMap (Leb128.encodeUnsigned ·.toNat) ++ rest⟩) =
          .ok () (state.reading env table' ⟨position', rest⟩) ∧
      table'.size = table.size ∧
      ∀ other : Nat, table'[other]?.join =
        (if slot ≤ other then functions[other - slot]?.map UInt32.toNat else none).or table[other]?.join := by
  induction functions generalizing slot table position with
  | nil => exact ⟨table, position, rfl, rfl, fun other => by simp⟩
  | cons function functions ih =>
    rw [List.length_cons] at hslots
    obtain ⟨table', position', hrun, hsize, hjoin⟩ := @ih (table.setIfInBounds slot (some function.toNat))
      (fun other hother => hknown other (List.mem_cons_of_mem _ hother)) (slot + 1)
      (by rw [Array.size_setIfInBounds]; omega)
      (position + (Leb128.encodeUnsigned function.toNat).length)
    refine ⟨table', position', ?_, hsize.trans Array.size_setIfInBounds, fun other => ?_⟩
    · have hfunction (input : Reader) : ¬function.toNat ≥ (state.reading env table input).module.functions.size :=
        Nat.not_le.2 (hknown function (List.mem_cons_self ..))
      rw [List.length_cons, List.flatMap_cons, List.append_assoc]
      unfold fillSlots
      rw [run_bind_of_ok (read_written (Reader.reads_encodeUnsigned function) position _), run_get_bind,
        if_neg (hfunction _)]
      exact hrun
    · -- The other functions go into later slots, so this one stays.
      rw [hjoin, Array.getElem?_setIfInBounds]
      rcases Nat.lt_trichotomy other slot with hlt | rfl | hgt
      · rw [if_neg (by omega), if_neg (by omega), if_neg (by omega)]
      · rw [if_neg (by omega), if_pos rfl, if_pos (by omega), if_pos (Nat.le_refl _), Nat.sub_self]
        rfl
      · rw [if_pos (by omega), if_neg (by omega), if_pos (by omega),
          show other - slot = other - (slot + 1) + 1 by omega, List.getElem?_cons_succ]

/-- An offset that was written is read back. -/
theorem constValue_written (hevaluates : env.Evaluates fuel) (offset : Int32) (rest : List UInt8) :
    ∃ env', (∀ input, constValue (ConstExpr.ofI32 offset ++ rest) .i32 (state.reading env table input) =
        .ok (offset.toUInt32.toUInt64, (ConstExpr.ofI32 offset).length) (state.reading env' table input)) ∧
      env'.Evaluates fuel ∧ env.Lasts env' := by
  -- The bytes behind the offset belong to the expression that is compiled, but its code does not depend on them.
  obtain ⟨env', hvalue, hevaluates', hlasts⟩ := @Environment.Evaluates.constValue_bytes fuel env
    { state.module with table } hevaluates (.i32 offset) offset.toUInt32.toUInt64 rfl .i32 rest
  rw [ValType.narrow_i32] at hvalue
  exact ⟨env', fun input => constValue_of_ok hvalue, hevaluates', hlasts⟩

/-- The head of a segment is read, and its functions are left. -/
theorem segmentHead_written (hevaluates : env.Evaluates fuel) (offset : Int32) (count : UInt32) (position : Nat)
    (rest : List UInt8) :
    ∃ env' position', segmentHead (state.reading env table
        ⟨position, Leb128.encodeUnsigned 0 ++ ConstExpr.ofI32 offset ++ Leb128.encodeUnsigned count.toNat ++ rest⟩) =
          .ok (offset.toUInt32, count) (state.reading env' table ⟨position', rest⟩) ∧
      env'.Evaluates fuel ∧ env.Lasts env' := by
  obtain ⟨env', hconst, hevaluates', hlasts⟩ := @constValue_written fuel state env table hevaluates offset
    (Leb128.encodeUnsigned count.toNat ++ rest)
  refine ⟨env', position + (Leb128.encodeUnsigned 0).length + (ConstExpr.ofI32 offset).length +
    (Leb128.encodeUnsigned count.toNat).length, ?_, hevaluates', hlasts⟩
  have hindex : Reads Reader.varU32 {Leb128.encodeUnsigned 0} 0 := Reader.reads_encodeUnsigned 0
  unfold segmentHead
  rw [List.append_assoc, List.append_assoc, run_bind_of_ok (read_written hindex position _), if_neg (by simp)]
  dsimp only
  rw [run_get_bind, Loading.input_reading, run_bind_of_ok (hconst _)]
  dsimp only
  rw [run_bind_of_ok (read_written (Reader.reads_skip _) _ _),
    run_bind_of_ok (read_written (Reader.reads_encodeUnsigned count) _ _), UInt32.toUInt32_toUInt64]
  rfl

/-- A segment extends the table to its end and puts its functions over what was there. -/
theorem elementSegment_written (hvalid : segment.Valid state.module.functions.size) (hevaluates : env.Evaluates fuel)
    (hbacks : env.backs (segment.stop * tableSlotSize) = true) (position : Nat) (rest : List UInt8) :
    ∃ env' table' position', elementSegment (state.reading env table ⟨position, segment.bytes ++ rest⟩) =
        .ok () (state.reading env' table' ⟨position', rest⟩) ∧
      env'.Evaluates fuel ∧ env.Lasts env' ∧ table'.size = max table.size segment.stop ∧
      ∀ slot : Nat, table'[slot]?.join = (segment.function? slot).or table[slot]?.join := by
  obtain ⟨env', position', hhead, hevaluates', hlasts⟩ := @segmentHead_written fuel state env table hevaluates
    segment.offset segment.count position (segment.functions.flatMap (Leb128.encodeUnsigned ·.toNat) ++ rest)
  have hbacks' : env'.backs ((segment.offset.toUInt32.toNat + segment.count.toNat) * tableSlotSize) = true := by
    rw [hvalid.start_add_count]
    exact hlasts.backs (Nat.le_refl _) hbacks
  have hsize := FillStep.size_extendTable table segment.stop
  obtain ⟨table', position'', hfill, hkept, hjoin⟩ := @fillSlots_written state env' (extendTable table segment.stop)
    segment.functions hvalid.known segment.start (by rw [hsize]; exact Nat.le_max_right _ _) position' rest
  refine ⟨env', table', position'', ?_, hevaluates', hlasts, hkept.trans hsize, fun slot => ?_⟩
  · unfold elementSegment
    rw [hvalid.bytes_eq, List.append_assoc, run_bind_of_ok hhead]
    dsimp only
    rw [segmentBody_of_backed hvalid.accepted hbacks', hvalid.start_add_count, hvalid.toNat_count]
    exact hfill
  · rw [hjoin, FillStep.join_extendTable]
    rfl

/-- Segments put their functions over what was there, the later over the earlier. -/
theorem elementSegments_written {segments : List ElementSegment}
    (hvalid : ∀ segment ∈ segments, segment.Valid state.module.functions.size) (hevaluates : env.Evaluates fuel)
    (hbacks : env.backs (ElementSegment.reach segments * tableSlotSize) = true) (position : Nat) :
    ∃ env' table' position', elementSegments segments.length
        (state.reading env table ⟨position, segments.flatMap ElementSegment.bytes⟩) =
          .ok () (state.reading env' table' ⟨position', []⟩) ∧
      table'.size = max table.size (ElementSegment.reach segments) ∧
      ∀ slot : Nat, table'[slot]?.join = (ElementSegment.content? segments slot).or table[slot]?.join := by
  induction segments generalizing env table position with
  | nil => exact ⟨env, table, position, rfl, (Nat.max_zero _).symm, fun slot => rfl⟩
  | cons segment segments ih =>
    change env.backs (max segment.stop (ElementSegment.reach segments) * tableSlotSize) = true at hbacks
    obtain ⟨env', table', position', hrun, hevaluates', hlasts, hsize, hjoin⟩ :=
      @elementSegment_written fuel state env table segment (hvalid segment (List.mem_cons_self ..)) hevaluates
        ((Environment.Lasts.refl env).backs (Nat.mul_le_mul_right _ (Nat.le_max_left _ _)) hbacks) position
        (segments.flatMap ElementSegment.bytes)
    obtain ⟨env'', table'', position'', hrest, hsize', hjoin'⟩ :=
      @ih env' table' (fun other hother => hvalid other (List.mem_cons_of_mem _ hother)) hevaluates'
        (hlasts.backs (Nat.mul_le_mul_right _ (Nat.le_max_right _ _)) hbacks) position'
    refine ⟨env'', table'', position'', ?_, ?_, fun slot => ?_⟩
    · rw [List.length_cons, List.flatMap_cons, elementSegments, run_bind_of_ok hrun]
      exact hrest
    · rw [hsize', hsize, Nat.max_assoc]
      rfl
    · rw [hjoin', hjoin, ElementSegment.content?_cons, Option.or_assoc]

/-- Before the first element segment, functions, segments and table are as they were. -/
theorem upTo_zero_eq_ok {ready : Loading} (h : upTo 0 state = .ok () ready) :
    ready.elements = state.elements ∧ ready.input = .ofBytes state.module.elementBytes := by
  obtain ⟨done, between, hsetUp, hrest⟩ := run_bind_eq_ok h
  have hleaves := leaves_setUp.of_ok hsetUp
  cases hrest
  exact ⟨hleaves, congrArg (fun elements => Reader.ofBytes elements.2.bytes) hleaves⟩

/-- A module with an empty table and segments that a host wrote gets the table that they fill. -/
theorem prepare_written {ready : Loading} {segments : List ElementSegment} (hready : upTo 0 state = .ok () ready)
    (helements : state.module.elements = ⟨segments.length, segments.flatMap ElementSegment.bytes, #[]⟩)
    (hvalid : ∀ segment ∈ segments, segment.Valid state.module.functions.size)
    (hevaluates : ready.env.Evaluates fuel)
    (hbacks : ready.env.backs (ElementSegment.reach segments * tableSlotSize) = true) :
    ∃ final, prepare state = .ok () final ∧ final.module.table = ElementSegment.table segments := by
  obtain ⟨hkept, hinput⟩ := upTo_zero_eq_ok hready
  have hfunctions : ready.module.functions = state.module.functions := congrArg Prod.fst hkept
  have htable : ready.module.table = #[] :=
    congrArg ElementState.table ((congrArg Prod.snd hkept).trans helements)
  have hcount : state.module.elementCount = 0 + segments.length := by
    rw [Nat.zero_add]
    exact congrArg ElementState.count helements
  have hbytes : state.module.elementBytes = segments.flatMap ElementSegment.bytes :=
    congrArg ElementState.bytes helements
  have hreading : ready = ready.reading ready.env #[] ⟨0, segments.flatMap ElementSegment.bytes⟩ := by
    rw [← htable, ← hbytes]
    exact congrArg (fun input => { ready with input }) hinput
  rw [← hfunctions] at hvalid
  obtain ⟨env', table', position', hrun, hsize, hjoin⟩ :=
    @elementSegments_written fuel ready ready.env #[] segments hvalid hevaluates hbacks 0
  refine ⟨ready.reading env' table' ⟨position', []⟩, ?_, ?_⟩
  · rw [prepare_eq_upTo, hcount, upTo_add, run_bind_of_ok hready, hreading]
    exact hrun
  · refine FillStep.table_ext ?_ fun slot => ?_
    · rw [ElementSegment.size_table]
      exact hsize.trans (Nat.zero_max _)
    · rw [ElementSegment.join_table]
      exact (hjoin slot).trans (by simp)

end LoadM

end WasmEngine
