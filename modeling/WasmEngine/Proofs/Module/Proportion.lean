import WasmEngine.Proofs.Binary.Costs

/-!
# Modules are no larger than their bytes

What a module keeps (`Module.kept`) is paid for with the bytes that decoding takes: every entry of a section costs at
least one byte, whatever number the section announces.
-/

namespace WasmEngine

variable {α : Type}

/-! ## What a module keeps -/

def TypeHandle.kept (handle : TypeHandle) : Nat :=
  1 + handle.type.params.length

def ImportName.kept (name : ImportName) : Nat :=
  name.module.utf8ByteSize + name.field.utf8ByteSize

def FuncName.kept : FuncName → Nat
  | .given name => name.utf8ByteSize
  | _ => 0

/-- A function with its names and its body. -/
def Func.kept (func : Func) : Nat :=
  1 + func.imported.elim 0 ImportName.kept + func.label.kept + func.body.elim 0 List.length

/-- A global with its names and its constant expression. -/
def Global.kept (global : Global) : Nat :=
  1 + global.imported.elim 0 ImportName.kept + global.initial.elim 0 List.length

/-- A data segment with its constant expression and its bytes. -/
def DataSegment.kept (segment : DataSegment) : Nat :=
  1 + segment.offset.length + segment.bytes.length

/-- How much a module keeps: one for each type, parameter, function, global and data segment, and the bytes of names,
bodies, constant expressions and segments. -/
def Module.kept (module : Module) : Nat :=
  module.name.elim 0 String.utf8ByteSize + (module.types.toList.map TypeHandle.kept).sum +
    (module.functions.toList.map Func.kept).sum + (module.globals.toList.map Global.kept).sum +
    (module.data.toList.map DataSegment.kept).sum + module.memoryImport.elim 0 ImportName.kept +
    module.elementBytes.length

/-! ### How it grows -/

theorem Func.kept_nameIfAnonymous (func : Func) (name : String) :
    (func.nameIfAnonymous name).kept ≤ func.kept + name.utf8ByteSize := by
  unfold nameIfAnonymous
  split
  · rename_i hlabel
    simp only [kept, hlabel, FuncName.kept]
    omega
  · exact Nat.le_add_right _ _

theorem Func.kept_body (func : Func) (numLocals : Nat) (body : List UInt8) :
    Func.kept { func with numLocals, body := some body } ≤ func.kept + body.length := by
  simp only [kept, Option.elim_some]
  omega

namespace Module

theorem kept_pushType (module : Module) (handle : TypeHandle) :
    kept { module with types := module.types.push handle } = module.kept + handle.kept := by
  simp [kept]
  omega

theorem kept_pushFunction (module : Module) (func : Func) :
    kept { module with functions := module.functions.push func } = module.kept + func.kept := by
  simp [kept]
  omega

theorem kept_pushGlobal (module : Module) (global : Global) :
    kept { module with globals := module.globals.push global } = module.kept + global.kept := by
  simp [kept]
  omega

theorem kept_pushData (module : Module) (segment : DataSegment) :
    kept { module with data := module.data.push segment } = module.kept + segment.kept := by
  simp [kept]
  omega

theorem kept_importMemory (module : Module) (limits : MemoryLimits) (name : ImportName) :
    kept { module with memory := some limits, memoryImport := some name } ≤ module.kept + name.kept := by
  simp only [kept, Option.elim_some]
  omega

theorem kept_elements (module : Module) (count : Nat) (bytes : List UInt8) :
    kept { module with elementCount := count, elementBytes := bytes } ≤ module.kept + bytes.length := by
  simp only [kept]
  omega

theorem sum_modify_le {view : Func → Nat} {change : Func → Func} {growth : Nat}
    (h : ∀ func, view (change func) ≤ view func + growth) (functions : List Func) (index : Nat) :
    ((functions.modify index change).map view).sum ≤ (functions.map view).sum + growth := by
  induction functions generalizing index with
  | nil => simp
  | cons func functions ih =>
    cases index with
    | zero =>
      have hfunc := h func
      simp only [List.modify_zero_cons, List.map_cons, List.sum_cons]
      omega
    | succ index =>
      have hrest := ih index
      simp only [List.modify_succ_cons, List.map_cons, List.sum_cons]
      omega

theorem kept_updateFunction (module : Module) (index : Nat) {change : Func → Func} {growth : Nat}
    (h : ∀ func, (change func).kept ≤ func.kept + growth) :
    (module.updateFunction index change).kept ≤ module.kept + growth := by
  have hsum := sum_modify_le h module.functions.toList index
  simp only [kept, updateFunction, Array.toList_modify]
  omega

end Module

/-! ## What decoding pays -/

/-- What a module keeps while it is decoded. -/
def Decoding.kept (state : Decoding) : Nat :=
  state.draft.module.kept

/-- The bytes that are left, and for a fee of one also what the module keeps. -/
def Decoding.funds (fee : Nat) (state : Decoding) : Nat :=
  fee * state.kept + state.input.funds

namespace Decode

open Decoding (funds)

variable {fee : Nat}

theorem affords_read {program : Read α} {credit : Nat} {left : α → Nat} (h : Affords Reader.funds credit program left) :
    Affords (funds fee) credit (read program) left := by
  intro state value state' hrun
  obtain ⟨input, hread, rfl⟩ := run_read_eq_ok hrun
  have hpaid := h hread
  simp only [funds, Decoding.kept]
  omega

/-- A step that makes the module grow costs the fee for every byte that it grows by. -/
theorem affords_draft (growth : Nat) {step : Drafting α}
    (h : ∀ draft value draft', step draft = .ok value draft' → draft'.module.kept ≤ draft.module.kept + growth) :
    Affords (funds fee) (fee * growth) (draft step) fun _ => 0 := by
  intro state value state' hrun
  obtain ⟨draft', hstep, rfl⟩ := run_draft_eq_ok hrun
  have hpaid := Nat.mul_le_mul_left fee (h _ _ _ hstep)
  rw [Nat.mul_add] at hpaid
  simp only [funds, Decoding.kept]
  omega

theorem affords_typeAt (index : Nat) : Affords (funds fee) 0 (draft (Draft.typeAt index)) fun _ => 0 :=
  affords_draft 0 fun draft _ draft' hstep => by rw [Draft.typeAt_eq_ok hstep]; omega

theorem affords_check (result : Except Error α) : Affords (funds fee) 0 (check result) fun _ => 0 := by
  cases result with
  | ok value => exact .pure (Nat.le_refl 0)
  | error error => exact .throw _ _

theorem affords_times {step : Decode Unit} {gain : Nat} (h : Affords (funds fee) 0 step fun _ => gain) (count : Nat) :
    Affords (funds fee) 0 (times step count) fun _ => gain * count := by
  induction count with
  | zero => exact .pure (Nat.le_refl 0)
  | succ count ih => exact .bind h fun _ => ih.mono (Nat.zero_le _) fun _ => by rw [Nat.mul_succ]; omega

/-! ### Entries -/

section Entries

variable (hfee : fee ≤ 1)

include hfee

/-- A fee of at most one is paid with as many bytes as the module grows by. -/
theorem pays_draft (growth : Nat) {step : Drafting α}
    (h : ∀ draft value draft', step draft = .ok value draft' → draft'.module.kept ≤ draft.module.kept + growth) :
    Affords (funds fee) growth (draft step) fun _ => 0 :=
  (affords_draft growth h).mono (by simpa using Nat.mul_le_mul_right growth hfee) fun _ => Nat.zero_le _

theorem pays_edit {growth : Nat} {change : Module → Module} (h : ∀ module, (change module).kept ≤ module.kept + growth) :
    Affords (funds fee) growth (draft (Draft.edit change)) fun _ => 0 :=
  pays_draft hfee growth fun draft _ _ hstep => by cases hstep; exact h draft.module

theorem pays_pushFunction (func : Func) :
    Affords (funds fee) func.kept (draft (Draft.pushFunction func)) fun _ => 0 :=
  pays_draft hfee _ fun draft _ _ hstep => by cases hstep; exact Nat.le_of_eq (draft.module.kept_pushFunction func)

theorem pays_pushGlobal (global : Global) :
    Affords (funds fee) global.kept (draft (Draft.pushGlobal global)) fun _ => 0 :=
  pays_draft hfee _ fun draft _ _ hstep => by cases hstep; exact Nat.le_of_eq (draft.module.kept_pushGlobal global)

theorem pays_updateFunction (index : Nat) {growth : Nat} {change : Func → Func}
    (h : ∀ func, (change func).kept ≤ func.kept + growth) :
    Affords (funds fee) growth (draft (Draft.updateFunction index change)) fun _ => 0 :=
  pays_draft hfee growth fun draft _ _ hstep => by
    cases Draft.updateFunction_eq_ok hstep
    exact draft.module.kept_updateFunction index h

theorem affords_typeEntry : Affords (funds fee) 0 typeEntry fun _ => 1 := by
  refine .bind (affords_read Binary.affords_funcType) fun type => ?_
  refine (pays_draft hfee (1 + type.params.length) fun draft _ _ hstep => ?_).mono (by omega) fun _ => by omega
  cases hstep
  have hkept := draft.module.kept_pushType (draft.registry.intern type).1
  rw [TypeHandle.kept, (draft.registry.intern_spec type).1] at hkept
  exact Nat.le_of_eq hkept

theorem affords_importEntry (textLimit : Nat) : Affords (funds fee) 0 (importEntry textLimit) fun _ => 1 := by
  refine .bind (affords_read (Reader.affords_text _)) fun module => ?_
  refine .bind (affords_read (Reader.affords_text _)) fun field => ?_
  refine .bind (affords_read Reader.affords_byte) fun byte => .bind (affords_check _) fun kind => ?_
  cases kind with
  | function =>
    refine .bind (affords_read Reader.affords_varU32) fun index => .bind (affords_typeAt _) fun handle => ?_
    have hkept : (Func.ofImport handle ⟨module, field⟩).kept = 1 + (module.utf8ByteSize + field.utf8ByteSize) := rfl
    exact .spend_bind (pays_pushFunction hfee _) (by omega) fun _ => .pure (by omega)
  | table =>
    refine .bind (affords_read Reader.affords_byte) fun _ => ?_
    exact .bind (affords_read Binary.affords_limits) fun _ => .pure (by omega)
  | memory =>
    refine .bind (affords_read Binary.affords_limits) fun limits => ?_
    have himport := pays_edit hfee fun other => other.kept_importMemory limits ⟨module, field⟩
    exact himport.mono (by simp only [ImportName.kept]; omega) fun _ => by simp only [ImportName.kept]; omega
  | global =>
    refine .bind (affords_read Binary.affords_globalType) fun type => ?_
    exact .spend_bind (pays_pushGlobal hfee _) (by simp only [Global.kept, Option.elim, ImportName.kept]; omega)
      fun _ => .pure (by simp only [Global.kept, Option.elim, ImportName.kept]; omega)

theorem affords_globalEntry : Affords (funds fee) 0 globalEntry fun _ => 1 := by
  refine .bind (affords_read Binary.affords_globalType) fun type => ?_
  refine .bind (affords_read ConstExpr.affords_take) fun initial => ?_
  exact .spend_bind (pays_pushGlobal hfee _) (by simp only [Global.kept, Option.elim]; omega)
    fun _ => .pure (by simp only [Global.kept, Option.elim]; omega)

theorem affords_exportEntry (textLimit : Nat) : Affords (funds fee) 0 (exportEntry textLimit) fun _ => 1 := by
  refine .bind (affords_read (Reader.affords_text _)) fun name => .bind (affords_read Reader.affords_byte) fun byte => ?_
  refine .bind (affords_read Reader.affords_varU32) fun index => .bind (affords_check _) fun kind => ?_
  cases kind with
  | function =>
    have hnamed := pays_updateFunction hfee index.toNat fun func => func.kept_nameIfAnonymous name
    exact hnamed.mono (by omega) fun _ => by omega
  | _ => exact .pure (by omega)

theorem affords_functionNameEntry (textLimit : Nat) :
    Affords (funds fee) 0 (functionNameEntry textLimit) fun _ => 1 := by
  refine .bind (affords_read Reader.affords_varU32) fun index => ?_
  refine .bind (affords_read (Reader.affords_text _)) fun name => ?_
  have hnamed := pays_edit hfee fun module => module.kept_updateFunction index.toNat fun func =>
    func.kept_nameIfAnonymous name
  exact hnamed.mono (by omega) fun _ => by omega

theorem affords_dataEntry : Affords (funds fee) 0 dataEntry fun _ => 1 := by
  refine .bind (affords_read Reader.affords_varU32) fun memory => ?_
  refine .bind (affords_read ConstExpr.affords_take) fun offset => ?_
  refine .bind (affords_read Frame.affords_payload) fun bytes => ?_
  exact (pays_edit hfee fun module => Nat.le_of_eq (module.kept_pushData ⟨memory.toNat, offset, bytes⟩)).mono
    (by simp only [DataSegment.kept]; omega) fun _ => by simp only [DataSegment.kept]; omega

theorem affords_bodies (functions : List Nat) :
    Affords (funds fee) 0 (bodies functions) fun _ => functions.length := by
  induction functions with
  | nil => exact .pure (Nat.le_refl 0)
  | cons function functions ih =>
    refine .bind (affords_read Frame.affords_payload) fun payload => ?_
    cases hbody : Binary.funcBody (Reader.ofBytes payload) with
    | error error stopped => exact .throw _ _
    | ok body rest =>
      have hpaid : rest.funds + (body.2.length + 1) ≤ payload.length := Binary.affords_funcBody hbody
      refine .spend_bind (pays_updateFunction hfee function fun func => func.kept_body body.1 body.2) (by omega)
        fun _ => ih.mono (Nat.zero_le _) fun _ => ?_
      rw [List.length_cons]
      omega

/-- The one byte that a function costs is spent on the function, if there is a fee. -/
theorem affords_functionEntry : Affords (funds fee) 0 functionEntry fun _ => 1 - fee := by
  refine .bind (affords_read Reader.affords_varU32) fun index => .bind (affords_typeAt _) fun handle => ?_
  have hpush : Affords (funds fee) (fee * 1) (draft (Draft.pushFunction (.declared handle))) fun _ => 0 :=
    affords_draft 1 fun draft _ _ hstep => by cases hstep; exact Nat.le_of_eq (draft.module.kept_pushFunction _)
  refine .spend_bind hpush (by omega) fun function state _ state' hrun => ?_
  cases hrun
  simp only [funds, Decoding.kept]
  omega

end Entries

end Decode

namespace Form

/-- The sections that start with the number of their entries: types, imports, functions, memories, globals, exports,
bodies and data segments. -/
def counted : List UInt8 :=
  [1, 2, 3, 5, 6, 7, 10, 11]

end Form

/-- The payloads of the frames in some bytes are no longer than these. -/
theorem Frame.sum_payloads (input : List UInt8) :
    ((split input).1.map (·.payload.length)).sum ≤ input.length := by
  fun_induction split input with
  | case1 => exact Nat.le_refl 0
  | case2 id rest error stopped hread => exact Nat.zero_le _
  | case3 id rest payload next hread hlt found fault hsplit ih =>
    have hpaid := affords_payload hread
    rw [hsplit] at ih
    simp only [Reader.funds, Reader.ofBytes] at hpaid
    simp only [List.map_cons, List.sum_cons, List.length_cons] at ih ⊢
    omega

/-! ### Sections -/

namespace Decode

open Decoding (funds)

variable {fee : Nat}

/-- A section starts with a number and pays for what follows. Without a fee a byte remains for each entry. -/
def Counted (fee : Nat) (program : Decode Unit) : Prop :=
  ∃ next : UInt32 → Decode Unit, program = (read Reader.varU32 >>= next) ∧
    ∀ count, Affords (funds fee) 0 (next count) fun _ => (1 - fee) * count.toNat

theorem Counted.of_count {next : UInt32 → Decode Unit}
    (h : ∀ count : UInt32, Affords (funds fee) 0 (next count) fun _ => count.toNat) :
    Counted fee (read Reader.varU32 >>= next) :=
  ⟨next, rfl, fun count => (h count).mono (Nat.le_refl 0) fun _ => by
    simpa using Nat.mul_le_mul_right count.toNat (Nat.sub_le 1 fee)⟩

theorem Counted.vector {step : Decode Unit} (h : Affords (funds fee) 0 step fun _ => 1) : Counted fee (vector step) :=
  .of_count fun count => by simpa using affords_times h count.toNat

theorem Counted.affords {program : Decode Unit} (h : Counted fee program) :
    Affords (funds fee) 0 program fun _ => 0 := by
  obtain ⟨next, rfl, hnext⟩ := h
  exact .bind (affords_read Reader.affords_varU32) fun count => (hnext count).mono (Nat.zero_le _) fun _ => Nat.zero_le _

/-- Without a fee, as many bytes follow the number as it says. -/
theorem Counted.le {program : Decode Unit} (h : Counted 0 program) {state state' : Decoding}
    (hrun : program state = .ok () state') {count : UInt32} {input : Reader}
    (hcount : Reader.varU32 state.input = .ok count input) : count.toNat ≤ input.rest.length := by
  obtain ⟨next, rfl, hnext⟩ := h
  obtain ⟨found, between, hread, hrest⟩ := run_bind_eq_ok hrun
  obtain ⟨input', hread', rfl⟩ := run_read_eq_ok hread
  cases hread'.symm.trans hcount
  have hpaid := hnext count hrest
  simp only [funds, Reader.funds] at hpaid
  omega

section Sections

variable (hfee : fee ≤ 1)

include hfee

theorem counted_memorySection : Counted fee memorySection := by
  refine .of_count fun count => ?_
  split
  · have hlimits : Affords (funds fee) 0 (do let _ ← read Binary.limits) fun _ => 1 :=
      .bind (affords_read Binary.affords_limits) fun _ => .pure (by omega)
    refine .bind (affords_read Binary.affords_limits) fun limits => ?_
    refine .spend_bind (pays_edit hfee fun _ => Nat.le_add_right _ 0) (Nat.zero_le _) fun _ => ?_
    exact (affords_times hlimits (count.toNat - 1)).mono (Nat.zero_le _) fun _ => by omega
  · rename_i hzero
    rw [not_not.1 hzero]
    exact .pure (Nat.le_refl 0)

theorem counted_codeSection : Counted fee codeSection := by
  refine .of_count fun count state _ state' hrun => ?_
  rw [run_get_bind] at hrun
  dsimp only at hrun
  split at hrun
  · cases hrun
  · rename_i hcount
    have hpaid := affords_bodies hfee state.pending hrun
    rw [← not_not.1 hcount] at hpaid
    exact hpaid

/-- The sections that start with the number of their entries. -/
theorem counted_sectionBody (config : Config) {id : UInt8} (h : id ∈ Form.counted) :
    Counted fee (sectionBody config id) := by
  simp only [Form.counted, List.mem_cons, List.not_mem_nil, or_false] at h
  rcases h with rfl | rfl | rfl | rfl | rfl | rfl | rfl | rfl
  · exact .vector (affords_typeEntry hfee)
  · exact .vector (affords_importEntry hfee _)
  · exact ⟨_, rfl, fun count => affords_times (affords_functionEntry hfee) count.toNat⟩
  · exact counted_memorySection hfee
  · exact .vector (affords_globalEntry hfee)
  · exact .vector (affords_exportEntry hfee _)
  · exact counted_codeSection hfee
  · exact .vector (affords_dataEntry hfee)

end Sections

/-- Bytes that a program works through pay for what the module grows by. -/
theorem pays_input {program : Decode Unit} (h : Affords (funds 1) 0 program fun _ => 0) (bytes : List UInt8) :
    Affords Decoding.kept bytes.length
      (do modify fun state => { state with input := .ofBytes bytes }; program) fun _ => 0 := by
  intro state _ state' hrun
  have hprogram : program { state with input := .ofBytes bytes } = .ok () state' := hrun
  have hpaid := h hprogram
  simp only [funds, Decoding.kept, Reader.funds, Reader.ofBytes] at hpaid ⊢
  omega

theorem pays_frames {step : Frame → Decode Unit}
    (h : ∀ frame, Affords Decoding.kept frame.payload.length (step frame) fun _ => 0) (fault : Option Error)
    (list : List Frame) :
    Affords Decoding.kept (list.map (·.payload.length)).sum (frames step fault list) fun _ => 0 := by
  induction list with
  | nil =>
    cases fault with
    | none => exact .pure (Nat.le_refl 0)
    | some error => exact .throw _ _
  | cons frame list ih =>
    refine .spend_bind (h frame) (by simp) fun _ => ?_
    simpa using ih

theorem pays_namePart (textLimit : Nat) (part : Frame) :
    Affords Decoding.kept part.payload.length (namePart textLimit part) fun _ => 0 :=
  .ite _ (pays_input (Counted.vector (affords_functionNameEntry (Nat.le_refl 1) textLimit)).affords part.payload)
    (.pure (Nat.zero_le _))

theorem affords_customSection (textLimit : Nat) : Affords (funds 1) 0 (customSection textLimit) fun _ => 0 := by
  refine .bind (affords_read (Reader.affords_text _)) fun name => ?_
  refine .bind (affords_read Reader.affords_remaining) fun bytes => .ite _ ?_ (.pure (Nat.zero_le _))
  intro state _ state' hrun
  obtain ⟨_, between, hparts, hlast⟩ := run_bind_eq_ok hrun
  cases hlast
  have hpaid := pays_frames (pays_namePart textLimit) _ _ hparts
  have hsum := Frame.sum_payloads bytes
  simp only [funds, Decoding.kept, Reader.funds, Reader.ofBytes, List.length_nil] at hpaid ⊢
  omega

theorem affords_sectionBody (config : Config) (id : UInt8) : Affords (funds 1) 0 (sectionBody config id) fun _ => 0 := by
  by_cases hid : id ∈ Form.counted
  · exact (counted_sectionBody (Nat.le_refl 1) config hid).affords
  · simp only [Form.counted, List.mem_cons, List.not_mem_nil, or_false, not_or] at hid
    obtain ⟨h1, h2, h3, h5, h6, h7, h10, h11⟩ := hid
    have hstart : Affords (funds 1) 0 startSection fun _ => 0 := by
      refine .bind (affords_read Reader.affords_varU32) fun index => ?_
      refine .spend_bind (pays_updateFunction (Nat.le_refl 1) _ fun _ => Nat.le_add_right _ 0) (Nat.zero_le _) fun _ => ?_
      have hedit : Affords (funds 1) 0 (draft (Draft.edit fun module => { module with start := some index.toNat }))
          fun _ => 0 := pays_edit (Nat.le_refl 1) fun _ => Nat.le_refl _
      exact hedit.mono (Nat.zero_le _) fun _ => Nat.zero_le _
    have helements : Affords (funds 1) 0 elementSection fun _ => 0 := by
      refine .bind (affords_read Reader.affords_varU32) fun count => ?_
      refine .bind (affords_read Reader.affords_remaining) fun bytes => ?_
      have hedit := pays_edit (Nat.le_refl 1) fun module => module.kept_elements count.toNat bytes
      exact hedit.mono (by omega) fun _ => Nat.zero_le _
    unfold sectionBody
    rw [if_neg h1, if_neg h2, if_neg h3, if_neg h5, if_neg h6, if_neg h7, if_neg h10, if_neg h11]
    refine .ite _ (affords_customSection _) ?_
    refine .ite _ (.bind (affords_read Reader.affords_remaining) fun _ => .pure (Nat.zero_le _)) ?_
    refine .ite _ hstart (.ite _ helements ?_)
    exact .ite _ (.bind (affords_read Reader.affords_varU32) fun _ => .pure (Nat.zero_le _)) (.throw _ _)

theorem pays_framedSection (config : Config) (frame : Frame) :
    Affords Decoding.kept frame.payload.length (framedSection config frame) fun _ => 0 := by
  intro state _ state' hrun
  exact pays_input (affords_sectionBody config frame.id) frame.payload (framedSection_ok hrun)

/-- Every frame that is worked through without an error is one that its step accepts. -/
theorem exists_run_of_mem {step : Frame → Decode Unit} {fault : Option Error} {list : List Frame} {frame : Frame}
    (hmem : frame ∈ list) {state state' : Decoding} (hrun : frames step fault list state = .ok () state') :
    ∃ before after, step frame before = .ok () after := by
  induction list generalizing state with
  | nil => cases hmem
  | cons first list ih =>
    obtain ⟨done, between, hfirst, hrest⟩ := run_bind_eq_ok hrun
    rcases List.mem_cons.1 hmem with rfl | hlater
    · exact ⟨state, between, hfirst⟩
    · exact ih hlater hrest

end Decode

/-! ## Modules -/

namespace Form

/-- A section that announces more entries than it has bytes left after the number. -/
def overdrawn : Language UInt8 :=
  {word | ∃ id ∈ counted, ∃ count number content, number ∈ u32 count ∧ content.length < count ∧
    word ∈ frame ⟨id, number ++ content⟩}

end Form

namespace Module

/-- What decoding keeps is proportional to its input: the number of types, parameters, functions, globals and data
segments and the bytes of names, bodies, constant expressions and segments are no more than the bytes behind the
header. A section that announces more entries than it has bytes left is refused, whatever stands before and after it.
-/
theorem decode_proportional (config : Config) (registry : TypeRegistry) :
    (∀ bytes module, (Module.decode config registry bytes).1 = .ok module →
      module.kept + Form.header.length ≤ bytes.length) ∧
    ∀ front word inserted rest, word ∈ Form.frames front → inserted ∈ Form.overdrawn →
      ∃ error, (Module.decode config registry (Form.header ++ (word ++ (inserted ++ rest)))).1 = .error error := by
  constructor
  · intro bytes module h
    obtain ⟨word, list, state, rfl, hword, hframes, rfl⟩ := frames_of_decode h
    have hsplit : Frame.split word = (list, none) := by
      rw [← List.append_nil word, Frame.split_append hword, Frame.split, List.append_nil]
    have hpaid := Decode.pays_frames (Decode.pays_framedSection config) none list hframes
    have hsum := Frame.sum_payloads word
    rw [hsplit] at hsum
    have hstart : Decoding.kept { draft := { registry } } = 0 := rfl
    rw [hstart] at hpaid
    simp only [Decoding.kept] at hpaid hsum
    rw [List.length_append]
    omega
  · intro front word inserted rest hword hinserted
    obtain ⟨id, hid, count, number, content, hnumber, hshort, hframe⟩ := hinserted
    cases hdecode : (Module.decode config registry (Form.header ++ (word ++ (inserted ++ rest)))).1 with
    | error error => exact ⟨error, rfl⟩
    | ok module =>
      obtain ⟨state, hsections, -⟩ := sections_of_decode hdecode
      have hsplit : inserted ∈ Form.frames [⟨id, number ++ content⟩] :=
        Form.mem_frames_cons.2 ⟨inserted, hframe, [], Form.mem_frames_nil.2 rfl, List.append_nil _⟩
      have hmem : ⟨id, number ++ content⟩ ∈ (Frame.split (word ++ (inserted ++ rest))).1 := by
        rw [Frame.split_append hword, Frame.split_append hsplit]
        simp
      obtain ⟨before, after, hrun⟩ := Decode.exists_run_of_mem hmem hsections
      have hread : Reader.varU32 (.ofBytes (number ++ content)) = .ok (UInt32.ofNat count) ⟨0 + number.length, content⟩ :=
        Reader.reads_varU32 count number hnumber content trivial 0
      have hle := (Decode.counted_sectionBody (Nat.zero_le 1) config hid).le (Decode.framedSection_ok hrun) hread
      rw [UInt32.toNat_ofNat_of_lt' hnumber.2.2] at hle
      exact absurd hshort (Nat.not_lt.2 hle)

/-- A module of three functions, and a section that announces two functions with one byte left. -/
theorem decode_proportional_sample :
    (∃ module, (Module.decode {} {} unfinished).1 = .ok module ∧ module.functions.size = 3 ∧
      module.kept + Form.header.length ≤ unfinished.length) ∧
    [0x01, 0x04, 0x01, 0x60, 0x00, 0x00] ∈ Form.frames [⟨1, [0x01, 0x60, 0x00, 0x00]⟩] ∧
    [0x03, 0x02, 0x02, 0x00] ∈ Form.overdrawn ∧
    ∃ error, (Module.decode {} {} (Form.header ++ ([0x01, 0x04, 0x01, 0x60, 0x00, 0x00] ++
      ([0x03, 0x02, 0x02, 0x00] ++ [])))).1 = .error error := by
  have hdecode : (Module.decode {} {} unfinished).1.toOption.map (·.functions.size) = some 3 := by decide +kernel
  obtain ⟨module, hmodule, hfunctions⟩ := Option.map_eq_some_iff.1 hdecode
  have h : (Module.decode {} {} unfinished).1 = .ok module := eq_ok_of_toOption hmodule
  have hfront : [0x01, 0x04, 0x01, 0x60, 0x00, 0x00] ∈ Form.frames [⟨1, [0x01, 0x60, 0x00, 0x00]⟩] :=
    Form.append_mem_frames [0x04] (Description.mem_u32 (by decide)) (Form.mem_frames_nil.2 rfl)
  have hinserted : [0x03, 0x02, 0x02, 0x00] ∈ Form.overdrawn :=
    ⟨3, by decide, 2, [0x02], [0x00], Description.mem_u32 (by decide), by decide,
      Form.mem_frame.2 ⟨_, Language.append_mem_mul (a := [0x02]) (Description.mem_u32 (by decide)) rfl, rfl⟩⟩
  have hproportional := decode_proportional {} {}
  exact ⟨⟨module, h, hfunctions, hproportional.1 _ _ h⟩, hfront, hinserted, hproportional.2 _ _ _ [] hfront hinserted⟩

end Module

end WasmEngine
