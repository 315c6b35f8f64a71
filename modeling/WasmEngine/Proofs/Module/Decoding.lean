import WasmEngine.Proofs.Binary.Reading
import WasmEngine.Proofs.Module.Description

/-!
# Decoding the sections

What each section adds to the draft. A vector is read entry by entry, so the state after some entries is given as a
function of these entries, and one entry takes it to the state with one entry more (`Decode.takes_vector`).
-/

namespace WasmEngine

open Description

variable {α ι : Type}

namespace Decoding

/-- The state of decoding with the cursor put elsewhere. -/
def reading (state : Decoding) (input : Reader) : Decoding :=
  { state with input }

/-- The state of decoding with a changed module. -/
def edit (state : Decoding) (change : Module → Module) : Decoding :=
  { state with draft := { state.draft with module := change state.draft.module } }

end Decoding

namespace Decode

open Takes

section Steps

variable {next form : Language UInt8} {value : α} (state : Decoding)

theorem takes_read {program : Read α} (h : Takes next program id id form value) :
    Takes next (read program) state.reading state.reading form value := by
  intro word hword rest hrest position
  have hread := h word hword rest hrest position
  simp only [id] at hread
  simp [read, Decoding.reading, hread]

theorem takes_number (n : Nat) :
    Takes ⊤ (read Reader.varU32) state.reading state.reading (Form.u32 n) (UInt32.ofNat n) :=
  takes_read state (Reader.reads_varU32 n)

theorem run_draft {step : Drafting α} {draft' : Draft} (h : step state.draft = .ok value draft') (input : Reader) :
    draft step (state.reading input) = .ok value (Decoding.reading { state with draft := draft' } input) := by
  have hstep : step (state.reading input).draft = .ok value draft' := h
  unfold draft
  rw [hstep]
  rfl

end Steps

/-! ## Vectors -/

section Vectors

variable {step : Decode Unit} {form : ι → Language UInt8} {items : List ι} (state : List ι → Decoding)

theorem takes_times
    (h : ∀ done item rest, items = done ++ item :: rest →
      Takes ⊤ step (state done).reading (state (done ++ [item])).reading (form item) ()) :
    Takes ⊤ (times step items.length) (state []).reading (state items).reading (items.map form).prod () := by
  -- The entries that are left are read from the state after those that are done.
  have hrest (rest : List ι) (done : List ι) (hitems : items = done ++ rest) :
      Takes ⊤ (times step rest.length) (state done).reading (state items).reading (rest.map form).prod () := by
    induction rest generalizing done with
    | nil =>
      rw [List.append_nil] at hitems
      rw [hitems]
      exact still fun _ => rfl
    | cons item rest ih =>
      rw [List.map_cons, List.prod_cons]
      refine (h done item rest hitems).bind (ih (done ++ [item]) ?_)
      rw [hitems, List.append_assoc, List.singleton_append]
  exact hrest items [] rfl

theorem takes_vector
    (h : ∀ done item rest, items = done ++ item :: rest →
      Takes ⊤ step (state done).reading (state (done ++ [item])).reading (form item) ()) :
    Takes ⊤ (vector step) (state []).reading (state items).reading (Form.vector (items.map form)) () := by
  unfold Form.vector
  rw [List.length_map]
  refine bind_u32 (takes_number _ _) fun count hcount => ?_
  rw [hcount]
  exact takes_times state h

/-- A vector whose entries change the module: `add` says what some entries add, `addOne` what one adds. -/
theorem takes_vector_edit (add : List ι → Module → Module) (addOne : ι → Module → Module)
    (hnil : ∀ module, add [] module = module)
    (hconcat : ∀ done item module, add (done ++ [item]) module = addOne item (add done module)) {start : Decoding}
    (h : ∀ done item rest, items = done ++ item :: rest →
      Takes ⊤ step (start.edit (add done)).reading ((start.edit (add done)).edit (addOne item)).reading (form item) ()) :
    Takes ⊤ (vector step) start.reading (start.edit (add items)).reading (Form.vector (items.map form)) () := by
  have hvector : Takes ⊤ (vector step) (start.edit (add [])).reading (start.edit (add items)).reading
      (Form.vector (items.map form)) () := by
    refine takes_vector (fun done => start.edit (add done)) fun done item rest hitems => ?_
    have hedit : start.edit (add (done ++ [item])) = (start.edit (add done)).edit (addOne item) := by
      unfold Decoding.edit
      rw [hconcat]
    rw [hedit]
    exact h done item rest hitems
  have hstart : start.edit (add []) = start := by
    unfold Decoding.edit
    rw [hnil]
  rwa [hstart] at hvector

end Vectors

end Decode

/-! ## Building steps -/

namespace Draft

variable {draft : Draft}

theorem run_typeAt {index : Nat} {handle : TypeHandle} (h : draft.module.types[index]? = some handle) :
    typeAt index draft = .ok handle draft := by
  unfold typeAt
  rw [run_get_bind, h]
  rfl

theorem run_updateFunction {index : Nat} (h : index < draft.module.functions.size) (change : Func → Func) :
    updateFunction index change draft =
      .ok () { draft with module := draft.module.updateFunction index change } := by
  unfold updateFunction
  rw [run_get_bind, if_pos h]
  rfl

end Draft

namespace Decode

open Takes

/-! ## Types -/

/-- The draft with a type more. -/
def addType (draft : Draft) (type : FuncType) : Draft :=
  { registry := (draft.registry.intern type).2
    module := { draft.module with types := draft.module.types.push (draft.registry.intern type).1 } }

theorem takes_types (state : Decoding) (types : List FuncType) :
    Takes ⊤ (vector typeEntry) state.reading
      (Decoding.reading { state with draft := types.foldl addType state.draft })
      (Form.vector (types.map Form.funcType)) () := by
  refine takes_vector (fun done => { state with draft := done.foldl addType state.draft }) fun done type rest _ => ?_
  rw [List.foldl_append]
  exact (takes_read _ (Binary.reads_funcType type)).bind_still fun _ => rfl

/-! ## Imports -/

section Imports

variable {types : Nat} (handles : Fin types → TypeHandle)

/-- The module with an import more. -/
def addImport (entry : Import types) (module : Module) : Module :=
  match entry.item with
  | .function type => { module with functions := module.functions.push (.ofImport (handles type) entry.name) }
  | .table _ _ => module
  | .memory limits => { module with memory := some limits, memoryImport := some entry.name }
  | .global type isMutable =>
    { module with globals := module.globals.push { type, isMutable, imported := some entry.name } }

/-- The module with imports more. -/
def addImports (imports : List (Import types)) (module : Module) : Module :=
  { module with
    functions := module.functions ++ (imports.filterMap (Import.func? handles)).toArray
    globals := module.globals ++ (imports.filterMap Import.global?).toArray
    memory := (imports.filterMap Import.memory?).getLast?.or module.memory
    memoryImport := ((imports.filter fun entry => entry.memory?.isSome).getLast?.map Import.name).or module.memoryImport }

theorem addImports_nil (module : Module) : addImports handles [] module = module := by
  simp [addImports]

theorem addImports_concat (imports : List (Import types)) (entry : Import types) (module : Module) :
    addImports handles (imports ++ [entry]) module = addImport handles entry (addImports handles imports module) := by
  obtain ⟨name, item⟩ := entry
  cases item <;>
    simp [addImports, addImport, Import.func?, Import.function?, Import.global?, Import.memory?,
      List.filter_append, List.filterMap_cons]

theorem takes_importEntry {limit : Nat} {entry : Import types}
    (hmodule : (Text.Utf8.encode entry.name.module).length ≤ limit)
    (hfield : (Text.Utf8.encode entry.name.field).length ≤ limit) {state : Decoding}
    (htypes : state.draft.module.types = Array.ofFn handles) :
    Takes ⊤ (importEntry limit) state.reading (state.edit (addImport handles entry)).reading entry.form () := by
  unfold Import.form
  rw [mul_assoc]
  refine (takes_read _ (Reader.reads_text hmodule)).bind ((takes_read _ (Reader.reads_text hfield)).bind ?_)
  obtain ⟨name, item⟩ := entry
  cases item with
  | function type =>
    refine (takes_read _ (Reader.reads_byte _)).bind (still_bind (fun _ => rfl) ?_)
    refine bind_u32_still (takes_number _ _) fun index hindex reader => ?_
    have hhandle : state.draft.module.types[index.toNat]? = some (handles type) := by
      rw [hindex, htypes]
      simp
    rw [run_bind_of_ok (run_draft state (Draft.run_typeAt hhandle) reader)]
    rfl
  | table elementType limits =>
    dsimp only
    rw [mul_assoc]
    refine (takes_read _ (Reader.reads_byte _)).bind (still_bind (fun _ => rfl) ?_)
    refine (takes_read _ (Reader.reads_byte _)).bind ?_
    exact (takes_read _ (Binary.reads_limits limits)).bind_still fun _ => rfl
  | memory limits =>
    refine (takes_read _ (Reader.reads_byte _)).bind (still_bind (fun _ => rfl) ?_)
    exact (takes_read _ (Binary.reads_limits limits)).bind_still fun _ => rfl
  | global type isMutable =>
    refine (takes_read _ (Reader.reads_byte _)).bind (still_bind (fun _ => rfl) ?_)
    exact (takes_read _ (Binary.reads_globalType type isMutable)).bind_still fun _ => rfl

theorem takes_imports {limit : Nat} {imports : List (Import types)}
    (hnames : ∀ entry ∈ imports, (Text.Utf8.encode entry.name.module).length ≤ limit ∧
      (Text.Utf8.encode entry.name.field).length ≤ limit) {state : Decoding}
    (htypes : state.draft.module.types = Array.ofFn handles) :
    Takes ⊤ (vector (importEntry limit)) state.reading (state.edit (addImports handles imports)).reading
      (Form.vector (imports.map Import.form)) () := by
  refine takes_vector_edit (addImports handles) (addImport handles) (addImports_nil handles) (addImports_concat handles)
    fun done entry rest himports => ?_
  obtain ⟨hmodule, hfield⟩ := hnames entry (by simp [himports])
  exact takes_importEntry handles hmodule hfield htypes

end Imports

/-! ## Functions -/

section Functions

variable {types : Nat} (handles : Fin types → TypeHandle)

/-- The state with defined functions more, which wait for their bodies. -/
def addFunctions (functions : List (Function types)) (state : Decoding) : Decoding :=
  { state.edit fun module =>
      { module with
        functions := module.functions ++ (functions.map fun function => Func.declared (handles function.type)).toArray }
    with
    pending := state.pending ++ List.range' state.draft.module.functions.size functions.length }

theorem addFunctions_nil (state : Decoding) : addFunctions handles [] state = state := by
  simp [addFunctions, Decoding.edit]

/-- One function more waits for its body. -/
theorem addFunctions_concat (functions : List (Function types)) (function : Function types) (state : Decoding) :
    addFunctions handles (functions ++ [function]) state =
      { (addFunctions handles functions state).edit fun module =>
          { module with functions := module.functions.push (.declared (handles function.type)) }
        with
        pending := (addFunctions handles functions state).pending ++
          [(addFunctions handles functions state).draft.module.functions.size] } := by
  have hrange : List.range' state.draft.module.functions.size (functions.length + 1) =
      List.range' state.draft.module.functions.size functions.length ++
        [state.draft.module.functions.size + functions.length] := by
    rw [List.range'_concat, Nat.one_mul]
  simp [addFunctions, Decoding.edit, hrange]

theorem takes_functions {functions : List (Function types)} {state : Decoding}
    (htypes : state.draft.module.types = Array.ofFn handles) :
    Takes ⊤ (vector functionEntry) state.reading (addFunctions handles functions state).reading
      (Form.vector (functions.map fun function => Form.u32 function.type)) () := by
  have hvector : Takes ⊤ (vector functionEntry) (addFunctions handles [] state).reading
      (addFunctions handles functions state).reading
      (Form.vector (functions.map fun function => Form.u32 function.type)) () := by
    refine takes_vector (fun done => addFunctions handles done state) fun done function rest _ => ?_
    refine bind_u32_still (takes_number _ _) fun index hindex reader => ?_
    have hhandle : (addFunctions handles done state).draft.module.types[index.toNat]? = some (handles function.type) := by
      rw [hindex]
      change state.draft.module.types[function.type.val]? = _
      rw [htypes]
      simp
    rw [run_bind_of_ok (run_draft _ (Draft.run_typeAt hhandle) reader), addFunctions_concat]
    rfl
  rwa [addFunctions_nil] at hvector

end Functions

/-! ## Memory, globals and data -/

theorem takes_memory (state : Decoding) (memory : Option MemoryLimits) :
    Takes ⊤ memorySection state.reading
      (state.edit fun module => { module with memory := memory.or module.memory }).reading
      (Form.vector (memory.toList.map Form.limits)) () := by
  unfold Form.vector
  rw [List.length_map]
  refine bind_u32 (takes_number _ _) fun count hcount => ?_
  cases memory with
  | none =>
    have hzero : count = 0 := UInt32.toNat_inj.1 hcount
    rw [hzero, if_neg (by simp)]
    exact still fun _ => rfl
  | some limits =>
    have hone : count = 1 := UInt32.toNat_inj.1 hcount
    rw [hone, if_pos (by decide)]
    simp only [Option.toList_some, List.map_cons, List.map_nil, List.prod_singleton]
    exact (takes_read _ (Binary.reads_limits limits)).bind_still fun _ => rfl

/-- The module with defined globals more. -/
def addGlobals (globals : List Description.Global) (module : Module) : Module :=
  { module with globals := module.globals ++ (globals.map Description.Global.defined).toArray }

theorem takes_globals (state : Decoding) (globals : List Description.Global) :
    Takes ⊤ (vector globalEntry) state.reading (state.edit (addGlobals globals)).reading
      (Form.vector (globals.map Description.Global.form)) () := by
  refine takes_vector_edit addGlobals (fun global module => { module with globals := module.globals.push global.defined })
    (fun _ => by simp [addGlobals]) (fun _ _ _ => by simp [addGlobals]) fun done global rest _ => ?_
  refine (takes_read _ (Binary.reads_globalType _ _)).bind ?_
  exact (takes_read _ (ConstExpr.reads_take global.initial_mem)).bind_still fun _ => rfl

/-- The module with data segments more. -/
def addSegments (segments : List Segment) (module : Module) : Module :=
  { module with data := module.data ++ (segments.map Segment.toDataSegment).toArray }

theorem takes_segments (state : Decoding) (segments : List Segment) :
    Takes ⊤ (vector dataEntry) state.reading (state.edit (addSegments segments)).reading
      (Form.vector (segments.map Segment.form)) () := by
  refine takes_vector_edit addSegments
    (fun segment module => { module with data := module.data.push segment.toDataSegment })
    (fun _ => by simp [addSegments]) (fun _ _ _ => by simp [addSegments]) fun done segment rest _ => ?_
  unfold Segment.form
  rw [mul_assoc]
  refine bind_u32 (takes_number _ _) fun index hindex => (takes_read _ (ConstExpr.reads_take segment.offset_mem)).bind ?_
  refine (takes_read _ (Frame.reads_payload _)).bind_still fun _ => ?_
  rw [hindex]
  rfl

/-! ## Exports, the start function and elements -/

theorem mapIdx_same (functions : Array Func) : functions.mapIdx (fun _ func => func) = functions :=
  Array.ext (by simp) fun _ _ _ => by simp

section Exports

variable {count : Nat}

/-- The module with an export more. -/
def addExport (entry : Export count) (module : Module) : Module :=
  match entry.item with
  | .function index => module.updateFunction index (·.nameIfAnonymous entry.name)
  | _ => module

/-- The module with exports more. -/
def addExports (exports : List (Export count)) (module : Module) : Module :=
  { module with
    functions := module.functions.mapIdx fun index func =>
      (exports.findSome? (Export.nameOf? index)).elim func func.nameIfAnonymous }

theorem addExports_nil (module : Module) : addExports ([] : List (Export count)) module = module := by
  simp [addExports, mapIdx_same]

theorem nameIfAnonymous_twice (func : Func) (first second : String) :
    (func.nameIfAnonymous first).nameIfAnonymous second = func.nameIfAnonymous first := by
  unfold Func.nameIfAnonymous
  by_cases h : func.label = .anonymous
  · simp [h]
  · simp [h]

theorem addExports_concat (exports : List (Export count)) (entry : Export count) (module : Module) :
    addExports (exports ++ [entry]) module = addExport entry (addExports exports module) := by
  obtain ⟨name, item⟩ := entry
  cases item with
  | function target =>
    have hfunctions : (addExports (exports ++ [⟨name, .function target⟩]) module).functions =
        (addExports exports module).functions.modify target (·.nameIfAnonymous name) := by
      refine Array.ext_getElem? fun index => ?_
      by_cases h : target.val = index
      · cases hfirst : exports.findSome? (Export.nameOf? index) <;>
          simp [addExports, List.findSome?_append, Export.nameOf?, Array.getElem?_modify, h, hfirst,
            Function.comp_def, nameIfAnonymous_twice]
      · simp [addExports, List.findSome?_append, Export.nameOf?, Array.getElem?_modify, h]
    exact congrArg (fun functions => { module with functions }) hfunctions
  | table index => simp [addExports, addExport, List.findSome?_append, Export.nameOf?]
  | memory index => simp [addExports, addExport, List.findSome?_append, Export.nameOf?]
  | global index => simp [addExports, addExport, List.findSome?_append, Export.nameOf?]

theorem takes_exportEntry {limit : Nat} {entry : Export count} (hname : (Text.Utf8.encode entry.name).length ≤ limit)
    {state : Decoding} (hcount : count ≤ state.draft.module.functions.size) :
    Takes ⊤ (exportEntry limit) state.reading (state.edit (addExport entry)).reading entry.form () := by
  unfold Export.form
  refine (takes_read _ (Reader.reads_text hname)).bind ?_
  obtain ⟨name, item⟩ := entry
  cases item with
  | function target =>
    have htarget : target.val < state.draft.module.functions.size := Nat.lt_of_lt_of_le target.isLt hcount
    refine (takes_read _ (Reader.reads_byte _)).bind (bind_u32_still (takes_number _ _) fun index hindex reader => ?_)
    rw [hindex]
    exact run_draft state (Draft.run_updateFunction htarget _) reader
  | table index =>
    exact (takes_read _ (Reader.reads_byte _)).bind (bind_u32_still (takes_number _ _) fun _ _ _ => rfl)
  | memory index =>
    exact (takes_read _ (Reader.reads_byte _)).bind (bind_u32_still (takes_number _ _) fun _ _ _ => rfl)
  | global index =>
    exact (takes_read _ (Reader.reads_byte _)).bind (bind_u32_still (takes_number _ _) fun _ _ _ => rfl)

theorem takes_exports {limit : Nat} {exports : List (Export count)}
    (hnames : ∀ entry ∈ exports, (Text.Utf8.encode entry.name).length ≤ limit) {state : Decoding}
    (hcount : count ≤ state.draft.module.functions.size) :
    Takes ⊤ (vector (exportEntry limit)) state.reading (state.edit (addExports exports)).reading
      (Form.vector (exports.map Export.form)) () := by
  refine takes_vector_edit addExports addExport addExports_nil addExports_concat fun done entry rest hexports => ?_
  refine takes_exportEntry (hnames entry (by simp [hexports])) ?_
  simpa [Decoding.edit, addExports] using hcount

end Exports

theorem updateFunction_id (module : Module) (index : Nat) : module.updateFunction index id = module := by
  have hsame : module.functions.modify index id = module.functions :=
    Array.ext (by simp) fun _ _ _ => by simp [Array.getElem_modify]
  simp [Module.updateFunction, hsame]

theorem takes_start {state : Decoding} {index : Nat} (h : index < state.draft.module.functions.size) :
    Takes ⊤ startSection state.reading (state.edit fun module => { module with start := some index }).reading
      (Form.u32 index) () := by
  refine bind_u32_still (takes_number _ _) fun index' hindex reader => ?_
  rw [hindex, run_bind_of_ok (run_draft _ (Draft.run_updateFunction h id) reader), updateFunction_id]
  rfl

theorem takes_elements (state : Decoding) (count : Nat) (bytes : List UInt8) :
    Takes 1 elementSection state.reading
      (state.edit fun module => { module with elementCount := count, elementBytes := bytes }).reading
      (Form.u32 count * {bytes}) () := by
  refine bind_u32 (takes_number _ _) fun count' hcount => ?_
  refine (takes_read _ (Reader.takes_remaining bytes)).bind_still fun _ => ?_
  rw [hcount]
  rfl

/-! ## Bodies -/

section Bodies

variable {types : Nat}

/-- The function with its body. -/
def fill (function : Function types) (func : Func) : Func :=
  { func with numLocals := function.numLocals, body := some function.code }

/-- The module with the bodies of its functions from the index `first` on. -/
def addBodies (first : Nat) (functions : List (Function types)) (module : Module) : Module :=
  { module with
    functions := module.functions.mapIdx fun index func =>
      if first ≤ index then functions[index - first]?.elim func (fill · func) else func }

theorem addBodies_nil (first : Nat) (module : Module) :
    addBodies first ([] : List (Function types)) module = module := by
  simp [addBodies, mapIdx_same]

theorem addBodies_cons (first : Nat) (function : Function types) (functions : List (Function types)) (module : Module) :
    addBodies first (function :: functions) module =
      addBodies (first + 1) functions (module.updateFunction first (fill function)) := by
  have hfunctions : (addBodies first (function :: functions) module).functions =
      (addBodies (first + 1) functions (module.updateFunction first (fill function))).functions := by
    refine Array.ext_getElem? fun index => ?_
    simp only [addBodies, Module.updateFunction, Array.getElem?_mapIdx, Array.getElem?_modify]
    rcases Nat.lt_trichotomy index first with h | rfl | h
    · simp [Nat.not_le.2 h, Nat.ne_of_gt h, show ¬first + 1 ≤ index by omega]
    · cases module.functions[index]? <;> simp
    · obtain ⟨gap, rfl⟩ := Nat.exists_eq_add_of_lt h
      simp [show first ≤ first + gap + 1 by omega, show first + gap + 1 - first = gap + 1 by omega,
        show first + gap + 1 - (first + 1) = gap by omega, show first ≠ first + gap + 1 by omega]
  exact congrArg (fun functions => { module with functions }) hfunctions

theorem takes_bodies {functions : List (Function types)} {first : Nat} {state : Decoding}
    (h : first + functions.length ≤ state.draft.module.functions.size) :
    Takes ⊤ (bodies (List.range' first functions.length)) state.reading
      (state.edit (addBodies first functions)).reading (functions.map Function.bodyForm).prod () := by
  induction functions generalizing first state with
  | nil =>
    have hstate : state.edit (addBodies first ([] : List (Function types))) = state := by
      unfold Decoding.edit
      rw [addBodies_nil]
    rw [hstate]
    exact still fun _ => rfl
  | cons function functions ih =>
    rw [List.length_cons] at h
    have hedit : state.edit (addBodies first (function :: functions)) =
        (state.edit fun module => module.updateFunction first (fill function)).edit
          (addBodies (first + 1) functions) := by
      unfold Decoding.edit
      rw [addBodies_cons]
    have hsize : (state.edit fun module => module.updateFunction first (fill function)).draft.module.functions.size =
        state.draft.module.functions.size := by
      simp [Decoding.edit, Module.updateFunction]
    rw [List.length_cons, List.range'_succ, List.map_cons, List.prod_cons, hedit]
    refine sized fun content hcontent => (takes_read _ (Frame.reads_payload content)).bind ?_
    have hbody := Binary.takes_funcBody function.groups function.code content hcontent [] rfl 0
    simp only [List.append_nil, id] at hbody
    unfold Reader.ofBytes
    rw [hbody]
    have hupdate : first < state.draft.module.functions.size := by omega
    have hroom : first + 1 + functions.length ≤
        (state.edit fun module => module.updateFunction first (fill function)).draft.module.functions.size := by
      omega
    exact still_bind (fun reader => run_draft state (Draft.run_updateFunction hupdate _) reader) (ih hroom)

theorem takes_code {functions : List (Function types)} {first : Nat} {state : Decoding}
    (hpending : state.pending = List.range' first functions.length)
    (h : first + functions.length ≤ state.draft.module.functions.size) :
    Takes ⊤ codeSection state.reading
      (Decoding.reading { state.edit (addBodies first functions) with pending := [] })
      (Form.vector (functions.map Function.bodyForm)) () := by
  unfold Form.vector
  rw [List.length_map]
  have hbodies : Takes ⊤ (bodies (List.range' first functions.length))
      (Decoding.reading { state with pending := [] })
      (Decoding.reading { state.edit (addBodies first functions) with pending := [] })
      (functions.map Function.bodyForm).prod () :=
    @takes_bodies types functions first { state with pending := [] } h
  have hrest : Takes ⊤ (do modify fun state => { state with pending := [] }; bodies (List.range' first functions.length))
      state.reading (Decoding.reading { state.edit (addBodies first functions) with pending := [] })
      (functions.map Function.bodyForm).prod () :=
    still_bind (fun _ => rfl) hbodies
  refine bind_u32 (takes_number _ _) fun count hcount => get_bind (fun reader => ?_) hrest
  have hread : (state.reading reader).pending = List.range' first functions.length := hpending
  dsimp only
  rw [hread, hcount, List.length_range', if_neg (by simp)]

end Bodies

end Decode

end WasmEngine
