import WasmEngine.Proofs.Binary.Frames
import WasmEngine.Proofs.Module.Decoding
import WasmEngine.Proofs.Types.Interning

/-!
# Decoding gives back what was encoded

The sections are taken one after the other: `Decode.Advances` says that the words of a form take decoding from one
state to another. The states are put together from what each section adds; interning gives the handles of the types.
-/

namespace WasmEngine

open Description

/-! ## Sections one after the other -/

namespace Decode

variable {config : Config}

/-- Works through the sections that some bytes hold. -/
def sections (config : Config) (bytes : List UInt8) : Decode Unit :=
  frames (framedSection config) (Frame.split bytes).2 (Frame.split bytes).1

/-- Each word of a form takes decoding from one state to another, whatever follows. -/
def Advances (config : Config) (form : Language UInt8) (state state' : Decoding) : Prop :=
  ∀ word ∈ form, ∀ rest input, ∃ input',
    sections config (word ++ rest) (state.reading input) = sections config rest (state'.reading input')

theorem sections_nil (state : Decoding) : sections config [] state = .ok () state := by
  unfold sections
  rw [Frame.split]
  rfl

/-- A section whose bytes are used up. -/
theorem run_framedSection {id : UInt8} {form : Language UInt8} {state state' : Decoding}
    (h : Takes 1 (sectionBody config id) state.reading state'.reading form ()) {content : List UInt8}
    (hcontent : content ∈ form) (input : Reader) :
    framedSection config ⟨id, content⟩ (state.reading input) = .ok () (state'.reading ⟨content.length, []⟩) := by
  have hbody := h content hcontent [] rfl 0
  rw [List.append_nil, Nat.zero_add] at hbody
  have hmodify : (modify fun state => { state with input := .ofBytes content } : Decode PUnit) (state.reading input) =
      .ok ⟨⟩ (state.reading ⟨0, content⟩) :=
    rfl
  unfold framedSection
  rw [run_bind_of_ok hmodify, run_bind_of_ok hbody]
  rfl

namespace Advances

variable {form tail : Language UInt8} {state between state' : Decoding}

theorem one (state : Decoding) : Advances config 1 state state := by
  intro word hword rest input
  rw [(Language.mem_one word).1 hword]
  exact ⟨input, rfl⟩

theorem mul (hfirst : Advances config form state between) (hsecond : Advances config tail between state') :
    Advances config (form * tail) state state' := by
  intro word hword rest input
  obtain ⟨front, hfront, back, hback, rfl⟩ := Language.mem_mul.1 hword
  obtain ⟨input₁, h₁⟩ := hfirst front hfront (back ++ rest) input
  obtain ⟨input₂, h₂⟩ := hsecond back hback rest input₁
  exact ⟨input₂, by rw [List.append_assoc, h₁, h₂]⟩

theorem framed {id : UInt8} (h : Takes 1 (sectionBody config id) state.reading state'.reading form ()) :
    Advances config (Form.framed id form) state state' := by
  intro word hword rest input
  obtain ⟨_, rfl, back, ⟨content, hcontent, hback⟩, rfl⟩ := Language.mem_mul.1 hword
  refine ⟨⟨content.length, []⟩, ?_⟩
  unfold sections
  rw [List.append_assoc, List.singleton_append, Frame.split_cons _ hback]
  exact run_bind_of_ok (run_framedSection h hcontent input)

theorem optional {nothing : Prop} (h : Advances config form state state') (hnothing : nothing → state' = state) :
    Advances config (Form.optional nothing form) state state' := by
  rintro word (hword | ⟨hempty, rfl⟩) rest input
  · exact h word hword rest input
  · rw [hnothing hempty]
    exact ⟨input, rfl⟩

theorem vectorSection {id : UInt8} {items : List (Language UInt8)}
    (h : Takes ⊤ (sectionBody config id) state.reading state'.reading (Form.vector items) ())
    (hnil : items = [] → state' = state) : Advances config (Form.vectorSection id items) state state' :=
  optional (framed h.last) hnil

end Advances

end Decode

/-! ## Handles -/

namespace Decode

theorem exists_handleList (types : List FuncType) (draft : Draft) :
    ∃ (handles : List TypeHandle) (registry : TypeRegistry),
      types.foldl addType draft =
        { registry, module := { draft.module with types := draft.module.types ++ handles.toArray } } ∧
      handles.map TypeHandle.type = types ∧
      (∀ handle ∈ handles, registry.types[handle.index]? = some handle.type) ∧
      draft.registry.Extends registry := by
  induction types generalizing draft with
  | nil => exact ⟨[], draft.registry, by simp, rfl, by simp, fun _ _ hindex => hindex⟩
  | cons type types ih =>
    obtain ⟨htype, hindex, hextends⟩ := draft.registry.intern_spec type
    obtain ⟨handles, registry, hfold, hmap, hhandles, hextends'⟩ := ih (addType draft type)
    refine ⟨(draft.registry.intern type).1 :: handles, registry, ?_, ?_, ?_, hextends.trans hextends'⟩
    · rw [List.foldl_cons, hfold]
      simp [addType]
    · rw [List.map_cons, htype, hmap]
    · intro handle hhandle
      rcases List.mem_cons.1 hhandle with rfl | hhandle
      · rw [htype]
        exact hextends' _ _ hindex
      · exact hhandles handle hhandle

/-- Reading the types of a new module gives a handle of each, which the registry knows. -/
theorem exists_handles (types : List FuncType) (registry : TypeRegistry) :
    ∃ (handles : Fin types.length → TypeHandle) (registry' : TypeRegistry),
      types.foldl addType { registry } = { registry := registry', module := { types := Array.ofFn handles } } ∧
      (∀ index, (handles index).type = types.get index ∧
        registry'.types[(handles index).index]? = some (types.get index)) ∧
      registry.Extends registry' := by
  obtain ⟨list, registry', hfold, rfl, hlist, hextends⟩ := exists_handleList types { registry }
  refine ⟨fun index => list.get (index.cast (List.length_map _)), registry', ?_, fun index => ?_, hextends⟩
  · have htypes : Array.ofFn (fun index : Fin (list.map TypeHandle.type).length =>
        list.get (index.cast (List.length_map _))) = list.toArray :=
      Array.ext (by simp) fun index _ _ => by simp
    rw [hfold, htypes]
    simp
  · have hget : (list.get (index.cast (List.length_map _))).type = (list.map TypeHandle.type).get index := by simp
    exact ⟨hget, hget ▸ hlist _ (List.get_mem _ _)⟩

end Decode

/-! ## The functions -/

namespace Description

section Functions

variable {types : Nat} (handles : Fin types → TypeHandle)

theorem length_imported (imports : List (Import types)) :
    (imports.filterMap (Import.func? handles)).length = (imports.filterMap Import.function?).length := by
  rw [List.length_filterMap_eq_countP, List.length_filterMap_eq_countP]
  simp [Import.func?]

/-- An imported function keeps its name. -/
theorem name_imported {imports : List (Import types)} {func : Func}
    (h : func ∈ imports.filterMap (Import.func? handles)) (name : String) : func.nameIfAnonymous name = func := by
  obtain ⟨entry, -, hentry⟩ := List.mem_filterMap.1 h
  obtain ⟨type, -, rfl⟩ := Option.map_eq_some_iff.1 hentry
  rfl

end Functions

/-- The functions after all sections. -/
theorem functions_eq (description : Description) (handles : Fin description.types.length → TypeHandle) (module : Module)
    (h : module.functions = (description.imports.filterMap (Import.func? handles) ++
      description.functions.map fun function => Func.declared (handles function.type)).toArray) :
    (Decode.addBodies (description.imports.filterMap Import.function?).length description.functions
      (Decode.addExports description.exports module)).functions = (description.funcs handles).toArray := by
  have hlength := length_imported handles description.imports
  refine Array.ext_getElem? fun index => ?_
  simp only [Decode.addBodies, Decode.addExports, h, Array.getElem?_mapIdx, List.getElem?_toArray, funcs]
  by_cases hlt : index < (description.imports.filterMap Import.function?).length
  · rw [List.getElem?_append_left (by omega), List.getElem?_append_left (by omega)]
    cases hfunc : (description.imports.filterMap (Import.func? handles))[index]? with
    | none => rfl
    | some func =>
      have hmem := List.mem_of_getElem? hfunc
      cases description.exports.findSome? (Export.nameOf? index) <;>
        simp [Nat.not_le.2 hlt, name_imported handles hmem]
  · obtain ⟨place, rfl⟩ := Nat.exists_eq_add_of_le (Nat.not_lt.1 hlt)
    rw [List.getElem?_append_right (by omega), List.getElem?_append_right (by omega), hlength, Nat.add_sub_cancel_left,
      List.getElem?_map, List.getElem?_mapIdx]
    cases hfunction : description.functions[place]? with
    | none => rfl
    | some function =>
      cases hname : description.exports.findSome?
          (Export.nameOf? ((description.imports.filterMap Import.function?).length + place)) <;>
        simp [hname, Export.label, Decode.fill, Func.declared, Func.nameIfAnonymous]

/-! ## The memory -/

theorem head?_eq_getLast? {α : Type} {items : List α} (h : items.length ≤ 1) : items.head? = items.getLast? := by
  match items, h with
  | [], _ => rfl
  | [_], _ => rfl

theorem length_memories {types : Nat} (imports : List (Import types)) :
    (imports.filter fun entry => entry.memory?.isSome).length = (imports.filterMap Import.memory?).length := by
  rw [List.length_filterMap_eq_countP, List.countP_eq_length_filter]

/-- The one memory, which may be imported. -/
theorem memory_eq (description : Description) :
    description.memory.or (description.imports.filterMap Import.memory?).getLast? =
      (description.imports.filterMap Import.memory? ++ description.memory.toList).head? := by
  have hunique := description.memory_unique
  rw [head?_eq_getLast? hunique]
  cases description.memory with
  | none => simp
  | some limits => simp

end Description

/-! ## The sections of a description -/

namespace Decode

variable {config : Config} {state : Decoding}

section Sections

variable {types : Nat} {handles : Fin types → TypeHandle}

theorem advances_types (state : Decoding) (list : List FuncType) :
    Advances config (Form.vectorSection 1 (list.map Form.funcType)) state
      { state with draft := list.foldl addType state.draft } := by
  refine .vectorSection (takes_types state list) fun hnil => ?_
  rw [List.map_eq_nil_iff.1 hnil]
  rfl

theorem advances_imports {imports : List (Import types)}
    (hnames : ∀ entry ∈ imports, (Text.Utf8.encode entry.name.module).length ≤ config.textLimit ∧
      (Text.Utf8.encode entry.name.field).length ≤ config.textLimit)
    (htypes : state.draft.module.types = Array.ofFn handles) :
    Advances config (Form.vectorSection 2 (imports.map Import.form)) state
      (state.edit (addImports handles imports)) := by
  refine .vectorSection (takes_imports handles hnames htypes) fun hnil => ?_
  rw [List.map_eq_nil_iff.1 hnil]
  unfold Decoding.edit
  rw [addImports_nil]

theorem advances_functions {functions : List (Function types)}
    (htypes : state.draft.module.types = Array.ofFn handles) :
    Advances config (Form.vectorSection 3 (functions.map fun function => Form.u32 function.type)) state
      (addFunctions handles functions state) := by
  refine .vectorSection (takes_functions handles htypes) fun hnil => ?_
  rw [List.map_eq_nil_iff.1 hnil, addFunctions_nil]

/-- Declared tables are passed over. -/
theorem advances_tables (state : Decoding) : Advances config (Form.optional True (Form.framed 4 ⊤)) state state := by
  refine .optional (.framed fun content _ => ?_) fun _ => rfl
  have htables : Takes 1 (sectionBody config 4) state.reading state.reading {content} () :=
    (takes_read state (Reader.takes_remaining content)).bind_still fun _ => rfl
  exact htables content rfl

theorem advances_memory (state : Decoding) (memory : Option MemoryLimits) :
    Advances config (Form.vectorSection 5 (memory.toList.map Form.limits)) state
      (state.edit fun module => { module with memory := memory.or module.memory }) := by
  refine .vectorSection (takes_memory state memory) fun hnil => ?_
  rw [Option.toList_eq_nil_iff.1 (List.map_eq_nil_iff.1 hnil)]
  rfl

theorem advances_globals (state : Decoding) (globals : List Description.Global) :
    Advances config (Form.vectorSection 6 (globals.map Description.Global.form)) state
      (state.edit (addGlobals globals)) := by
  refine .vectorSection (takes_globals state globals) fun hnil => ?_
  rw [List.map_eq_nil_iff.1 hnil]
  simp [Decoding.edit, addGlobals]

theorem advances_exports {count : Nat} {exports : List (Export count)}
    (hnames : ∀ entry ∈ exports, (Text.Utf8.encode entry.name).length ≤ config.textLimit)
    (hcount : count ≤ state.draft.module.functions.size) :
    Advances config (Form.vectorSection 7 (exports.map Export.form)) state (state.edit (addExports exports)) := by
  refine .vectorSection (takes_exports hnames hcount) fun hnil => ?_
  rw [List.map_eq_nil_iff.1 hnil]
  unfold Decoding.edit
  rw [addExports_nil]

theorem advances_start {count : Nat} (start : Option (Fin count)) (hcount : count ≤ state.draft.module.functions.size)
    (hstart : state.draft.module.start = none) :
    Advances config (start.elim 1 fun start => Form.framed 8 (Form.u32 start)) state
      (state.edit fun module => { module with start := start.map Fin.val }) := by
  cases start with
  | none =>
    have hstate : (state.edit fun module => { module with start := none }) = state := by
      unfold Decoding.edit
      rw [← hstart]
    rw [Option.map_none, hstate]
    exact .one state
  | some start =>
    have hlt : start.val < state.draft.module.functions.size := Nat.lt_of_lt_of_le start.isLt hcount
    exact .framed (takes_start hlt).last

theorem advances_elements {count : Nat} {bytes : List UInt8} (hcount : state.draft.module.elementCount = 0)
    (hbytes : state.draft.module.elementBytes = []) :
    Advances config (Form.optional (count = 0 ∧ bytes = []) (Form.framed 9 (Form.u32 count * {bytes}))) state
      (state.edit fun module => { module with elementCount := count, elementBytes := bytes }) := by
  refine .optional (.framed (takes_elements state count bytes)) ?_
  rintro ⟨rfl, rfl⟩
  unfold Decoding.edit
  rw [← hcount, ← hbytes]

theorem advances_code {functions : List (Function types)} {first : Nat}
    (hpending : state.pending = List.range' first functions.length)
    (hsize : first + functions.length ≤ state.draft.module.functions.size) :
    Advances config (Form.vectorSection 10 (functions.map Function.bodyForm)) state
      { state.edit (addBodies first functions) with pending := [] } := by
  refine .vectorSection (takes_code hpending hsize) fun hnil => ?_
  rw [List.map_eq_nil_iff.1 hnil] at hpending ⊢
  unfold Decoding.edit
  rw [addBodies_nil]
  exact congrArg (fun pending => { state with pending }) hpending.symm

theorem advances_segments (state : Decoding) (segments : List Segment) :
    Advances config (Form.vectorSection 11 (segments.map Segment.form)) state
      (state.edit (addSegments segments)) := by
  refine .vectorSection (takes_segments state segments) fun hnil => ?_
  rw [List.map_eq_nil_iff.1 hnil]
  simp [Decoding.edit, addSegments]

/-- The number of data segments is passed over. -/
theorem advances_dataCount (state : Decoding) :
    Advances config (Form.optional True (Form.framed 12 Form.index)) state state := by
  refine .optional (.framed fun content hcontent => ?_) fun _ => rfl
  obtain ⟨count, hcount⟩ := hcontent
  have hnumber : Takes ⊤ (sectionBody config 12) state.reading state.reading (Form.u32 count) () :=
    (takes_number state count).bind_still fun _ => rfl
  exact hnumber.last content hcount

end Sections

end Decode

namespace Description

variable (description : Description) (handles : Fin description.types.length → TypeHandle) (registry : TypeRegistry)

/-- The state of decoding after the types, the imports and the functions. -/
def declared : Decoding :=
  Decode.addFunctions handles description.functions
    (Decoding.edit { draft := { registry, module := { types := Array.ofFn handles } } }
      (Decode.addImports handles description.imports))

/-- The module after the other declarations. -/
def complete (module : Module) : Module :=
  { Decode.addExports description.exports
      (Decode.addGlobals description.globals { module with memory := description.memory.or module.memory }) with
    start := description.start.map Fin.val
    elementCount := description.elementCount
    elementBytes := description.elementBytes }

theorem functions_declared :
    (description.declared handles registry).draft.module.functions =
      (description.imports.filterMap (Import.func? handles) ++
        description.functions.map fun function => Func.declared (handles function.type)).toArray := by
  simp [declared, Decode.addFunctions, Decode.addImports, Decoding.edit]

theorem pending_declared :
    (description.declared handles registry).pending =
      List.range' (description.imports.filterMap Import.function?).length description.functions.length := by
  simp [declared, Decode.addFunctions, Decode.addImports, Decoding.edit, length_imported]

theorem size_declared :
    (description.declared handles registry).draft.module.functions.size =
      (description.imports.filterMap Import.function?).length + description.functions.length := by
  rw [functions_declared]
  simp [length_imported]

section Sections

variable {config : Config}
  (hnames : ∀ name ∈ description.names, (Text.Utf8.encode name).length ≤ config.textLimit)

include hnames

theorem advances_declarations :
    Decode.Advances config
      (Form.vectorSection 2 (description.imports.map Import.form) *
        (Form.vectorSection 3 (description.functions.map fun function => Form.u32 function.type) *
          Form.optional True (Form.framed 4 ⊤)))
      { draft := { registry, module := { types := Array.ofFn handles } } } (description.declared handles registry) := by
  have hentries (entry : Import description.types.length) (hentry : entry ∈ description.imports) :
      (Text.Utf8.encode entry.name.module).length ≤ config.textLimit ∧
        (Text.Utf8.encode entry.name.field).length ≤ config.textLimit := by
    have hmem (name : String) (hname : name ∈ [entry.name.module, entry.name.field]) : name ∈ description.names :=
      List.mem_append_left _ (List.mem_flatMap.2 ⟨entry, hentry, hname⟩)
    exact ⟨hnames _ (hmem _ (by simp)), hnames _ (hmem _ (by simp))⟩
  exact (Decode.advances_imports hentries rfl).mul ((Decode.advances_functions rfl).mul (Decode.advances_tables _))

/-- Sections 5 to 9 complete what is declared. -/
theorem advances_contents :
    Decode.Advances config
      (Form.vectorSection 5 (description.memory.toList.map Form.limits) *
        (Form.vectorSection 6 (description.globals.map Global.form) *
          (Form.vectorSection 7 (description.exports.map Export.form) *
            (description.start.elim 1 (fun start => Form.framed 8 (Form.u32 start)) *
              Form.optional (description.elementCount = 0 ∧ description.elementBytes = [])
                (Form.framed 9 (Form.u32 description.elementCount * {description.elementBytes}))))))
      (description.declared handles registry) ((description.declared handles registry).edit description.complete) := by
  have hsize := size_declared description handles registry
  have hexports : ∀ entry ∈ description.exports, (Text.Utf8.encode entry.name).length ≤ config.textLimit :=
    fun entry hentry => hnames _ (List.mem_append_right _ (List.mem_map_of_mem hentry))
  refine (Decode.advances_memory _ _).mul ((Decode.advances_globals _ _).mul ?_)
  refine (Decode.advances_exports hexports ?_).mul ((Decode.advances_start description.start ?_ rfl).mul ?_)
  · exact Nat.le_of_eq hsize.symm
  · simp [Decoding.edit, Decode.addExports, Decode.addGlobals, hsize]
  · exact Decode.advances_elements rfl rfl

end Sections

/-- After the bodies and the data the module is what the description means. -/
theorem module_eq :
    Decode.addSegments description.segments
      (Decode.addBodies (description.imports.filterMap Import.function?).length description.functions
        (description.complete (description.declared handles registry).draft.module)) = description.module handles := by
  have hfunctions := functions_eq description handles
    (Decode.addGlobals description.globals
      { (description.declared handles registry).draft.module with
        memory := description.memory.or (description.declared handles registry).draft.module.memory })
    (functions_declared description handles registry)
  have hmemories : (description.imports.filter fun entry => entry.memory?.isSome).length ≤ 1 := by
    have hunique := description.memory_unique
    rw [List.length_append] at hunique
    rw [length_memories]
    omega
  have hmemory : description.memory.or (description.declared handles registry).draft.module.memory =
      (description.imports.filterMap Import.memory? ++ description.memory.toList).head? := by
    rw [← memory_eq]
    simp [declared, Decode.addFunctions, Decode.addImports, Decoding.edit]
  have hmemoryImport : (description.declared handles registry).draft.module.memoryImport =
      (description.imports.filter fun entry => entry.memory?.isSome).head?.map Import.name := by
    rw [head?_eq_getLast? hmemories]
    simp [declared, Decode.addFunctions, Decode.addImports, Decoding.edit]
  unfold Decode.addSegments module
  rw [Module.mk.injEq]
  refine ⟨rfl, rfl, rfl, hfunctions, ?_, ?_, rfl, rfl, rfl, hmemory, hmemoryImport, rfl⟩
  · simp [complete, declared, Decode.addBodies, Decode.addExports, Decode.addGlobals, Decode.addFunctions,
      Decode.addImports, Decoding.edit]
  · simp [complete, declared, Decode.addBodies, Decode.addExports, Decode.addGlobals, Decode.addFunctions,
      Decode.addImports, Decoding.edit]

theorem advances_bodies {config : Config} :
    Decode.Advances config
      (Form.vectorSection 10 (description.functions.map Function.bodyForm) *
        (Form.vectorSection 11 (description.segments.map Segment.form) *
          Form.optional True (Form.framed 12 Form.index)))
      ((description.declared handles registry).edit description.complete)
      { draft := { registry, module := description.module handles } } := by
  have hsize := size_declared description handles registry
  have hpending : ((description.declared handles registry).edit description.complete).pending =
      List.range' (description.imports.filterMap Import.function?).length description.functions.length :=
    pending_declared description handles registry
  refine (Decode.advances_code hpending ?_).mul ((Decode.advances_segments _ _).mul ?_)
  · simp [Decoding.edit, complete, Decode.addExports, Decode.addGlobals, hsize]
  · rw [← module_eq description handles registry]
    exact Decode.advances_dataCount _

end Description

/-! ## A padded encoding -/

namespace Description

theorem mem_u32 {word : List UInt8} {value : Nat}
    (h : Form.IsRun word ∧ word.length ≤ 5 ∧ Leb128.unsignedValue word = value ∧ value < 0x100000000) :
    word ∈ Form.u32 value :=
  ⟨⟨h.1, h.2.1⟩, h.2.2⟩

theorem mem_byte (byte : UInt8) : [byte] ∈ ({[byte]} : Language UInt8) :=
  rfl

theorem mem_text (size : List UInt8) {content : String} (h : size ∈ Form.u32 (Text.Utf8.encode content).length) :
    size ++ Text.Utf8.encode content ∈ Form.text content :=
  Language.append_mem_mul h rfl

theorem mem_vector_singleton (count word : List UInt8) {form : Language UInt8} (hcount : count ∈ Form.u32 1)
    (h : word ∈ form) : count ++ word ∈ Form.vector [form] := by
  have hproduct : word ∈ [form].prod := by
    rw [List.prod_singleton]
    exact h
  exact Language.append_mem_mul hcount hproduct

/-- A section that holds a vector with one entry. -/
theorem mem_vectorSection (number : UInt8) (size count word : List UInt8) {form : Language UInt8}
    (hsize : size ∈ Form.u32 (count ++ word).length) (hcount : count ∈ Form.u32 1) (h : word ∈ form) :
    [number] ++ (size ++ (count ++ word)) ∈ Form.vectorSection number [form] :=
  .inl (Language.append_mem_mul (mem_byte number)
    ⟨_, mem_vector_singleton count word hcount h, Language.append_mem_mul hsize rfl⟩)

/-- The constant 42 with a byte more than it takes. -/
theorem mem_constExpr_padded : [0x41, 0xAA, 0x00, 0x0B] ∈ Form.constExpr := by
  have hnumber : [0xAA, 0x00] ∈ Form.i32 := ⟨⟨by decide, by decide⟩, by decide, by decide⟩
  have hinstruction : [0x41, 0xAA, 0x00] ∈ Form.instruction := by
    simp only [Form.instruction, Language.mem_add]
    exact .inl (.inl (.inl (.inl (.inl (.inl (.inl (Language.append_mem_mul (mem_byte 0x41) hnumber)))))))
  have hstar : [0x41, 0xAA, 0x00] ∈ KStar.kstar Form.instruction :=
    ⟨[[0x41, 0xAA, 0x00]], rfl, fun _ h => List.mem_singleton.1 h ▸ hinstruction⟩
  exact Language.append_mem_mul hstar (mem_byte 0x0B)

/-- An imported and a defined function, which declares more locals than are counted, a memory and a global. -/
def sample : Description where
  types := [⟨some .i32, [.i32]⟩]
  imports := [⟨⟨"m", "f"⟩, .function ⟨0, by decide⟩⟩]
  functions := [⟨⟨0, by decide⟩, [⟨0xFFFFFFFF, .i32⟩, ⟨1, .i64⟩], [0x20, 0x00, 0x0B]⟩]
  memory := some ⟨1, none⟩
  globals := [⟨.i32, true, [0x41, 0xAA, 0x00, 0x0B], mem_constExpr_padded⟩]
  exports := [⟨"g", .function ⟨1, by decide⟩⟩]
  start := none
  elementCount := 0
  elementBytes := []
  segments := []
  memory_unique := by decide

/-- An encoding of the sample in which many numbers are longer than they have to be. -/
def sampleBytes : List UInt8 :=
  Form.header ++
    [0x01, 0x87, 0x80, 0x00, 0x81, 0x00, 0x60, 0x01, 0x7F, 0x01, 0x7F] ++
    [0x02, 0x09, 0x01, 0x01, 0x6D, 0x01, 0x66, 0x00, 0x80, 0x80, 0x00] ++
    [0x03, 0x03, 0x01, 0x80, 0x00] ++
    [0x05, 0x83, 0x00, 0x01, 0x00, 0x01] ++
    [0x06, 0x07, 0x01, 0x7F, 0x01, 0x41, 0xAA, 0x00, 0x0B] ++
    [0x07, 0x08, 0x01, 0x01, 0x67, 0x00, 0x81, 0x80, 0x80, 0x00] ++
    [0x0A, 0x0E, 0x01, 0x0C, 0x02, 0xFF, 0xFF, 0xFF, 0xFF, 0x0F, 0x7F, 0x01, 0x7E, 0x20, 0x00, 0x0B]

theorem mem_body_sample :
    [0x0C, 0x02, 0xFF, 0xFF, 0xFF, 0xFF, 0x0F, 0x7F, 0x01, 0x7E, 0x20, 0x00, 0x0B] ∈
      Form.sized (Form.funcBody [⟨0xFFFFFFFF, .i32⟩, ⟨1, .i64⟩] [0x20, 0x00, 0x0B]) := by
  have hone : [0x01] ∈ Form.u32 1 := mem_u32 (by decide)
  have htwo : [0x02] ∈ Form.u32 2 := mem_u32 (by decide)
  have htwelve : [0x0C] ∈ Form.u32 12 := mem_u32 (by decide)
  have hmany : [0xFF, 0xFF, 0xFF, 0xFF, 0x0F] ∈ Form.u32 0xFFFFFFFF := mem_u32 (by decide)
  have hi32 : [0x7F] ∈ Form.valType .i32 := rfl
  have hi64 : [0x7E] ∈ Form.valType .i64 := rfl
  have hgroups : [0xFF, 0xFF, 0xFF, 0xFF, 0x0F, 0x7F, 0x01, 0x7E] ∈
      [Form.u32 0xFFFFFFFF * Form.valType .i32, Form.u32 1 * Form.valType .i64].prod := by
    rw [List.prod_cons, List.prod_singleton]
    exact Language.append_mem_mul (Language.append_mem_mul hmany hi32) (Language.append_mem_mul hone hi64)
  have hbody : [0x02, 0xFF, 0xFF, 0xFF, 0xFF, 0x0F, 0x7F, 0x01, 0x7E, 0x20, 0x00, 0x0B] ∈
      Form.funcBody [⟨0xFFFFFFFF, .i32⟩, ⟨1, .i64⟩] [0x20, 0x00, 0x0B] :=
    Language.append_mem_mul (Language.append_mem_mul htwo hgroups) rfl
  exact ⟨_, hbody, Language.append_mem_mul htwelve rfl⟩

theorem mem_encodings_sample : sampleBytes ∈ sample.encodings := by
  have hone : [0x01] ∈ Form.u32 1 := mem_u32 (by decide)
  have hi32 : [0x7F] ∈ Form.valType .i32 := rfl
  have htype : [0x60, 0x01, 0x7F, 0x01, 0x7F] ∈ Form.funcType ⟨some .i32, [.i32]⟩ :=
    Language.append_mem_mul (Language.append_mem_mul (mem_byte 0x60) (mem_vector_singleton [0x01] [0x7F] hone hi32))
      (mem_vector_singleton [0x01] [0x7F] hone hi32)
  have htypes := mem_vectorSection 1 [0x87, 0x80, 0x00] [0x81, 0x00] _ (mem_u32 (by decide)) (mem_u32 (by decide)) htype
  have hzero : [0x80, 0x80, 0x00] ∈ Form.u32 0 := mem_u32 (by decide)
  have himport : [0x01, 0x6D, 0x01, 0x66, 0x00, 0x80, 0x80, 0x00] ∈
      (⟨⟨"m", "f"⟩, .function ⟨0, by decide⟩⟩ : Import 1).form :=
    Language.append_mem_mul (Language.append_mem_mul (mem_text [0x01] (mem_u32 (by decide)))
      (mem_text [0x01] (mem_u32 (by decide)))) (Language.append_mem_mul (mem_byte 0x00) hzero)
  have himports := mem_vectorSection 2 [0x09] [0x01] _ (mem_u32 (by decide)) hone himport
  have hindex : [0x80, 0x00] ∈ Form.u32 0 := mem_u32 (by decide)
  have hfunctions := mem_vectorSection 3 [0x03] [0x01] _ (mem_u32 (by decide)) hone hindex
  have hflags : [0x00] ∈ Form.u32 0 := mem_u32 (by decide)
  have hlimits : [0x00, 0x01] ∈ Form.limits ⟨1, none⟩ :=
    ⟨0, by decide, Language.append_mem_mul (Language.append_mem_mul hflags hone) Language.nil_mem_one⟩
  have hmemory := mem_vectorSection 5 [0x83, 0x00] [0x01] _ (mem_u32 (by decide)) hone hlimits
  have hglobalType : [0x7F, 0x01] ∈ Form.globalType .i32 true :=
    ⟨0x01, by decide, by decide, Language.append_mem_mul hi32 (mem_byte 0x01)⟩
  have hglobal : [0x7F, 0x01, 0x41, 0xAA, 0x00, 0x0B] ∈
      (⟨.i32, true, [0x41, 0xAA, 0x00, 0x0B], mem_constExpr_padded⟩ : Global).form :=
    Language.append_mem_mul hglobalType rfl
  have hglobals := mem_vectorSection 6 [0x07] [0x01] _ (mem_u32 (by decide)) hone hglobal
  have htarget : [0x81, 0x80, 0x80, 0x00] ∈ Form.u32 1 := mem_u32 (by decide)
  have hexport : [0x01, 0x67, 0x00, 0x81, 0x80, 0x80, 0x00] ∈ (⟨"g", .function ⟨1, by decide⟩⟩ : Export 2).form :=
    Language.append_mem_mul (mem_text [0x01] (mem_u32 (by decide))) (Language.append_mem_mul (mem_byte 0x00) htarget)
  have hexports := mem_vectorSection 7 [0x08] [0x01] _ (mem_u32 (by decide)) hone hexport
  have hcode := mem_vectorSection 10 [0x0E] [0x01] _ (mem_u32 (by decide)) hone mem_body_sample
  -- The other sections are left out.
  have htables : [] ∈ Form.optional True (Form.framed 4 ⊤) := .inr ⟨trivial, rfl⟩
  have helements : [] ∈ Form.optional (sample.elementCount = 0 ∧ sample.elementBytes = [])
      (Form.framed 9 (Form.u32 sample.elementCount * {sample.elementBytes})) := .inr ⟨⟨rfl, rfl⟩, rfl⟩
  have hsegments : [] ∈ Form.vectorSection 11 [] := .inr ⟨rfl, rfl⟩
  have hdataCount : [] ∈ Form.optional True (Form.framed 12 Form.index) := .inr ⟨trivial, rfl⟩
  have hfront := Language.append_mem_mul (Language.append_mem_mul (Language.append_mem_mul
    (show Form.header ∈ ({Form.header} : Language UInt8) from rfl) htypes) himports) hfunctions
  have hmiddle := Language.append_mem_mul (Language.append_mem_mul (Language.append_mem_mul
    (Language.append_mem_mul hfront htables) hmemory) hglobals) hexports
  have hback := Language.append_mem_mul (Language.append_mem_mul (Language.append_mem_mul hmiddle
    Language.nil_mem_one) helements) hcode
  have hall := Language.append_mem_mul (Language.append_mem_mul hback hsegments) hdataCount
  exact hall

end Description

/-! ## Modules -/

/-- Decoding any encoding of a description gives the module that the description means: the handles of its types stand
for these types in the registry, which keeps what it had. -/
theorem Module.decode_encoding {config : Config} {registry : TypeRegistry} {description : Description}
    {bytes : List UInt8} (hnames : ∀ name ∈ description.names, (Text.Utf8.encode name).length ≤ config.textLimit)
    (h : bytes ∈ description.encodings) :
    ∃ (handles : Fin description.types.length → TypeHandle) (registry' : TypeRegistry),
      Module.decode config registry bytes = (.ok (description.module handles), registry') ∧
      (∀ index, (handles index).type = description.types.get index ∧
        registry'.types[(handles index).index]? = some (description.types.get index)) ∧
      registry.Extends registry' := by
  obtain ⟨handles, registry', hfold, hhandles, hextends⟩ := Decode.exists_handles description.types registry
  refine ⟨handles, registry', ?_, hhandles, hextends⟩
  have htypes : Decode.Advances config (Form.vectorSection 1 (description.types.map Form.funcType))
      { draft := { registry } }
      { draft := { registry := registry', module := { types := Array.ofFn handles } } } := by
    rw [← hfold]
    exact Decode.advances_types _ _
  have hall := htypes.mul ((advances_declarations description handles registry' hnames).mul
    ((advances_contents description handles registry' hnames).mul (advances_bodies description handles registry')))
  unfold encodings at h
  simp only [mul_assoc] at h hall
  obtain ⟨_, rfl, rest, hrest, rfl⟩ := Language.mem_mul.1 h
  have hheader : Binary.header (Reader.ofBytes (Form.header ++ rest)) = .ok () ⟨Form.header.length, rest⟩ :=
    Binary.reads_header Form.header rfl rest trivial 0
  obtain ⟨input, hsections⟩ := hall rest hrest [] (.ofBytes [])
  rw [List.append_nil, Decode.sections_nil] at hsections
  have hframes : Decode.frames (Decode.framedSection config) (Frame.split rest).2 (Frame.split rest).1
      { draft := { registry } } = .ok () (Decoding.reading
        { draft := { registry := registry', module := description.module handles } } input) :=
    hsections
  unfold Module.decode
  rw [hheader]
  dsimp only
  rw [hframes]
  rfl

theorem Module.decode_encoding_padded :
    (∀ name ∈ Description.sample.names, (Text.Utf8.encode name).length ≤ ({} : Config).textLimit) ∧
      Description.sampleBytes ∈ Description.sample.encodings ∧
      ∃ (handles : Fin Description.sample.types.length → TypeHandle) (registry' : TypeRegistry),
        Module.decode {} {} Description.sampleBytes = (.ok (Description.sample.module handles), registry') ∧
        (∀ index, (handles index).type = Description.sample.types.get index ∧
          registry'.types[(handles index).index]? = some (Description.sample.types.get index)) ∧
        TypeRegistry.Extends {} registry' := by
  have hnames : ∀ name ∈ Description.sample.names, (Text.Utf8.encode name).length ≤ ({} : Config).textLimit := by
    decide +kernel
  have hbytes := Description.mem_encodings_sample
  exact ⟨hnames, hbytes, Module.decode_encoding hnames hbytes⟩

end WasmEngine
