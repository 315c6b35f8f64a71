import WasmEngine.Proofs.Module.Bodies

/-!
# Modules that were never loaded

Functions get their entries in machines, and tables are filled there. Modules that are built or decoded have functions
without entries and empty tables (`Draft.Added`).
-/

namespace WasmEngine

/-- None of some functions has an entry. -/
def Fresh (functions : Array Func) : Prop :=
  ∀ (index : Nat) (func : Func), functions[index]? = some func → func.code = none

namespace Fresh

variable {functions : Array Func}

theorem empty : Fresh #[] := by
  intro index func h
  simp at h

theorem push (h : Fresh functions) {func : Func} (hcode : func.code = none) : Fresh (functions.push func) := by
  intro index other hother
  rw [Array.getElem?_push] at hother
  split at hother
  · cases hother
    exact hcode
  · exact h index other hother

theorem modify (h : Fresh functions) (index : Nat) {change : Func → Func}
    (hchange : ∀ func, (change func).code = func.code) : Fresh (functions.modify index change) := by
  intro other func hfunc
  rw [Array.getElem?_modify] at hfunc
  split at hfunc
  · obtain ⟨old, hold, rfl⟩ := Option.map_eq_some_iff.1 hfunc
    exact (hchange old).trans (h other old hold)
  · exact h other func hfunc

end Fresh

theorem Func.code_nameIfAnonymous (func : Func) (name : String) : (func.nameIfAnonymous name).code = func.code := by
  unfold Func.nameIfAnonymous
  split <;> rfl

/-! ## Building -/

/-- The element segments of a module, and what they are read into. -/
structure ElementState where
  count : Nat := 0
  bytes : List UInt8 := []
  table : Array (Option Nat) := #[]

def Module.elements (module : Module) : ElementState :=
  ⟨module.elementCount, module.elementBytes, module.table⟩

/-- What an item does to the element segments of a module. -/
def BuildItem.addElements : BuildItem → ElementState → ElementState
  | .elements table offset functions, state =>
    if 0x100000000 ≤ functions.length then state
    else
      { state with
        count := state.count + 1
        bytes := state.bytes ++ Draft.encodeElements table offset functions }
  | _, state => state

/-- The signature in an item, if there is one. -/
def BuildItem.signature? : BuildItem → Option String
  | .type signature => some signature
  | .importFunction _ signature => some signature
  | .function signature _ _ => some signature
  | _ => none

theorem BuildItem.addElements_of_signature? {item : BuildItem} {signature : String}
    (h : item.signature? = some signature) (state : ElementState) : item.addElements state = state := by
  cases item <;> first | rfl | cases h

namespace Draft

/-- A type has a place in a list of types, at which it was found or which it is given. -/
inductive Declares (types : Array TypeHandle) (handle : TypeHandle) : Nat → Array TypeHandle → Prop where
  | found {index : Nat} {other : TypeHandle} (hother : types[index]? = some other)
      (hsame : other.index = handle.index) : Declares types handle index types
  | added (hnew : ∀ other ∈ types, other.index ≠ handle.index) : Declares types handle types.size (types.push handle)

/-- What becomes of an item. -/
inductive Added (limit : Nat) (draft : Draft) : BuildItem → EStateM.Result Error Draft (Option Nat) → Prop where
  /-- The signature cannot be read. -/
  | refused {item : BuildItem} {signature : String} {error : Error} (hitem : item.signature? = some signature)
      (hread : FuncType.ofSignature? limit signature = .error error) : Added limit draft item (.error error draft)
  /-- The number of functions has more than 32 bits. -/
  | overlong {table : Nat} {offset : List UInt8} {functions : List Nat} (hmany : 0x100000000 ≤ functions.length) :
      Added limit draft (.elements table offset functions) (.error .tableOverflow draft)
  | type {signature : String} {type : FuncType} {index : Nat} {types : Array TypeHandle}
      (hread : FuncType.ofSignature? limit signature = .ok type)
      (hdeclares : Declares draft.module.types (draft.registry.intern type).1 index types) :
      Added limit draft (.type signature)
        (.ok (some index) ⟨(draft.registry.intern type).2, { draft.module with types }⟩)
  | function {item : BuildItem} {signature : String} {type : FuncType} {index : Nat} {types : Array TypeHandle}
      {func : Func} (hitem : item.signature? = some signature) (hother : ∀ text, item ≠ .type text)
      (hread : FuncType.ofSignature? limit signature = .ok type)
      (hdeclares : Declares draft.module.types (draft.registry.intern type).1 index types)
      (htype : func.type = (draft.registry.intern type).1) (hcode : func.code = none) :
      Added limit draft item (.ok (some draft.module.functions.size)
        ⟨(draft.registry.intern type).2,
          { draft.module with types, functions := draft.module.functions.push func }⟩)
  /-- The item has nothing to do with types. -/
  | edited {item : BuildItem} {result : Option Nat} {module : Module} (hitem : item.signature? = none)
      (htypes : module.types = draft.module.types) (hhandles : module.handles = draft.module.handles)
      (hfresh : Fresh draft.module.functions → Fresh module.functions) (howner : module.owner = draft.module.owner)
      (helements : module.elements = item.addElements draft.module.elements) :
      Added limit draft item (.ok result { draft with module })

theorem typeIndex_declares (handle : TypeHandle) (draft : Draft) :
    ∃ index types, Declares draft.module.types handle index types ∧
      typeIndex handle draft = .ok index { draft with module := { draft.module with types } } := by
  unfold typeIndex
  rw [run_get_bind]
  cases hfind : draft.module.types.findIdx? (fun other => other.index = handle.index) with
  | some index =>
    obtain ⟨hlt, hfound, -⟩ := Array.findIdx?_eq_some_iff_getElem.1 hfind
    exact ⟨index, _, .found (Array.getElem?_eq_getElem hlt) (of_decide_eq_true hfound), rfl⟩
  | none =>
    exact ⟨_, _, .added fun other hmem => of_decide_eq_false (Array.findIdx?_eq_none_iff.1 hfind other hmem), rfl⟩

theorem added (limit : Nat) (item : BuildItem) (draft : Draft) : Added limit draft item (add limit item draft) := by
  -- Whatever follows on the declaration of a type, it is done only if the signature can be read.
  have hsigned {item : BuildItem} {signature : String} {next : TypeHandle → Nat → Drafting (Option Nat)}
      (hitem : item.signature? = some signature)
      (hnext : ∀ {type index types}, FuncType.ofSignature? limit signature = .ok type →
        Declares draft.module.types (draft.registry.intern type).1 index types →
          Added limit draft item (next (draft.registry.intern type).1 index
            ⟨(draft.registry.intern type).2, { draft.module with types }⟩)) :
      Added limit draft item ((do
        let handle ← parseSignature limit signature
        let index ← typeIndex handle
        next handle index) draft) := by
    cases hread : FuncType.ofSignature? limit signature with
    | error error =>
      have hparse : parseSignature limit signature draft = .error error draft := by
        simp only [parseSignature, TypeRegistry.parse, hread]
      rw [run_bind_of_error hparse]
      exact .refused hitem hread
    | ok type =>
      have hparse : parseSignature limit signature draft =
          .ok (draft.registry.intern type).1 { draft with registry := (draft.registry.intern type).2 } := by
        simp only [parseSignature, TypeRegistry.parse, hread]
      obtain ⟨index, types, hdeclares, hindex⟩ := typeIndex_declares (draft.registry.intern type).1
        { draft with registry := (draft.registry.intern type).2 }
      rw [run_bind_of_ok hparse, run_bind_of_ok hindex]
      exact hnext hread hdeclares
  cases item with
  | type signature => exact hsigned rfl .type
  | importFunction name signature =>
    exact hsigned rfl fun hread hdeclares => .function rfl (fun _ h => by cases h) hread hdeclares rfl rfl
  | function signature numLocals body =>
    exact hsigned rfl fun hread hdeclares => .function rfl (fun _ h => by cases h) hread hdeclares rfl rfl
  | exportFunction function name =>
    refine .edited rfl rfl (draft.module.handles_updateFunction function fun func => ?_) (fun hfresh => ?_) rfl rfl
    · exact (func.facet_nameIfAnonymous name).2
    · exact hfresh.modify function fun func => func.code_nameIfAnonymous name
  | elements table offset functions =>
    simp only [add]
    by_cases hmany : 0x100000000 ≤ functions.length
    · simp only [if_pos hmany]
      exact .overlong hmany
    · simp only [if_neg hmany]
      exact .edited rfl rfl rfl id rfl (if_neg hmany).symm
  | _ => exact .edited rfl rfl rfl id rfl rfl

/-- A draft after an item: no function gets an entry, the module goes to no machine, and the item says what the element
segments are. -/
structure Adds (item : BuildItem) (draft draft' : Draft) : Prop where
  fresh : Fresh draft.module.functions → Fresh draft'.module.functions
  owner : draft'.module.owner = draft.module.owner
  elements : draft'.module.elements = item.addElements draft.module.elements

theorem keeps_add (limit : Nat) (item : BuildItem) : Keeps (Adds item) (add limit item) := by
  intro draft
  have hadded := added limit item draft
  generalize add limit item draft = result at hadded ⊢
  cases hadded with
  | refused hitem hread => exact ⟨id, rfl, (BuildItem.addElements_of_signature? hitem _).symm⟩
  | overlong hmany => exact ⟨id, rfl, (if_pos hmany).symm⟩
  | type hread hdeclares => exact ⟨id, rfl, rfl⟩
  | function hitem hother hread hdeclares htype hcode =>
    exact ⟨fun hfresh => hfresh.push hcode, rfl, (BuildItem.addElements_of_signature? hitem _).symm⟩
  | edited hitem htypes hhandles hfresh howner helements => exact ⟨hfresh, howner, helements⟩

/-- Building a module gives no function an entry and puts it into no machine, and its element segments are those of the
items. -/
theorem adds_addAll (limit : Nat) (items : List BuildItem) (draft : Draft) :
    (Fresh draft.module.functions → Fresh (addAll limit items draft).2.module.functions) ∧
      (addAll limit items draft).2.module.owner = draft.module.owner ∧
      (addAll limit items draft).2.module.elements =
        items.foldl (fun state item => item.addElements state) draft.module.elements := by
  induction items generalizing draft with
  | nil => exact ⟨id, rfl, rfl⟩
  | cons item items ih =>
    have hadded := keeps_add limit item draft
    have hnext (draft' : Draft) (h : Adds item draft draft') :
        (Fresh draft.module.functions → Fresh (addAll limit items draft').2.module.functions) ∧
          (addAll limit items draft').2.module.owner = draft.module.owner ∧
          (addAll limit items draft').2.module.elements =
            (item :: items).foldl (fun state item => item.addElements state) draft.module.elements := by
      obtain ⟨hfresh, howner, helements⟩ := ih draft'
      rw [List.foldl_cons, ← h.elements]
      exact ⟨hfresh ∘ h.fresh, howner.trans h.owner, helements⟩
    unfold addAll
    cases hadd : add limit item draft with
    | ok index draft' =>
      rw [hadd] at hadded
      exact hnext draft' hadded
    | error error draft' =>
      rw [hadd] at hadded
      exact hnext draft' hadded

end Draft

/-! ## Decoding -/

/-- Decoding a module gives no function an entry. -/
theorem Module.fresh_decode {config : Config} {registry : TypeRegistry} {bytes : List UInt8} {module : Module}
    (h : (Module.decode config registry bytes).1 = .ok module) : Fresh module.functions := by
  obtain ⟨word, sections, state, -, -, htracks, rfl⟩ := Module.tracks_of_decode h
  intro index func hfunc
  exact htracks.fresh func.facet (Module.facet_mem (Array.mem_of_getElem? hfunc))

/-- Decoding leaves the table of the module alone. -/
theorem Decode.untabled_total : Total fun _ program =>
    Keeps (InvImage (Leaves fun draft : Draft => draft.module.table) Decoding.draft) program := by
  refine keeps_total (fun _ => .modify fun _ => rfl) (fun index make _ => .bind (.bind .get fun _ => ?_) fun _ => ?_)
    fun h => .modify fun draft => (h draft.module).2.2
  · split
    · exact .pure _
    · exact .throw _
  · exact .bind .get fun _ => .bind (.modify fun _ => rfl) fun _ => .pure _

/-- Decoding a module leaves its table empty. -/
theorem Module.table_decode {config : Config} {registry : TypeRegistry} {bytes : List UInt8} {module : Module}
    (h : (Module.decode config registry bytes).1 = .ok module) : module.table = #[] := by
  unfold Module.decode at h
  split at h
  · cases h
  · rename_i next hheader
    dsimp only at h
    split at h
    · rename_i state hframes
      cases h
      have htable := (Decode.untabled_total.sections config _ _).of_ok hframes
      exact htable
    · cases h

end WasmEngine
