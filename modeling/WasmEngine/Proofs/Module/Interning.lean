import WasmEngine.Proofs.Module.Fresh
import WasmEngine.Proofs.Module.Truncation

/-!
# The types that modules intern

Building a module interns the types of the signatures that can be read. Decoding one interns the types that it lists,
in their order, also if it fails later; they do not depend on the types that are known before.
-/

namespace WasmEngine

variable {α : Type}

/-- The type that a signature denotes, if it can be read. -/
def FuncType.denoted (limit : Nat) (signature : String) : List FuncType :=
  match FuncType.ofSignature? limit signature with
  | .error _ => []
  | .ok type => [type]

namespace Draft

variable {draft : Draft} {module : Module}

/-- The registry of a draft knows the handles of its module. -/
def Known (draft : Draft) : Prop :=
  ∀ handle ∈ draft.module.handles, draft.registry.Knows handle

/-- Types are interned, and the handles of the module stay known. -/
structure Interns (types : List FuncType) (draft draft' : Draft) : Prop where
  registry : draft'.registry = draft.registry.internAll types
  known : draft.Known → draft'.Known

theorem Interns.trans {types types' : List FuncType} {draft' draft'' : Draft} (h : draft.Interns types draft')
    (h' : draft'.Interns types' draft'') : draft.Interns (types ++ types') draft'' where
  registry := by rw [h'.registry, h.registry, TypeRegistry.internAll_append]
  known hknown := h'.known (h.known hknown)

theorem Interns.refl (draft : Draft) : draft.Interns [] draft :=
  ⟨rfl, id⟩

/-- A change of the module that brings no new handles. -/
theorem interns_of_handles (h : module.handles = draft.module.handles) :
    draft.Interns [] { draft with module } where
  registry := rfl
  known hknown handle hmem := hknown handle (h ▸ hmem)

/-- The module gets handles that the registry knows. -/
theorem interns_of_known {new : TypeHandle} (hnew : draft.registry.Knows new)
    (h : ∀ handle ∈ module.handles, handle ∈ draft.module.handles ∨ handle = new) :
    draft.Interns [] { draft with module } where
  registry := rfl
  known hknown handle hmem := by
    rcases h handle hmem with hold | rfl
    · exact hknown handle hold
    · exact hnew

theorem mem_handles_pushType {new handle : TypeHandle}
    (h : handle ∈ Module.handles { module with types := module.types.push new }) :
    handle ∈ module.handles ∨ handle = new := by
  simp only [Module.handles, Array.toList_push, List.mem_append, List.mem_singleton] at h ⊢
  tauto

theorem mem_handles_pushFunction {func : Func} {handle : TypeHandle}
    (h : handle ∈ Module.handles { module with functions := module.functions.push func }) :
    handle ∈ module.handles ∨ handle = func.type := by
  simp only [Module.handles, Array.toList_push, List.map_append, List.map_cons, List.map_nil, List.mem_append,
    List.mem_singleton] at h ⊢
  tauto

/-! ## Building -/

/-- The declaration of a type interns it. -/
theorem Declares.interns {type : FuncType} {index : Nat} {types : Array TypeHandle}
    (h : Declares draft.module.types (draft.registry.intern type).1 index types) :
    draft.Interns [type] ⟨(draft.registry.intern type).2, { draft.module with types }⟩ where
  registry := rfl
  known hknown handle hmem := by
    have hold (handle : TypeHandle) (hmem : handle ∈ draft.module.handles) :
        (draft.registry.intern type).2.Knows handle :=
      (hknown handle hmem).mono (draft.registry.intern_spec type).2.2
    cases h with
    | found hother hsame => exact hold handle hmem
    | added hnew =>
      rcases mem_handles_pushType hmem with hmem | rfl
      · exact hold handle hmem
      · exact draft.registry.knows_intern type

end Draft

/-- The type of the signature in an item, if the item has one that can be read. -/
def BuildItem.types (limit : Nat) : BuildItem → List FuncType
  | .type signature => FuncType.denoted limit signature
  | .importFunction _ signature => FuncType.denoted limit signature
  | .function signature _ _ => FuncType.denoted limit signature
  | _ => []

theorem BuildItem.types_eq (limit : Nat) (item : BuildItem) :
    item.types limit = item.signature?.elim [] (FuncType.denoted limit) := by
  cases item <;> rfl

namespace Draft

theorem add_interns (limit : Nat) (item : BuildItem) (draft : Draft) :
    draft.Interns (item.types limit) (stateAfter (add limit item draft)) := by
  have hdenoted {signature : String} {type : FuncType} (hread : FuncType.ofSignature? limit signature = .ok type) :
      FuncType.denoted limit signature = [type] := by
    rw [FuncType.denoted, hread]
  have hadded := added limit item draft
  generalize add limit item draft = result at hadded ⊢
  rw [item.types_eq]
  cases hadded with
  | refused hitem hread =>
    rw [hitem, Option.elim_some, FuncType.denoted, hread]
    exact .refl draft
  | overlong hmany => exact .refl draft
  | @type signature type index types hread hdeclares =>
    rw [BuildItem.signature?, Option.elim_some, hdenoted hread]
    exact hdeclares.interns
  | @function item signature type index types func hitem hother hread hdeclares htype hcode =>
    rw [hitem, Option.elim_some, hdenoted hread]
    refine hdeclares.interns.trans (interns_of_known (htype ▸ draft.registry.knows_intern type) fun _ hmem => ?_)
    exact mem_handles_pushFunction hmem
  | edited hitem htypes hhandles hfresh howner helements =>
    rw [hitem]
    exact interns_of_handles hhandles

/-- Building a module interns the types of the signatures that can be read. -/
theorem addAll_interns (limit : Nat) (items : List BuildItem) (draft : Draft) :
    draft.Interns (items.flatMap (·.types limit)) (addAll limit items draft).2 := by
  induction items generalizing draft with
  | nil => exact .refl draft
  | cons item items ih =>
    have hadded := add_interns limit item draft
    unfold addAll
    rw [List.flatMap_cons]
    cases hadd : add limit item draft with
    | ok index draft' =>
      rw [hadd] at hadded
      exact hadded.trans (ih draft')
    | error error draft' =>
      rw [hadd] at hadded
      exact hadded.trans (ih draft')

/-! ## Decoding -/

/-- The module lists more types, and these are interned in their order. -/
def Lists (draft draft' : Draft) : Prop :=
  ∃ types, draft'.shape.1 = draft.shape.1 ++ types ∧ draft.Interns types draft'

instance : Std.Refl Lists where
  refl draft := ⟨[], by rw [List.append_nil], .refl draft⟩

instance : IsTrans Draft Lists where
  trans draft between draft' := by
    rintro ⟨first, hfirst, hinterns⟩ ⟨second, hsecond, hinterns'⟩
    exact ⟨first ++ second, by rw [hsecond, hfirst, List.append_assoc], hinterns.trans hinterns'⟩

/-- A step that leaves the list of types alone. -/
theorem lists_of_interns {draft draft' : Draft} (htypes : draft'.module.types = draft.module.types)
    (h : draft.Interns [] draft') : draft.Lists draft' :=
  ⟨[], by unfold shape; rw [htypes, List.append_nil], h⟩

theorem lists_edit {change : Module → Module}
    (h : ∀ module, (change module).types = module.types ∧ (change module).handles = module.handles) :
    Keeps Lists (edit change) :=
  .modify fun draft => lists_of_interns (h draft.module).1 (interns_of_handles (h draft.module).2)

theorem lists_pushType (type : FuncType) : Keeps Lists (pushType type) := by
  refine .modify fun draft => ⟨[type], ?_, ?_⟩
  · simp [shape, (draft.registry.intern_spec type).1]
  · refine ⟨rfl, fun hknown handle hmem => ?_⟩
    rcases mem_handles_pushType hmem with hold | rfl
    · exact (hknown handle hold).mono (draft.registry.intern_spec type).2.2
    · exact draft.registry.knows_intern type

/-- A function gets one of the types that the module lists. -/
theorem lists_place (index : Nat) {make : TypeHandle → Func} (hmake : ∀ handle, (make handle).type = handle) :
    Keeps Lists (do pushFunction (make (← typeAt index)) : Drafting Nat) := by
  intro draft
  by_cases hlt : index < draft.module.types.size
  · rw [run_bind_of_ok (run_typeAt (Array.getElem?_eq_getElem hlt))]
    have hlisted : draft.module.types[index] ∈ draft.module.handles :=
      List.mem_append_left _ (Array.getElem_mem_toList hlt)
    refine lists_of_interns rfl ⟨rfl, fun hknown handle hmem => ?_⟩
    rcases mem_handles_pushFunction hmem with hold | rfl
    · exact hknown handle hold
    · rw [hmake]
      exact hknown _ hlisted
  · rw [run_bind_of_error (typeAt_of_size_le (Nat.le_of_not_lt hlt))]
    exact Std.Refl.refl draft

end Draft

namespace Decode

/-- Decoding goes on: the module lists more types, and these are interned in their order. -/
theorem lists_total : Total fun _ program => Keeps (InvImage Draft.Lists Decoding.draft) program :=
  keeps_total Draft.lists_pushType (fun index _ hmake => Draft.lists_place index hmake) fun h =>
    Draft.lists_edit fun module => ⟨(h module).1, (h module).2.1⟩

end Decode

namespace Module

/-- The types that decoding lists, up to where it ends or fails. -/
def typesRead (config : Config) (bytes : List UInt8) : List FuncType :=
  match Binary.header (Reader.ofBytes bytes) with
  | .error _ _ => []
  | .ok () next =>
    (stateAfter (Decode.frames (Decode.framedSection config) (Frame.split next.rest).2 (Frame.split next.rest).1
      { draft := { registry := {} } })).draft.shape.1

/-- Decoding interns the types that it lists, in their order, whether it succeeds or fails. -/
theorem decode_interns (config : Config) (registry : TypeRegistry) (bytes : List UInt8) :
    (Module.decode config registry bytes).2 = registry.internAll (typesRead config bytes) ∧
      ∀ module, (Module.decode config registry bytes).1 = .ok module →
        ∀ handle ∈ module.handles, (Module.decode config registry bytes).2.Knows handle := by
  unfold typesRead Module.decode
  cases Binary.header (Reader.ofBytes bytes) with
  | error error next => exact ⟨rfl, fun module h => by cases h⟩
  | ok done next =>
    dsimp only
    have hframes := Decode.lists_total.sections config (Frame.split next.rest).2 (Frame.split next.rest).1
      { draft := { registry } }
    -- What is listed does not depend on the registry.
    have hview := (Decode.factors_total.sections config (Frame.split next.rest).2 (Frame.split next.rest).1
      { draft := { registry } } { draft := { registry := {} } } rfl).2
    have hshape := (Prod.mk.inj (Prod.mk.inj hview).2).2
    obtain ⟨types, hlisted, hinterns⟩ := hframes
    have htypes : (stateAfter (Decode.frames (Decode.framedSection config) (Frame.split next.rest).2
        (Frame.split next.rest).1 { draft := { registry := {} } })).draft.shape.1 = types := by
      rw [← hshape, hlisted]
      rfl
    have hknown := hinterns.known fun handle hmem => absurd hmem (List.not_mem_nil)
    rw [htypes]
    generalize Decode.frames (Decode.framedSection config) (Frame.split next.rest).2 (Frame.split next.rest).1
      { draft := { registry } } = result at hinterns hknown ⊢
    cases result with
    | ok value state =>
      refine ⟨hinterns.registry, fun module h => ?_⟩
      cases h
      exact hknown
    | error error state => exact ⟨hinterns.registry, fun module h => by cases h⟩

end Module

end WasmEngine
