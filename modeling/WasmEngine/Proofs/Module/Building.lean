import WasmEngine.Proofs.Module.Interning

/-!
# The type list of a module under construction

Whether a type is listed already is decided by its place in the registry, so the list has no place twice, and the
handles of the module are all in it (`Draft.Orderly`).
-/

namespace WasmEngine

namespace Draft

variable {draft draft' : Draft} {handle : TypeHandle}

/-- The type list is in order: the registry knows the handles, no place is listed twice, and every handle of the module
is listed. -/
structure Orderly (draft : Draft) : Prop where
  known : draft.Known
  apart : (draft.module.types.toList.map TypeHandle.index).Nodup
  listed : ∀ handle ∈ draft.module.handles, handle ∈ draft.module.types

theorem orderly_empty (registry : TypeRegistry) : Orderly { registry } where
  known _ hmem := absurd hmem List.not_mem_nil
  apart := List.nodup_nil
  listed _ hmem := absurd hmem List.not_mem_nil

/-- In a registry without repetitions, different places hold different types. -/
theorem Orderly.nodup_types (h : draft.Orderly) (hcanonical : draft.registry.Canonical) :
    (draft.module.types.toList.map TypeHandle.type).Nodup := by
  have hhandles : draft.module.types.toList.Nodup := .of_map _ h.apart
  refine hhandles.map_on fun handle hmem handle' hmem' htype => ?_
  have hknown := h.known handle (List.mem_append_left _ hmem)
  have hknown' := h.known handle' (List.mem_append_left _ hmem')
  exact List.inj_on_of_nodup_map h.apart hmem hmem' ((hcanonical.index_eq_iff hknown hknown').2 htype)

/-- A type list in order stays so, and its types keep their places. -/
structure Lengthens (draft draft' : Draft) : Prop where
  orderly : draft.Orderly → draft'.Orderly
  places : ∀ (index : Nat) (handle : TypeHandle), draft.module.types[index]? = some handle →
    draft'.module.types[index]? = some handle

theorem Lengthens.refl (draft : Draft) : draft.Lengthens draft :=
  ⟨id, fun _ _ => id⟩

theorem Lengthens.trans {draft'' : Draft} (h : draft.Lengthens draft') (h' : draft'.Lengthens draft'') :
    draft.Lengthens draft'' :=
  ⟨h'.orderly ∘ h.orderly, fun index handle hindex => h'.places index handle (h.places index handle hindex)⟩

/-- More types are interned. -/
theorem lengthens_registry {registry : TypeRegistry} (h : draft.registry.Extends registry) :
    draft.Lengthens { draft with registry } where
  orderly horderly := ⟨fun handle hmem => (horderly.known handle hmem).mono h, horderly.apart, horderly.listed⟩
  places _ _ hindex := hindex

/-- The module changes in parts that have nothing to do with types. -/
theorem lengthens_module {module : Module} (htypes : module.types = draft.module.types)
    (hhandles : module.handles = draft.module.handles) : draft.Lengthens { draft with module } := by
  refine ⟨fun h => ⟨?_, ?_, ?_⟩, fun index handle hindex => ?_⟩
  · exact (interns_of_handles hhandles).known h.known
  · rw [htypes]
    exact h.apart
  · rw [htypes, hhandles]
    exact h.listed
  · rw [htypes]
    exact hindex

/-- The module lists a type that has a place of its own. -/
theorem lengthens_pushType (hknown : draft.registry.Knows handle)
    (hnew : ∀ other ∈ draft.module.types, other.index ≠ handle.index) :
    draft.Lengthens { draft with module := { draft.module with types := draft.module.types.push handle } } := by
  refine ⟨fun h => ⟨?_, ?_, fun other hmem => ?_⟩, fun index other hindex => ?_⟩
  · exact (interns_of_known hknown fun _ => mem_handles_pushType).known h.known
  · rw [Array.toList_push, List.map_append, List.map_singleton]
    refine List.nodup_append.2 ⟨h.apart, List.nodup_singleton _, ?_⟩
    intro place hplace new hmem heq
    obtain ⟨other, hother, rfl⟩ := List.mem_map.1 hplace
    rw [List.mem_singleton.1 hmem] at heq
    exact hnew other (Array.mem_toList_iff.1 hother) heq
  · rcases mem_handles_pushType hmem with hold | rfl
    · exact Array.mem_push_of_mem _ (h.listed other hold)
    · exact Array.mem_push_self
  · have hlt : index < draft.module.types.size := (Array.getElem?_eq_some_iff.1 hindex).1
    rw [Array.getElem?_push_lt hlt]
    rwa [Array.getElem?_eq_getElem hlt] at hindex

/-- The module gets a function whose type it lists. -/
theorem lengthens_pushFunction {func : Func} (hlisted : func.type ∈ draft.module.types) :
    draft.Lengthens { draft with module := { draft.module with functions := draft.module.functions.push func } } := by
  refine ⟨fun h => ⟨?_, h.apart, fun other hmem => ?_⟩, fun _ _ hindex => hindex⟩
  · have hknown := h.known func.type (List.mem_append_left _ (Array.mem_toList_iff.2 hlisted))
    exact (interns_of_known hknown fun _ => mem_handles_pushFunction).known h.known
  · rcases mem_handles_pushFunction hmem with hold | rfl
    · exact h.listed other hold
    · exact hlisted

/-! ## Items -/

/-- A known type stands at its index once it is declared. -/
theorem Declares.lengthens {index : Nat} {types : Array TypeHandle}
    (hdeclares : Declares draft.module.types handle index types) (h : draft.Orderly)
    (hknown : draft.registry.Knows handle) :
    draft.Lengthens { draft with module := { draft.module with types } } ∧ types[index]? = some handle := by
  cases hdeclares with
  | @found index other hother hsame =>
    -- Both are known at one place of the registry, so they are the same.
    have hotherKnown := h.known other (List.mem_append_left _ (Array.mem_toList_iff.2 (Array.mem_of_getElem? hother)))
    have htype : other.type = handle.type := by
      rw [TypeRegistry.Knows, hsame, hknown] at hotherKnown
      exact (Option.some.inj hotherKnown).symm
    refine ⟨.refl draft, ?_⟩
    rw [hother]
    exact congrArg some (congrArg₂ TypeHandle.mk hsame htype)
  | added hnew => exact ⟨lengthens_pushType hknown hnew, Array.getElem?_push_size⟩

/-- A type is interned and declared. -/
theorem Declares.lengthens_intern {type : FuncType} {index : Nat} {types : Array TypeHandle}
    (hdeclares : Declares draft.module.types (draft.registry.intern type).1 index types) (h : draft.Orderly) :
    draft.Lengthens ⟨(draft.registry.intern type).2, { draft.module with types }⟩ ∧
      types[index]? = some (draft.registry.intern type).1 := by
  have hinterned := lengthens_registry (draft.registry.intern_spec type).2.2
  have horderly : Orderly { draft with registry := (draft.registry.intern type).2 } := hinterned.orderly h
  obtain ⟨hlengthens, hplace⟩ :=
    Declares.lengthens (by exact hdeclares) horderly (draft.registry.knows_intern type)
  exact ⟨hinterned.trans hlengthens, hplace⟩

theorem Added.lengthens {limit : Nat} {item : BuildItem} {result : EStateM.Result Error Draft (Option Nat)}
    (hadded : Added limit draft item result) (h : draft.Orderly) : draft.Lengthens (stateAfter result) := by
  cases hadded with
  | refused | overlong => exact .refl draft
  | type hread hdeclares => exact (hdeclares.lengthens_intern h).1
  | function hitem hother hread hdeclares htype hcode =>
    obtain ⟨hlengthens, hplace⟩ := hdeclares.lengthens_intern h
    refine hlengthens.trans (lengthens_pushFunction ?_)
    rw [htype]
    exact Array.mem_of_getElem? hplace
  | edited hitem htypes hhandles hfresh howner helements => exact lengthens_module htypes hhandles

end Draft

end WasmEngine
