import Mathlib.Data.Finset.Card
import Mathlib.Data.Finset.Dedup
import WasmEngine.Types.Registry

/-!
# Interning function types

A registry lists each type once (`TypeRegistry.Canonical`), and a type that it lists stays at its place. So handles
that it knows are the same exactly when their types are.
-/

namespace WasmEngine.TypeRegistry

variable {registry registry' : TypeRegistry} {handle handle' : TypeHandle} {type : FuncType}

/-! ## Registries that grow -/

/-- Every type of a registry stands at its place in another. -/
def Extends (registry registry' : TypeRegistry) : Prop :=
  ∀ (index : Nat) (type : FuncType), registry.types[index]? = some type → registry'.types[index]? = some type

theorem Extends.refl (registry : TypeRegistry) : registry.Extends registry :=
  fun _ _ hindex => hindex

theorem Extends.trans {registry'' : TypeRegistry} (h : registry.Extends registry')
    (h' : registry'.Extends registry'') : registry.Extends registry'' :=
  fun index type hindex => h' index type (h index type hindex)

theorem Extends.size_le (h : registry.Extends registry') : registry.size ≤ registry'.size := by
  by_contra hlt
  have hindex : registry'.size < registry.types.size := Nat.lt_of_not_le hlt
  have hfound := h registry'.size _ (Array.getElem?_eq_getElem hindex)
  exact Nat.lt_irrefl _ (Array.getElem?_eq_some_iff.1 hfound).1

/-- The handle of a type stands for it, and the others stay where they are. -/
theorem intern_spec (registry : TypeRegistry) (type : FuncType) :
    (registry.intern type).1.type = type ∧
      (registry.intern type).2.types[(registry.intern type).1.index]? = some type ∧
      registry.Extends (registry.intern type).2 := by
  unfold intern
  cases h : registry.types.findIdx? (· = type) with
  | some index =>
    obtain ⟨hlt, hfound, -⟩ := Array.findIdx?_eq_some_iff_getElem.1 h
    have hentry : registry.types[index] = type := of_decide_eq_true hfound
    exact ⟨rfl, by simp [hlt, hentry], fun _ _ hindex => hindex⟩
  | none =>
    refine ⟨rfl, by simp [size], fun index other hindex => ?_⟩
    have hlt : index < registry.types.size := (Array.getElem?_eq_some_iff.1 hindex).1
    simpa [Array.getElem?_push, Nat.ne_of_lt hlt] using hindex

/-- The handle of a signature that was read stands for the type that it denotes. -/
theorem ofSignature?_of_parse {limit : Nat} {text : String}
    (h : registry.parse limit text = .ok (handle, registry')) : FuncType.ofSignature? limit text = .ok handle.type := by
  unfold parse at h
  cases hread : FuncType.ofSignature? limit text with
  | error error =>
    rw [hread] at h
    cases h
  | ok type =>
    rw [hread] at h
    have hintern : registry.intern type = (handle, registry') := Except.ok.inj h
    have htype := (registry.intern_spec type).1
    rw [hintern] at htype
    exact congrArg Except.ok htype.symm

/-- A registry has the type of a handle at the place of the handle. -/
def Knows (registry : TypeRegistry) (handle : TypeHandle) : Prop :=
  registry.types[handle.index]? = some handle.type

theorem Knows.mono (h : registry.Knows handle) (hextends : registry.Extends registry') : registry'.Knows handle :=
  hextends handle.index handle.type h

theorem knows_intern (registry : TypeRegistry) (type : FuncType) :
    (registry.intern type).2.Knows (registry.intern type).1 := by
  obtain ⟨htype, hindex, -⟩ := registry.intern_spec type
  unfold Knows
  rw [hindex, htype]

/-! ## Registries without repetitions -/

/-- A registry lists each type once. -/
def Canonical (registry : TypeRegistry) : Prop :=
  registry.types.toList.Nodup

theorem canonical_empty : Canonical {} :=
  List.nodup_nil

theorem intern_of_mem (h : type ∈ registry.types) : (registry.intern type).2 = registry := by
  unfold intern
  cases hfind : registry.types.findIdx? (· = type) with
  | some index => rfl
  | none =>
    have hnone := Array.findIdx?_eq_none_iff.1 hfind type h
    simp at hnone

theorem intern_of_not_mem (h : type ∉ registry.types) :
    (registry.intern type).2.types = registry.types.push type := by
  unfold intern
  cases hfind : registry.types.findIdx? (· = type) with
  | none => rfl
  | some index =>
    obtain ⟨hlt, hfound, -⟩ := Array.findIdx?_eq_some_iff_getElem.1 hfind
    have hentry : registry.types[index] = type := of_decide_eq_true hfound
    exact absurd (hentry ▸ Array.getElem_mem hlt) h

theorem mem_intern (registry : TypeRegistry) (type other : FuncType) :
    other ∈ (registry.intern type).2.types ↔ other ∈ registry.types ∨ other = type := by
  by_cases h : type ∈ registry.types
  · rw [intern_of_mem h]
    constructor
    · exact .inl
    · rintro (hmem | rfl)
      · exact hmem
      · exact h
  · rw [intern_of_not_mem h, Array.mem_push]

theorem Canonical.intern (h : registry.Canonical) (type : FuncType) : (registry.intern type).2.Canonical := by
  by_cases hmem : type ∈ registry.types
  · rwa [intern_of_mem hmem]
  · unfold Canonical
    rw [intern_of_not_mem hmem, Array.toList_push]
    refine List.nodup_append.2 ⟨h, List.nodup_singleton _, ?_⟩
    intro other hother new hnew heq
    rw [List.mem_singleton.1 hnew] at heq
    exact hmem (heq ▸ Array.mem_toList_iff.1 hother)

/-- Two handles that the registry knows have the same place exactly when their types are the same. -/
theorem Canonical.index_eq_iff (h : registry.Canonical) (hknown : registry.Knows handle)
    (hknown' : registry.Knows handle') : handle.index = handle'.index ↔ handle.type = handle'.type := by
  unfold Knows at hknown hknown'
  constructor
  · intro hindex
    rw [hindex, hknown'] at hknown
    exact (Option.some.inj hknown).symm
  · intro htype
    obtain ⟨hlt, hentry⟩ := Array.getElem?_eq_some_iff.1 hknown
    obtain ⟨hlt', hentry'⟩ := Array.getElem?_eq_some_iff.1 hknown'
    have hget : registry.types.toList.get ⟨handle.index, hlt⟩ = registry.types.toList.get ⟨handle'.index, hlt'⟩ := by
      simp only [List.get_eq_getElem, Array.getElem_toList, hentry, hentry', htype]
    exact congrArg Fin.val ((List.Nodup.get_inj_iff h).1 hget)

/-! ## Many types -/

/-- Interns types one after the other. -/
def internAll (registry : TypeRegistry) (types : List FuncType) : TypeRegistry :=
  types.foldl (fun registry type => (registry.intern type).2) registry

theorem internAll_append (registry : TypeRegistry) (types types' : List FuncType) :
    registry.internAll (types ++ types') = (registry.internAll types).internAll types' :=
  List.foldl_append

theorem extends_internAll (registry : TypeRegistry) (types : List FuncType) :
    registry.Extends (registry.internAll types) := by
  induction types generalizing registry with
  | nil => exact .refl registry
  | cons type types ih => exact (registry.intern_spec type).2.2.trans (ih _)

theorem Canonical.internAll (h : registry.Canonical) (types : List FuncType) :
    (registry.internAll types).Canonical := by
  induction types generalizing registry with
  | nil => exact h
  | cons type types ih => exact ih (h.intern type)

theorem mem_internAll (registry : TypeRegistry) (types : List FuncType) (other : FuncType) :
    other ∈ (registry.internAll types).types ↔ other ∈ registry.types ∨ other ∈ types := by
  induction types generalizing registry with
  | nil => simp [internAll]
  | cons type types ih =>
    have hstep : registry.internAll (type :: types) = (registry.intern type).2.internAll types := rfl
    rw [hstep, ih, mem_intern, List.mem_cons, or_assoc]

theorem internAll_of_forall_mem {types : List FuncType} (h : ∀ type ∈ types, type ∈ registry.types) :
    registry.internAll types = registry := by
  induction types with
  | nil => rfl
  | cons type types ih =>
    have hstep : registry.internAll (type :: types) = (registry.intern type).2.internAll types := rfl
    rw [hstep, intern_of_mem (h type (List.mem_cons_self ..))]
    exact ih fun other hother => h other (List.mem_cons_of_mem _ hother)

/-- Interning types in an empty registry makes it as long as there are different types. -/
theorem size_internAll (types : List FuncType) : (internAll {} types).size = types.toFinset.card := by
  have hfinset : (internAll {} types).types.toList.toFinset = types.toFinset := by
    ext type
    simp [mem_internAll]
  calc (internAll {} types).size
      = (internAll {} types).types.toList.length := Array.length_toList.symm
    _ = (internAll {} types).types.toList.toFinset.card :=
        (List.toFinset_card_of_nodup (canonical_empty.internAll types)).symm
    _ = types.toFinset.card := by rw [hfinset]

end WasmEngine.TypeRegistry
