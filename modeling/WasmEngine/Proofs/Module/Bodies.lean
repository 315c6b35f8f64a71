import Mathlib.Data.List.DropRight
import WasmEngine.Proofs.Module.Closure
import WasmEngine.Proofs.Module.Sections

/-!
# Functions and their bodies

A function section adds functions that wait for a body, and a code section gives each of them one; the others add
no functions but imports. So the functions that wait are those declared since the last code section
(`Decoding.Tracks`).
-/

namespace WasmEngine

variable {α : Type}

/-! ## Sections that add imports at most -/

namespace Draft

/-- The functions of the module are as before, with imported ones more. -/
def Imports (draft draft' : Draft) : Prop :=
  ∃ count, draft'.module.facets = draft.module.facets ++ List.replicate count .imported

theorem Imports.of_facets {draft draft' : Draft} (h : draft'.module.facets = draft.module.facets) :
    draft.Imports draft' :=
  ⟨0, by rw [h, List.replicate_zero, List.append_nil]⟩

instance : Std.Refl Imports where
  refl _ := .of_facets rfl

instance : IsTrans Draft Imports where
  trans draft between draft' := by
    rintro ⟨first, hfirst⟩ ⟨second, hsecond⟩
    exact ⟨first + second, by rw [hsecond, hfirst, List.append_assoc, List.replicate_append_replicate]⟩

theorem imports_edit {change : Module → Module} (h : ∀ module, (change module).facets = module.facets) :
    Keeps Imports (edit change) :=
  .modify fun draft => .of_facets (h draft.module)

theorem imports_pushType (type : FuncType) : Keeps Imports (pushType type) :=
  .modify fun _ => .of_facets rfl

theorem imports_typeAt (index : Nat) : Keeps Imports (typeAt index) := by
  refine .bind .get fun draft => ?_
  split
  · exact .pure _
  · exact .throw _

theorem imports_pushImport {func : Func} (h : func.facet = .imported) : Keeps Imports (pushFunction func) := by
  refine .bind .get fun draft => .bind (.modify fun draft => ⟨1, ?_⟩) fun _ => .pure _
  rw [Module.facets_push, h]
  rfl

theorem imports_updateFunction (index : Nat) {change : Func → Func} (h : ∀ func, (change func).facet = func.facet) :
    Keeps Imports (updateFunction index change) := by
  refine .bind .get fun draft => .ite _ (imports_edit fun module => ?_) (.throw _)
  exact module.facets_named index h

theorem imports_pushGlobal (global : Global) : Keeps Imports (pushGlobal global) :=
  .bind .get fun _ => .bind (imports_edit fun _ => rfl) fun _ => .pure _

/-! ### What a successful step says -/

theorem typeAt_eq_ok {index : Nat} {handle : TypeHandle} {draft draft' : Draft}
    (h : typeAt index draft = .ok handle draft') : draft' = draft := by
  unfold typeAt at h
  rw [run_get_bind] at h
  cases hfound : draft.module.types[index]? with
  | some found =>
    rw [hfound] at h
    cases h
    rfl
  | none =>
    rw [hfound] at h
    cases h

theorem updateFunction_eq_ok {index : Nat} {change : Func → Func} {draft draft' : Draft}
    (h : updateFunction index change draft = .ok () draft') :
    draft' = { draft with module := draft.module.updateFunction index change } := by
  unfold updateFunction at h
  rw [run_get_bind] at h
  split at h
  · cases h
    rfl
  · cases h

end Draft

namespace Decode

/-- The functions are as before, with imported ones more, and the same ones wait for a body. -/
def Imports (state state' : Decoding) : Prop :=
  state'.pending = state.pending ∧ state.draft.Imports state'.draft

instance : Std.Refl Imports where
  refl _ := ⟨rfl, Std.Refl.refl _⟩

instance : IsTrans Decoding Imports where
  trans _ _ _ first second := ⟨second.1.trans first.1, IsTrans.trans _ _ _ first.2 second.2⟩

theorem imports_draft {step : Drafting α} (h : Keeps Draft.Imports step) : Keeps Imports (draft step) :=
  keeps_draft (fun _ _ hstep => ⟨rfl, hstep⟩) h

theorem imports_closed : Closed fun _ program => Keeps Imports program where
  pure := .pure
  throw := .throw
  bind := .bind
  read := keeps_read fun _ _ => ⟨rfl, Std.Refl.refl _⟩
  input _ := .modify fun _ => ⟨rfl, Std.Refl.refl _⟩
  pushType type := imports_draft (Draft.imports_pushType type)
  pushImport index _ := .bind (imports_draft (Draft.imports_typeAt index)) fun _ =>
    .bind (imports_draft (Draft.imports_pushImport rfl)) fun _ => .pure _
  pushGlobal global := .bind (imports_draft (Draft.imports_pushGlobal global)) fun _ => .pure _
  edit h := imports_draft (Draft.imports_edit fun module => by rw [Module.facets, (h module).2.1, Module.facets])
  require index := imports_draft (Draft.imports_updateFunction index fun _ => rfl)
  giveName index name := imports_draft (Draft.imports_edit fun module => module.facets_named index fun func =>
    (func.facet_nameIfAnonymous name).1)
  exportName index name := imports_draft (Draft.imports_updateFunction index fun func =>
    (func.facet_nameIfAnonymous name).1)

/-! ## Function sections and code sections -/

variable {state state' : Decoding}

theorem run_read_eq_ok {program : Read α} {value : α} (h : read program state = .ok value state') :
    ∃ input, program state.input = .ok value input ∧ state' = { state with input } := by
  unfold read at h
  cases hread : program state.input with
  | ok found input =>
    rw [hread] at h
    cases h
    exact ⟨input, rfl, rfl⟩
  | error error input =>
    rw [hread] at h
    cases h

theorem run_draft_eq_ok {step : Drafting α} {value : α} (h : draft step state = .ok value state') :
    ∃ draft', step state.draft = .ok value draft' ∧ state' = { state with draft := draft' } := by
  unfold draft at h
  cases hstep : step state.draft with
  | ok found draft' =>
    rw [hstep] at h
    cases h
    exact ⟨draft', rfl, rfl⟩
  | error error draft' =>
    rw [hstep] at h
    cases h

theorem functionEntry_ok (h : functionEntry state = .ok () state') :
    state'.draft.module.facets = state.draft.module.facets ++ [.declared] ∧
      state'.pending = state.pending ++ [state.draft.module.facets.length] := by
  obtain ⟨index, between, hindex, h⟩ := run_bind_eq_ok h
  obtain ⟨input, -, rfl⟩ := run_read_eq_ok hindex
  obtain ⟨handle, between, htype, h⟩ := run_bind_eq_ok h
  obtain ⟨draft, hfound, rfl⟩ := run_draft_eq_ok htype
  cases Draft.typeAt_eq_ok hfound
  cases h
  refine ⟨Module.facets_push _ _, ?_⟩
  rw [Module.facets, List.length_map, Array.length_toList]

theorem times_functionEntry_ok {count : Nat} (h : times functionEntry count state = .ok () state') :
    state'.draft.module.facets = state.draft.module.facets ++ List.replicate count .declared ∧
      state'.pending = state.pending ++ List.range' state.draft.module.facets.length count := by
  induction count generalizing state with
  | zero =>
    cases h
    exact ⟨(List.append_nil _).symm, (List.append_nil _).symm⟩
  | succ count ih =>
    obtain ⟨done, between, hentry, h⟩ := run_bind_eq_ok h
    obtain ⟨hfacets, hpending⟩ := functionEntry_ok hentry
    obtain ⟨hfacets', hpending'⟩ := ih h
    rw [hfacets', hpending', hfacets, hpending, List.append_assoc, List.append_assoc, List.length_append,
      List.range'_succ, List.replicate_succ]
    exact ⟨rfl, rfl⟩

theorem bodies_ok {functions : List Nat} (h : bodies functions state = .ok () state') :
    state'.draft.module.facets =
        functions.foldl (fun facets index => facets.modify index .fill) state.draft.module.facets ∧
      state'.pending = state.pending := by
  induction functions generalizing state with
  | nil =>
    cases h
    exact ⟨rfl, rfl⟩
  | cons function functions ih =>
    obtain ⟨payload, between, hpayload, h⟩ := run_bind_eq_ok h
    obtain ⟨input, -, rfl⟩ := run_read_eq_ok hpayload
    cases hbody : Binary.funcBody (Reader.ofBytes payload) with
    | error error stopped =>
      rw [hbody] at h
      cases h
    | ok body rest =>
      rw [hbody] at h
      obtain ⟨done, between, hfill, h⟩ := run_bind_eq_ok h
      obtain ⟨draft, hfilled, rfl⟩ := run_draft_eq_ok hfill
      cases Draft.updateFunction_eq_ok hfilled
      obtain ⟨hfacets, hpending⟩ := ih h
      rw [hfacets, hpending, List.foldl_cons]
      refine ⟨?_, rfl⟩
      rw [Module.facets_updateFunction _ _ .fill fun _ => rfl]

theorem codeSection_ok (h : codeSection state = .ok () state') :
    state'.draft.module.facets =
        state.pending.foldl (fun facets index => facets.modify index .fill) state.draft.module.facets ∧
      state'.pending = [] := by
  obtain ⟨count, between, hcount, h⟩ := run_bind_eq_ok h
  obtain ⟨input, -, rfl⟩ := run_read_eq_ok hcount
  rw [run_get_bind] at h
  dsimp only at h
  split at h
  · cases h
  · exact bodies_ok h

end Decode

/-! ## Sections one after the other -/

namespace Frame

/-- How many functions a section declares: the number in front, if it is a function section. -/
def declares (frame : Frame) : Nat :=
  if frame.id = 3 then
    match Reader.varU32 (.ofBytes frame.payload) with
    | .ok count _ => count.toNat
    | .error _ _ => 0
  else 0

/-- How many functions some sections declare. -/
def declared (sections : List Frame) : Nat :=
  (sections.map declares).sum

theorem declared_concat (sections : List Frame) (frame : Frame) :
    declared (sections ++ [frame]) = declared sections + frame.declares := by
  simp [declared]

/-- The sections after the last code section. -/
def afterCode (sections : List Frame) : List Frame :=
  sections.rtakeWhile fun frame => frame.id ≠ 10

theorem declared_afterCode_concat (sections : List Frame) (frame : Frame) :
    declared (afterCode (sections ++ [frame])) =
      if frame.id = 10 then 0 else declared (afterCode sections) + frame.declares := by
  unfold afterCode
  split
  · rename_i hcode
    rw [List.rtakeWhile_concat_neg _ _ _ (by simp [hcode])]
    rfl
  · rename_i hcode
    rw [List.rtakeWhile_concat_pos _ _ _ (by simp [hcode]), declared_concat]

end Frame

namespace Decode

variable {config : Config} {frame : Frame} {state state' : Decoding}

theorem framedSection_ok (h : framedSection config frame state = .ok () state') :
    sectionBody config frame.id { state with input := .ofBytes frame.payload } = .ok () state' := by
  obtain ⟨done, between, hinput, h⟩ := run_bind_eq_ok h
  cases hinput
  obtain ⟨done, between, hbody, h⟩ := run_bind_eq_ok h
  rw [hbody]
  rw [run_get_bind] at h
  split at h
  · cases h
  · cases h
    rfl

/-- A section other than a code section adds imports and functions that wait for a body. -/
theorem framedSection_adds (h : framedSection config frame state = .ok () state') (hcode : frame.id ≠ 10) :
    ∃ imports, state'.draft.module.facets =
        state.draft.module.facets ++ (List.replicate imports .imported ++ List.replicate frame.declares .declared) ∧
      state'.pending = state.pending ++ List.range' (state.draft.module.facets.length + imports) frame.declares := by
  have hbody := framedSection_ok h
  by_cases hfunctions : frame.id = 3
  · rw [hfunctions] at hbody
    obtain ⟨count, between, hcount, hbody⟩ := run_bind_eq_ok hbody
    obtain ⟨input, hread, rfl⟩ := run_read_eq_ok hcount
    have hdeclares : frame.declares = count.toNat := by
      unfold Frame.declares
      rw [if_pos hfunctions, hread]
    have hadded := times_functionEntry_ok hbody
    rw [hdeclares]
    exact ⟨0, hadded⟩
  · have hdeclares : frame.declares = 0 := if_neg hfunctions
    have hkeeps := imports_closed.sectionBody config hfunctions hcode { state with input := .ofBytes frame.payload }
    rw [hbody] at hkeeps
    obtain ⟨hpending, imports, hfacets⟩ := hkeeps
    refine ⟨imports, ?_, ?_⟩
    · rw [hdeclares, List.replicate_zero, List.append_nil]
      exact hfacets
    · rw [hdeclares, List.range'_zero, List.append_nil]
      exact hpending

theorem framedSection_fills (h : framedSection config frame state = .ok () state') (hcode : frame.id = 10) :
    state'.draft.module.facets =
        state.pending.foldl (fun facets index => facets.modify index .fill) state.draft.module.facets ∧
      state'.pending = [] := by
  have hbody := framedSection_ok h
  rw [hcode] at hbody
  change codeSection _ = _ at hbody
  have hfilled := codeSection_ok hbody
  exact hfilled

end Decode

namespace Func.Facet

variable {facets : List Facet}

theorem findIdxs_imported (count start : Nat) : (List.replicate count imported).findIdxs waits start = [] := by
  refine List.findIdxs_eq_nil_iff.2 fun facet hfacet => ?_
  rw [List.eq_of_mem_replicate hfacet]
  rfl

theorem findIdxs_declared (count start : Nat) :
    (List.replicate count declared).findIdxs waits start = List.range' start count := by
  induction count generalizing start with
  | zero => rfl
  | succ count ih =>
    have hwaits : declared.waits = true := rfl
    rw [List.replicate_succ, List.findIdxs_cons, if_pos hwaits, ih, List.range'_succ]

theorem getElem?_fill (indices : List Nat) (facets : List Facet) (index : Nat) :
    (indices.foldl (fun facets index => facets.modify index fill) facets)[index]? =
      if index ∈ indices then facets[index]?.map fill else facets[index]? := by
  induction indices generalizing facets with
  | nil => simp
  | cons first indices ih =>
    have hfill (facet : Facet) : facet.fill.fill = facet.fill := rfl
    rw [List.foldl_cons, ih, List.getElem?_modify]
    cases facets[index]? with
    | none => simp
    | some facet =>
      by_cases hfirst : first = index
      · simp [hfirst, hfill]
      · simp [hfirst, Ne.symm hfirst]

theorem isImport_fill (indices : List Nat) (facets : List Facet) :
    (indices.foldl (fun facets index => facets.modify index fill) facets).map isImport =
      facets.map isImport := by
  refine List.ext_getElem? fun index => ?_
  rw [List.getElem?_map, List.getElem?_map, getElem?_fill]
  split
  · rw [Option.map_map]
    rfl
  · rfl

/-- A function has a body or waits for one, unless it is imported. -/
theorem countP_body (h : ∀ facet ∈ facets, facet.isImport → facet.hasBody = false) :
    facets.countP (·.hasBody) + facets.countP waits = facets.countP (!·.isImport) := by
  induction facets with
  | nil => rfl
  | cons facet facets ih =>
    have hrest := ih fun other hother => h other (List.mem_cons_of_mem _ hother)
    have hfacet := h facet List.mem_cons_self
    obtain ⟨isImport, hasBody, code⟩ := facet
    simp only [List.countP_cons]
    cases isImport with
    | true =>
      cases hfacet rfl
      simp [waits]
      omega
    | false =>
      cases hasBody <;> simp [waits] <;> omega

end Func.Facet

open Func.Facet

/-- After some sections the functions that wait for a body are those declared since the last code section, no import has
one, and no function has an entry. -/
structure Decoding.Tracks (sections : List Frame) (state : Decoding) : Prop where
  bare : ∀ facet ∈ state.draft.module.facets, facet.isImport → facet.hasBody = false
  fresh : ∀ facet ∈ state.draft.module.facets, facet.code = none
  pending : state.pending = state.draft.module.facets.findIdxs waits
  defined : state.draft.module.facets.countP (!·.isImport) = Frame.declared sections
  waiting : state.pending.length = Frame.declared (Frame.afterCode sections)

namespace Decode

variable {config : Config} {frame : Frame} {sections : List Frame} {state state' : Decoding}

theorem tracks_adds (h : state.Tracks sections) (hcode : frame.id ≠ 10)
    (hrun : framedSection config frame state = .ok () state') : state'.Tracks (sections ++ [frame]) := by
  obtain ⟨imports, hfacets, hpending⟩ := framedSection_adds hrun hcode
  have hadded : ∀ facet ∈ List.replicate imports imported ++ List.replicate frame.declares declared,
      facet.hasBody = false ∧ facet.code = none := by
    intro facet hfacet
    rcases List.mem_append.1 hfacet with hfacet | hfacet
    · rw [List.eq_of_mem_replicate hfacet]
      exact ⟨rfl, rfl⟩
    · rw [List.eq_of_mem_replicate hfacet]
      exact ⟨rfl, rfl⟩
  constructor
  case bare =>
    intro facet hfacet himport
    rw [hfacets] at hfacet
    rcases List.mem_append.1 hfacet with hfacet | hfacet
    · exact h.bare facet hfacet himport
    · exact (hadded facet hfacet).1
  case fresh =>
    intro facet hfacet
    rw [hfacets] at hfacet
    rcases List.mem_append.1 hfacet with hfacet | hfacet
    · exact h.fresh facet hfacet
    · exact (hadded facet hfacet).2
  case pending =>
    rw [hfacets, hpending, h.pending, List.findIdxs_append, List.findIdxs_append, findIdxs_imported,
      findIdxs_declared, List.length_replicate, List.nil_append, Nat.zero_add]
  case defined =>
    rw [hfacets, List.countP_append, List.countP_append, List.countP_replicate, List.countP_replicate, h.defined,
      Frame.declared_concat]
    simp [imported, declared]
  case waiting =>
    rw [hpending, List.length_append, List.length_range', h.waiting, Frame.declared_afterCode_concat, if_neg hcode]

/-- After a code section a function is as before and waits for nothing, or it waited and has a body now. -/
theorem facets_filled (h : state.Tracks sections) (hcode : frame.id = 10)
    (hrun : framedSection config frame state = .ok () state') {facet : Func.Facet}
    (hfacet : facet ∈ state'.draft.module.facets) :
    facet ∈ state.draft.module.facets ∧ facet.waits = false ∨
      ∃ old ∈ state.draft.module.facets, old.waits ∧ facet = old.fill := by
  obtain ⟨index, hindex⟩ := List.mem_iff_getElem?.1 hfacet
  rw [(framedSection_fills hrun hcode).1, getElem?_fill, h.pending] at hindex
  split at hindex
  · rename_i hmem
    obtain ⟨old, hold, rfl⟩ := Option.map_eq_some_iff.1 hindex
    obtain ⟨hlt, hget⟩ := List.getElem?_eq_some_iff.1 hold
    have hwaits := (List.mem_findIdxs_iff_pos_getElem hlt).1 hmem
    rw [hget] at hwaits
    exact .inr ⟨old, List.mem_of_getElem? hold, hwaits, rfl⟩
  · rename_i hmem
    obtain ⟨hlt, hget⟩ := List.getElem?_eq_some_iff.1 hindex
    rw [List.mem_findIdxs_iff_pos_getElem hlt, hget, Bool.not_eq_true] at hmem
    exact .inl ⟨List.mem_of_getElem? hindex, hmem⟩

theorem tracks_fills (h : state.Tracks sections) (hcode : frame.id = 10)
    (hrun : framedSection config frame state = .ok () state') : state'.Tracks (sections ++ [frame]) := by
  obtain ⟨hfacets, hpending⟩ := framedSection_fills hrun hcode
  have hdeclares : frame.declares = 0 := if_neg (by rw [hcode]; decide)
  constructor
  case bare =>
    intro facet hfacet himport
    obtain ⟨hsame, -⟩ | ⟨old, hold, hwaits, rfl⟩ := facets_filled h hcode hrun hfacet
    · exact h.bare facet hsame himport
    · -- A function that waits is not imported.
      have himport' : old.isImport = true := himport
      simp [waits, himport'] at hwaits
  case fresh =>
    intro facet hfacet
    obtain ⟨hsame, -⟩ | ⟨old, hold, -, rfl⟩ := facets_filled h hcode hrun hfacet
    · exact h.fresh facet hsame
    · exact h.fresh old hold
  case pending =>
    rw [hpending]
    refine (List.findIdxs_eq_nil_iff.2 fun facet hfacet => ?_).symm
    obtain ⟨-, hwaits⟩ | ⟨old, hold, -, rfl⟩ := facets_filled h hcode hrun hfacet
    · exact hwaits
    · exact Bool.and_false _
  case defined =>
    have hcount (facets : List Func.Facet) :
        facets.countP (!·.isImport) = (facets.map Func.Facet.isImport).countP (!·) := by
      rw [List.countP_map]
      rfl
    rw [hcount, hfacets, isImport_fill, ← hcount, h.defined, Frame.declared_concat, hdeclares, Nat.add_zero]
  case waiting =>
    rw [hpending, Frame.declared_afterCode_concat, if_pos hcode]
    rfl

theorem tracks_frames {list : List Frame} (h : state.Tracks sections)
    (hrun : frames (framedSection config) none list state = .ok () state') : state'.Tracks (sections ++ list) := by
  induction list generalizing state sections with
  | nil =>
    cases hrun
    rwa [List.append_nil]
  | cons frame list ih =>
    obtain ⟨done, between, hframe, hrest⟩ := run_bind_eq_ok hrun
    have hbetween : between.Tracks (sections ++ [frame]) := by
      by_cases hcode : frame.id = 10
      · exact tracks_fills h hcode hframe
      · exact tracks_adds h hcode hframe
    have hafter := ih hbetween hrest
    rwa [List.append_assoc, List.singleton_append] at hafter

end Decode

namespace Module

variable {config : Config} {registry : TypeRegistry} {bytes : List UInt8} {module : Module}

theorem tracks_of_decode (h : (Module.decode config registry bytes).1 = .ok module) :
    ∃ word sections state, bytes = Form.header ++ word ∧ word ∈ Form.frames sections ∧
      Decoding.Tracks sections state ∧ state.draft.module = module := by
  obtain ⟨word, sections, state, hbytes, hword, hframes, hmodule⟩ := frames_of_decode h
  have hstart : Decoding.Tracks [] { draft := { registry } } := ⟨by simp [facets], by simp [facets], rfl, rfl, rfl⟩
  exact ⟨word, sections, state, hbytes, hword, Decode.tracks_frames hstart hframes, hmodule⟩

theorem countP_facets (module : Module) (p : Func.Facet → Bool) :
    module.functions.countP (fun func => p func.facet) = module.facets.countP p := by
  rw [← Array.countP_toList, facets, List.countP_map]
  rfl

theorem facet_mem {func : Func} (h : func ∈ module.functions) : func.facet ∈ module.facets :=
  List.mem_map_of_mem (Array.mem_toList_iff.2 h)

/-- Sections account for the functions of a module: no import has a body, the others are those that function sections
declare, and the ones declared after the last code section have none. -/
structure Accounted (sections : List Frame) (module : Module) : Prop where
  imports : ∀ func ∈ module.functions, func.isImport → func.body = none
  defined : module.functions.countP (!·.isImport) = Frame.declared sections
  bodies : module.functions.countP (·.body.isSome) + Frame.declared (Frame.afterCode sections) = Frame.declared sections
  complete : (∀ func ∈ module.functions, func.isImport = false → func.body.isSome) ↔
    Frame.declared (Frame.afterCode sections) = 0

theorem accounted_of_tracks {sections : List Frame} {state : Decoding} (h : state.Tracks sections) :
    Accounted sections state.draft.module := by
  have hwaiting : state.draft.module.facets.countP waits = Frame.declared (Frame.afterCode sections) := by
    rw [← h.waiting, h.pending, List.length_findIdxs]
  constructor
  case imports =>
    intro func hfunc himport
    have hbody : func.body.isSome = false := h.bare func.facet (facet_mem hfunc) himport
    simpa using hbody
  case defined => exact (countP_facets _ (!·.isImport)).trans h.defined
  case bodies =>
    rw [← hwaiting, ← h.defined, ← countP_body h.bare]
    exact congrArg (· + _) (countP_facets _ (·.hasBody))
  case complete =>
    rw [← hwaiting, ← countP_facets, Array.countP_eq_zero]
    refine forall₂_congr fun func _ => ?_
    cases himport : func.isImport <;> simp [Func.facet, waits, himport, Option.isSome_iff_ne_none]

/-- The sections of a module that was decoded account for its functions: each of them has a body exactly if none is
declared after the last code section. -/
theorem decode_bodies (h : (Module.decode config registry bytes).1 = .ok module) :
    ∃ (word : List UInt8) (sections : List Frame), bytes = Form.header ++ word ∧ word ∈ Form.frames sections ∧
      Accounted sections module := by
  obtain ⟨word, sections, state, hbytes, hword, htracks, rfl⟩ := tracks_of_decode h
  exact ⟨word, sections, hbytes, hword, accounted_of_tracks htracks⟩

/-- An import, a function with a body, and one that is declared after the code section. -/
def unfinished : List UInt8 :=
  Form.header ++ [0x01, 0x04, 0x01, 0x60, 0x00, 0x00, 0x02, 0x07, 0x01, 0x01, 0x6D, 0x01, 0x66, 0x00, 0x00, 0x03, 0x02,
    0x01, 0x00, 0x0A, 0x04, 0x01, 0x02, 0x00, 0x0B, 0x03, 0x02, 0x01, 0x00]

theorem decode_bodies_unfinished :
    ∃ module, (Module.decode {} {} unfinished).1 = .ok module ∧
      module.functions.toList.map (fun func => (func.isImport, func.body)) =
        [(true, none), (false, some [0x0B]), (false, none)] ∧
      ∃ (word : List UInt8) (sections : List Frame), unfinished = Form.header ++ word ∧ word ∈ Form.frames sections ∧
        Accounted sections module := by
  have hdecode : (Module.decode {} {} unfinished).1.toOption.map (fun module =>
      module.functions.toList.map fun func => (func.isImport, func.body)) =
      some [(true, none), (false, some [0x0B]), (false, none)] := by
    decide +kernel
  obtain ⟨module, hmodule, hfunctions⟩ := Option.map_eq_some_iff.1 hdecode
  have h : (Module.decode {} {} unfinished).1 = .ok module := eq_ok_of_toOption hmodule
  exact ⟨module, h, hfunctions, decode_bodies h⟩

/-- A function section without a code section gives a function that is neither imported nor has a body. -/
theorem decode_without_bodies :
    ∃ module, (Module.decode {} {}
        (Form.header ++ [0x01, 0x04, 0x01, 0x60, 0x00, 0x00, 0x03, 0x02, 0x01, 0x00])).1 = .ok module ∧
      ∃ func ∈ module.functions, func.isImport = false ∧ func.body = none := by
  have hdecode : (Module.decode {} {}
      (Form.header ++ [0x01, 0x04, 0x01, 0x60, 0x00, 0x00, 0x03, 0x02, 0x01, 0x00])).1.toOption.map (fun module =>
        module.functions.toList.map fun func => (func.isImport, func.body)) = some [(false, none)] := by
    decide +kernel
  obtain ⟨module, hmodule, hfunctions⟩ := Option.map_eq_some_iff.1 hdecode
  have hmem : (false, none) ∈ module.functions.toList.map fun func => (func.isImport, func.body) := by
    rw [hfunctions]
    exact List.mem_singleton_self _
  obtain ⟨func, hfunc, hfacts⟩ := List.mem_map.1 hmem
  obtain ⟨himport, hbody⟩ := Prod.mk.inj hfacts
  exact ⟨module, eq_ok_of_toOption hmodule, func, Array.mem_toList_iff.1 hfunc, himport, hbody⟩

end Module

end WasmEngine
