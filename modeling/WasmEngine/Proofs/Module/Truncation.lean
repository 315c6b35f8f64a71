import WasmEngine.Proofs.Module.Closure
import WasmEngine.Proofs.Module.Sections

/-!
# Modules that break off

Decoding sees only the types and how many functions the module has. So bytes that can be decoded, cut off after one of
their sections, can be decoded; cut off elsewhere, they are an underrun.
-/

namespace WasmEngine

variable {α : Type}

/-! ## What decoding sees -/

namespace Draft

/-- The types that the module lists, whatever their handles are, and how many functions it has. -/
def shape (draft : Draft) : List FuncType × Nat :=
  (draft.module.types.toList.map TypeHandle.type, draft.module.functions.size)

theorem size_types_of_shape {draft draft' : Draft} (h : draft.shape = draft'.shape) :
    draft.module.types.size = draft'.module.types.size := by
  have hlength := congrArg List.length (Prod.mk.inj h).1
  simpa using hlength

theorem factors_edit {change : Module → Module}
    (h : ∀ module, (change module).types = module.types ∧ (change module).functions.size = module.functions.size) :
    Factors shape (edit change) := by
  refine .modify fun draft draft' hshape => ?_
  unfold shape
  rw [(h draft.module).1, (h draft.module).2, (h draft'.module).1, (h draft'.module).2]
  exact hshape

theorem factors_pushType (type : FuncType) : Factors shape (pushType type) := by
  refine .modify fun draft draft' hshape => ?_
  obtain ⟨htypes, hfunctions⟩ := Prod.mk.inj hshape
  simp [shape, htypes, hfunctions, (TypeRegistry.intern_spec _ type).1]

theorem factors_updateFunction (index : Nat) (change : Func → Func) : Factors shape (updateFunction index change) := by
  refine .get_bind (fun draft => .ite _ (factors_edit fun module => ⟨rfl, ?_⟩) (.throw _)) fun draft draft' hshape => ?_
  · exact Array.size_modify
  · rw [(Prod.mk.inj hshape).2]

theorem factors_pushGlobal (global : Global) : Factors shape (do let _ ← pushGlobal global : Drafting Unit) :=
  factors_edit fun _ => ⟨rfl, rfl⟩

theorem shape_pushFunction (func : Func) (draft : Draft) :
    shape (stateAfter (pushFunction func draft)) = (draft.shape.1, draft.shape.2 + 1) := by
  have hafter : stateAfter (pushFunction func draft) =
      { draft with module := { draft.module with functions := draft.module.functions.push func } } := rfl
  rw [hafter]
  unfold shape
  rw [Array.size_push]

theorem typeAt_of_size_le {index : Nat} {draft : Draft} (h : draft.module.types.size ≤ index) :
    typeAt index draft = .error .invalidTypeId draft := by
  unfold typeAt
  rw [run_get_bind, Array.getElem?_eq_none h]
  rfl

/-- A function is added with one of the types. The handle is not seen, only whether there is one. -/
theorem factors_place (index : Nat) (make : TypeHandle → Func) :
    Factors shape (do pushFunction (make (← typeAt index)) : Drafting Nat) := by
  intro draft draft' hshape
  have htypes := size_types_of_shape hshape
  obtain ⟨-, hfunctions⟩ := Prod.mk.inj hshape
  by_cases hlt : index < draft.module.types.size
  · have hlt' : index < draft'.module.types.size := htypes ▸ hlt
    rw [run_bind_of_ok (run_typeAt (Array.getElem?_eq_getElem hlt)),
      run_bind_of_ok (run_typeAt (Array.getElem?_eq_getElem hlt'))]
    refine ⟨congrArg Except.ok hfunctions, ?_⟩
    rw [shape_pushFunction, shape_pushFunction, hshape]
  · have hle : draft.module.types.size ≤ index := Nat.le_of_not_lt hlt
    rw [run_bind_of_error (typeAt_of_size_le hle), run_bind_of_error (typeAt_of_size_le (htypes ▸ hle))]
    exact ⟨rfl, hshape⟩

end Draft

namespace Decode

/-- What decoding sees of its state: the bytes, the functions that wait for a body, the types and how many functions
there are. -/
def view (state : Decoding) : Reader × List Nat × List FuncType × Nat :=
  (state.input, state.pending, state.draft.shape)

theorem factors_read (program : Read α) : Factors view (read program) := by
  intro state state' hview
  obtain ⟨hinput, hrest⟩ := Prod.mk.inj hview
  unfold read
  rw [hinput]
  cases program state'.input with
  | ok value next => exact ⟨rfl, congrArg (next, ·) hrest⟩
  | error error next => exact ⟨rfl, congrArg (next, ·) hrest⟩

theorem factors_draft {step : Drafting α} (h : Factors Draft.shape step) : Factors view (draft step) := by
  intro state state' hview
  obtain ⟨hinput, hrest⟩ := Prod.mk.inj hview
  obtain ⟨hpending, hshape⟩ := Prod.mk.inj hrest
  obtain ⟨hresult, hafter⟩ := h state.draft state'.draft hshape
  have hrun (state : Decoding) : resultOf (draft step state) = resultOf (step state.draft) ∧
      stateAfter (draft step state) = { state with draft := stateAfter (step state.draft) } := by
    unfold draft
    cases step state.draft <;> exact ⟨rfl, rfl⟩
  rw [(hrun state).1, (hrun state').1, (hrun state).2, (hrun state').2]
  refine ⟨hresult, ?_⟩
  unfold view
  rw [hafter, hinput, hpending]

theorem factors_place (index : Nat) (make : TypeHandle → Func) {next : Nat → Decode Unit}
    (h : ∀ place, Factors view (next place)) :
    Factors view (do
      let handle ← draft (Draft.typeAt index)
      let place ← draft (Draft.pushFunction (make handle))
      next place) := by
  have hplace := (factors_draft (Draft.factors_place index make)).bind h
  rw [draft_bind, bind_assoc] at hplace
  exact hplace

theorem factors_modify (change : Reader × List Nat → Reader × List Nat) :
    Factors view (modify fun state =>
      { state with
        input := (change (state.input, state.pending)).1, pending := (change (state.input, state.pending)).2 } :
        Decode PUnit) := by
  refine .modify fun state state' hview => ?_
  obtain ⟨hinput, hrest⟩ := Prod.mk.inj hview
  obtain ⟨hpending, hshape⟩ := Prod.mk.inj hrest
  unfold view
  rw [hinput, hpending, hshape]

theorem factors_total : Total fun _ program => Factors view program where
  pure := .pure
  throw := .throw
  bind := .bind
  read := factors_read
  input bytes := factors_modify fun seen => (.ofBytes bytes, seen.2)
  pushType type := factors_draft (Draft.factors_pushType type)
  pushImport index name := factors_place index (.ofImport · name) fun _ => .pure _
  pushGlobal global := factors_draft (Draft.factors_pushGlobal global)
  edit h := factors_draft (Draft.factors_edit fun module => ⟨(h module).1, congrArg Array.size (h module).2.1⟩)
  require index := factors_draft (Draft.factors_updateFunction index id)
  giveName _ _ := factors_draft (Draft.factors_edit fun _ => ⟨rfl, Array.size_modify⟩)
  exportName index _ := factors_draft (Draft.factors_updateFunction index _)
  look hnext hsame := .get_bind hnext fun state state' hview =>
    hsame state state' (Prod.mk.inj hview).1 (Prod.mk.inj (Prod.mk.inj hview).2).1
  declare index := factors_place index .declared fun function =>
    factors_modify fun seen => (seen.1, seen.2 ++ [function])
  forget := factors_modify fun seen => (seen.1, [])
  fill function _ _ := factors_draft (Draft.factors_updateFunction function _)

/-- Whether sections can be worked through does not depend on the types that are known. -/
theorem frames_ok_congr {config : Config} {registry : TypeRegistry} {list : List Frame} {state : Decoding}
    (h : frames (framedSection config) none list { draft := { registry } } = .ok () state)
    (registry' : TypeRegistry) :
    ∃ state', frames (framedSection config) none list { draft := { registry := registry' } } = .ok () state' := by
  have hresult := (factors_total.sections config none list { draft := { registry } }
    { draft := { registry := registry' } } rfl).1
  rw [h] at hresult
  exact ⟨_, eq_ok_of_resultOf hresult.symm⟩

end Decode

/-! ## Cutting -/

/-- The bytes are a header and sections, and the header or a section ends after `count` bytes. -/
def Form.EndsAt (bytes : List UInt8) (count : Nat) : Prop :=
  ∃ (word : List UInt8) (before after : List Frame),
    bytes.take count = header ++ word ∧ word ∈ frames before ∧ bytes.drop count ∈ frames after

namespace Module

variable {config : Config} {registry : TypeRegistry} {bytes : List UInt8} {module : Module}

theorem decode_take_of_endsAt (h : (Module.decode config registry bytes).1 = .ok module) (registry' : TypeRegistry)
    {count : Nat} (hends : Form.EndsAt bytes count) :
    ∃ part, (Module.decode config registry' (bytes.take count)).1 = .ok part := by
  obtain ⟨word, before, after, htake, hword, -⟩ := hends
  have hbytes : bytes = Form.header ++ (word ++ bytes.drop count) := by
    rw [← List.append_assoc, ← htake, List.take_append_drop]
  rw [hbytes] at h
  obtain ⟨state, hsections, -⟩ := sections_of_decode h
  rw [Decode.sections_append hword] at hsections
  obtain ⟨done, between, hbefore, -⟩ := run_bind_eq_ok hsections
  obtain ⟨state', hbefore'⟩ := Decode.frames_ok_congr hbefore registry'
  refine ⟨state'.draft.module, ?_⟩
  rw [htake, decode_frames hword, hbefore']
  rfl

/-- Less than a header lacks bytes. -/
theorem decode_take_header (config : Config) (registry : TypeRegistry) {count : Nat} (h : count < 8) :
    (Module.decode config registry (Form.header.take count)).1 = .error .underrun := by
  have hback : Form.header.drop count ≠ [] := by
    intro hnil
    have hlength : 8 ≤ count := List.drop_eq_nil_iff.1 hnil
    omega
  obtain ⟨stopped, hheader⟩ :=
    Binary.awaits_header (Form.header.take count) (Form.header.drop count) (List.take_append_drop _ _) hback 0
  unfold Module.decode
  rw [Reader.ofBytes, hheader]

/-- Sections of which the last is incomplete lack bytes. -/
theorem decode_part {part : List UInt8} {before : List Frame} {state : Decoding}
    (hsplit : Frame.split part = (before, some .underrun))
    (h : Decode.frames (Decode.framedSection config) none before { draft := { registry } } = .ok () state) :
    (Module.decode config registry (Form.header ++ part)).1 = .error .underrun := by
  have hsections : Decode.sections config part { draft := { registry } } = .error .underrun state := by
    unfold Decode.sections
    rw [hsplit, Decode.frames_fault, run_bind_of_ok h]
    rfl
  rw [decode_append, hsections]
  rfl

theorem decode_take_of_not_endsAt (h : (Module.decode config registry bytes).1 = .ok module)
    (registry' : TypeRegistry) {count : Nat} (hends : ¬Form.EndsAt bytes count) :
    (Module.decode config registry' (bytes.take count)).1 = .error .underrun := by
  obtain ⟨word, list, state, rfl, hword, hframes, -⟩ := frames_of_decode h
  by_cases hcount : count < 8
  · rw [List.take_append_of_le_length (Nat.le_of_lt hcount)]
    exact decode_take_header config registry' hcount
  · obtain ⟨rest, rfl⟩ : ∃ rest, count = Form.header.length + rest := Nat.exists_eq_add_of_le (Nat.not_lt.1 hcount)
    rw [List.take_length_add_append]
    have hcut : word.take rest ++ word.drop rest ∈ Form.frames list := by
      rwa [List.take_append_drop]
    obtain ⟨before, after, rfl, ⟨hfront, hback⟩ | hsplit⟩ := Frame.split_cut hcut
    · refine absurd ⟨word.take rest, before, after, ?_, hfront, ?_⟩ hends
      · exact List.take_length_add_append _
      · rwa [List.drop_length_add_append]
    · rw [Decode.frames_append] at hframes
      obtain ⟨done, between, hbefore, -⟩ := run_bind_eq_ok hframes
      obtain ⟨state', hbefore'⟩ := Decode.frames_ok_congr hbefore registry'
      exact decode_part hsplit hbefore'

/-- Bytes that can be decoded and are cut off can be decoded exactly if the cut is at the end of the header or of a
section. Otherwise there are bytes missing, and nothing else is wrong. -/
theorem decode_take (h : (Module.decode config registry bytes).1 = .ok module) (registry' : TypeRegistry)
    (count : Nat) :
    ((∃ part, (Module.decode config registry' (bytes.take count)).1 = .ok part) ↔ Form.EndsAt bytes count) ∧
      (¬Form.EndsAt bytes count → (Module.decode config registry' (bytes.take count)).1 = .error .underrun) := by
  refine ⟨⟨?_, decode_take_of_endsAt h registry'⟩, decode_take_of_not_endsAt h registry'⟩
  rintro ⟨part, hpart⟩
  by_contra hends
  cases hpart.symm.trans (decode_take_of_not_endsAt h registry' hends)

/-- A type section and a table section that takes two bytes for its size. -/
def twoSections : List UInt8 :=
  Form.header ++ [0x01, 0x04, 0x01, 0x60, 0x00, 0x00, 0x04, 0x82, 0x00, 0xFF, 0xFF]

/-- The two sections cut between them, inside a size and inside the header. -/
theorem decode_take_sample :
    ∃ module, (Module.decode {} {} twoSections).1 = .ok module ∧
      (∃ part, (Module.decode {} ⟨#[⟨some .i32, []⟩]⟩ (twoSections.take 14)).1 = .ok part) ∧
      (Module.decode {} {} (twoSections.take 16)).1 = .error .underrun ∧
      (Module.decode {} {} (twoSections.take 5)).1 = .error .underrun := by
  have hok : (Module.decode {} {} twoSections).1.isOk = true := by
    decide +kernel
  obtain ⟨module, h⟩ := exists_of_isOk hok
  have hinside (count : Nat) (hfails : (Module.decode {} {} (twoSections.take count)).1.isOk = false) :
      ¬Form.EndsAt twoSections count := by
    intro hends
    obtain ⟨part, hpart⟩ := (decode_take h {} count).1.2 hends
    rw [hpart] at hfails
    cases hfails
  refine ⟨module, h, (decode_take h _ 14).1.2 ?_, (decode_take h _ 16).2 (hinside 16 (by decide +kernel)),
    (decode_take h _ 5).2 (hinside 5 (by decide +kernel))⟩
  refine ⟨[0x01, 0x04, 0x01, 0x60, 0x00, 0x00], [⟨1, [0x01, 0x60, 0x00, 0x00]⟩], [⟨4, [0xFF, 0xFF]⟩], rfl, ?_, ?_⟩
  · exact Form.append_mem_frames [0x04] (Description.mem_u32 (by decide)) (Form.mem_frames_nil.2 rfl)
  · exact Form.append_mem_frames [0x82, 0x00] (Description.mem_u32 (by decide)) (Form.mem_frames_nil.2 rfl)

end Module

end WasmEngine
