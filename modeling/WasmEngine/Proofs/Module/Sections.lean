import WasmEngine.Proofs.Module.RoundTrip

/-!
# Decoding section by section

Each section is read with a cursor of its own, so nothing depends on the cursor that the one before it left, and a
section that leaves the draft as it is can stand anywhere between two others.
-/

namespace WasmEngine

namespace Decode

variable {config : Config}

theorem frames_append (step : Frame → Decode Unit) (fault : Option Error) (first second : List Frame) :
    frames step fault (first ++ second) = (do frames step none first; frames step fault second) := by
  induction first with
  | nil => exact (pure_bind _ _).symm
  | cons frame first ih =>
    rw [List.cons_append, frames, ih, frames, bind_assoc]

theorem sections_append {list : List Frame} {word : List UInt8} (h : word ∈ Form.frames list) (rest : List UInt8) :
    sections config (word ++ rest) = (do frames (framedSection config) none list; sections config rest) := by
  unfold sections
  rw [Frame.split_append h, frames_append]

/-- Sections that break off are worked through before the fault. -/
theorem frames_fault (step : Frame → Decode Unit) (fault : Option Error) (list : List Frame) :
    frames step fault list = (do frames step none list; frames step fault []) := by
  have happend := frames_append step fault list []
  rwa [List.append_nil] at happend

/-- Bytes that are worked through without an error are complete sections. -/
theorem frames_of_sections {bytes : List UInt8} {state state' : Decoding}
    (h : sections config bytes state = .ok () state') :
    ∃ list, bytes ∈ Form.frames list ∧ frames (framedSection config) none list state = .ok () state' := by
  unfold sections at h
  cases hsplit : Frame.split bytes with
  | mk list fault =>
    rw [hsplit] at h
    cases fault with
    | none => exact ⟨list, Frame.mem_frames_of_split hsplit, h⟩
    | some error =>
      rw [frames_fault] at h
      obtain ⟨-, between, -, hthrow⟩ := run_bind_eq_ok h
      cases hthrow

/-- What decoding gives in the end. -/
def outcome (result : EStateM.Result Error Decoding Unit) : Except Error Module × TypeRegistry :=
  ((resultOf result).map fun _ => (stateAfter result).draft.module, (stateAfter result).draft.registry)

/-- It does not matter where the cursor stands before a section. -/
theorem outcome_reading (bytes : List UInt8) (state : Decoding) (input : Reader) :
    outcome (sections config bytes (state.reading input)) = outcome (sections config bytes state) := by
  unfold sections
  cases (Frame.split bytes).1 with
  | nil => cases (Frame.split bytes).2 <;> rfl
  | cons frame list => rfl

end Decode

namespace Module

variable {config : Config} {registry : TypeRegistry} {bytes : List UInt8}

theorem decode_append (config : Config) (registry : TypeRegistry) (bytes : List UInt8) :
    Module.decode config registry (Form.header ++ bytes) =
      Decode.outcome (Decode.sections config bytes { draft := { registry } }) := by
  have hheader : Binary.header (Reader.ofBytes (Form.header ++ bytes)) = .ok () ⟨Form.header.length, bytes⟩ :=
    Binary.reads_header Form.header rfl bytes trivial 0
  unfold Module.decode
  rw [hheader]
  dsimp only
  unfold Decode.sections
  cases Decode.frames (Decode.framedSection config) (Frame.split bytes).2 (Frame.split bytes).1
      { draft := { registry } } with
  | ok done state => rfl
  | error error state => rfl

theorem decode_frames {list : List Frame} {word : List UInt8} (h : word ∈ Form.frames list) :
    Module.decode config registry (Form.header ++ word) =
      Decode.outcome (Decode.frames (Decode.framedSection config) none list { draft := { registry } }) := by
  have hsections : Decode.sections config word = Decode.frames (Decode.framedSection config) none list := by
    unfold Decode.sections
    rw [← List.append_nil word, Frame.split_append h, Frame.split, List.append_nil]
  rw [decode_append, hsections]

/-- Bytes that do not start with a header are refused. -/
theorem header_of_decode {module : Module} (h : (Module.decode config registry bytes).1 = .ok module) :
    ∃ rest, bytes = Form.header ++ rest := by
  unfold Module.decode at h
  cases hheader : Binary.header (Reader.ofBytes bytes) with
  | error error next =>
    rw [hheader] at h
    cases h
  | ok done next => exact ⟨next.rest, Binary.eq_append_of_header hheader⟩

theorem sections_of_decode {module : Module}
    (h : (Module.decode config registry (Form.header ++ bytes)).1 = .ok module) :
    ∃ state, Decode.sections config bytes { draft := { registry } } = .ok () state ∧ state.draft.module = module := by
  rw [decode_append] at h
  cases hsections : Decode.sections config bytes { draft := { registry } } with
  | error error state =>
    rw [hsections] at h
    cases h
  | ok done state =>
    rw [hsections] at h
    exact ⟨state, rfl, Except.ok.inj h⟩

/-- Bytes that are decoded are a header and complete sections. -/
theorem frames_of_decode {module : Module} (h : (Module.decode config registry bytes).1 = .ok module) :
    ∃ word list state, bytes = Form.header ++ word ∧ word ∈ Form.frames list ∧
      Decode.frames (Decode.framedSection config) none list { draft := { registry } } = .ok () state ∧
      state.draft.module = module := by
  obtain ⟨word, rfl⟩ := header_of_decode h
  obtain ⟨state, hsections, hmodule⟩ := sections_of_decode h
  obtain ⟨list, hword, hframes⟩ := Decode.frames_of_sections hsections
  exact ⟨word, list, state, rfl, hword, hframes, hmodule⟩

end Module

/-! ## Sections that are passed over -/

namespace Form

/-- A custom section other than the name section. -/
def custom (limit : Nat) : Language UInt8 :=
  {word | ∃ name, name ≠ "name" ∧ (Text.Utf8.encode name).length ≤ limit ∧ word ∈ framed 0 (text name * ⊤)}

/-- A section that says nothing: a custom section, a table section or a number of data segments. -/
def skipped (limit : Nat) : Language UInt8 :=
  custom limit + framed 4 ⊤ + framed 12 index

end Form

namespace Decode

variable {config : Config}

theorem advances_custom (state : Decoding) {name : String} (hname : name ≠ "name")
    (hlimit : (Text.Utf8.encode name).length ≤ config.textLimit) :
    Advances config (Form.framed 0 (Form.text name * ⊤)) state state := by
  refine .framed fun content hcontent => ?_
  obtain ⟨front, hfront, back, -, rfl⟩ := Language.mem_mul.1 hcontent
  have hsection : Takes 1 (sectionBody config 0) state.reading state.reading (Form.text name * {back}) () := by
    unfold sectionBody
    rw [if_pos rfl]
    refine .bind (takes_read state (Reader.reads_text hlimit)) ?_
    refine .bind_still (takes_read state (Reader.takes_remaining back)) fun _ => ?_
    rw [if_neg hname]
    rfl
  exact hsection _ (Language.append_mem_mul hfront rfl)

theorem advances_skipped (state : Decoding) : Advances config (Form.skipped config.textLimit) state state := by
  rintro word ((⟨name, hname, hlimit, hword⟩ | hword) | hword)
  · exact advances_custom state hname hlimit word hword
  · exact advances_tables state word (.inl hword)
  · exact advances_dataCount state word (.inl hword)

theorem outcome_skipped {inserted : List UInt8} (h : inserted ∈ Form.skipped config.textLimit) (rest : List UInt8)
    (state : Decoding) :
    outcome (sections config (inserted ++ rest) state) = outcome (sections config rest state) := by
  obtain ⟨input, hsections⟩ := advances_skipped state inserted h rest state.input
  calc outcome (sections config (inserted ++ rest) state)
      = outcome (sections config rest (state.reading input)) := congrArg outcome hsections
    _ = outcome (sections config rest state) := outcome_reading rest state input

/-- Whatever is equal from every state on is equal after any first part. -/
theorem outcome_bind_congr (first : Decode Unit) {second second' : Decode Unit}
    (h : ∀ state, outcome (second state) = outcome (second' state)) (state : Decoding) :
    outcome ((do first; second) state) = outcome ((do first; second') state) := by
  cases hfirst : first state with
  | ok done state' => rw [run_bind_of_ok hfirst, run_bind_of_ok hfirst, h]
  | error error state' => rw [run_bind_of_error hfirst, run_bind_of_error hfirst]

end Decode

/-- A section that is passed over changes nothing, wherever it stands: after any sections and before any bytes. The
module or the error is the same, and so are the types that were met. -/
theorem Module.decode_skipped {config : Config} (registry : TypeRegistry) {front : List Frame}
    {word inserted : List UInt8} (hword : word ∈ Form.frames front) (h : inserted ∈ Form.skipped config.textLimit)
    (rest : List UInt8) :
    Module.decode config registry (Form.header ++ (word ++ (inserted ++ rest))) =
      Module.decode config registry (Form.header ++ (word ++ rest)) := by
  rw [decode_append, decode_append, Decode.sections_append hword, Decode.sections_append hword]
  exact Decode.outcome_bind_congr _ (Decode.outcome_skipped h rest) _

/-- A custom section whose size has a byte more than it takes, between a type section and one with an unknown number. -/
theorem Module.decode_skipped_sample :
    [0x01, 0x04, 0x01, 0x60, 0x00, 0x00] ∈ Form.frames [⟨1, [0x01, 0x60, 0x00, 0x00]⟩] ∧
      [0x00, 0x83, 0x00, 0x01, 0x61, 0xFF] ∈ Form.skipped ({} : Config).textLimit ∧
      Module.decode {} {} (Form.header ++ ([0x01, 0x04, 0x01, 0x60, 0x00, 0x00] ++
          ([0x00, 0x83, 0x00, 0x01, 0x61, 0xFF] ++ [0x0D, 0x00]))) =
        Module.decode {} {} (Form.header ++ ([0x01, 0x04, 0x01, 0x60, 0x00, 0x00] ++ [0x0D, 0x00])) := by
  have hfront : [0x01, 0x04, 0x01, 0x60, 0x00, 0x00] ∈ Form.frames [⟨1, [0x01, 0x60, 0x00, 0x00]⟩] :=
    Form.append_mem_frames [0x04] (Description.mem_u32 (by decide)) (Form.mem_frames_nil.2 rfl)
  have hpayload : [0x01, 0x61, 0xFF] ∈ Form.text "a" * ⊤ :=
    Language.append_mem_mul (a := [0x01, 0x61]) (b := [0xFF])
      (Description.mem_text [0x01] (Description.mem_u32 (by decide +kernel))) trivial
  have hinserted : [0x00, 0x83, 0x00, 0x01, 0x61, 0xFF] ∈ Form.skipped ({} : Config).textLimit :=
    .inl (.inl ⟨"a", by decide, by decide +kernel, Language.append_mem_mul (a := [0x00]) rfl
      ⟨_, hpayload, Language.append_mem_mul (a := [0x83, 0x00]) (Description.mem_u32 (by decide)) rfl⟩⟩)
  exact ⟨hfront, hinserted, Module.decode_skipped {} hfront hinserted _⟩

end WasmEngine
