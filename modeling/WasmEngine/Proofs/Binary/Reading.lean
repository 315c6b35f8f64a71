import WasmEngine.Proofs.Binary.Forms
import WasmEngine.Proofs.Programs
import WasmEngine.Proofs.Text.Utf8

/-!
# Reading what was written

`Takes` says that a program takes the words of a form off the front of what is left to read and leaves the rest
untouched. Sequencing programs goes with multiplying their forms.
-/

namespace WasmEngine

open scoped Computability

variable {σ α β ι : Type}

/-- A program takes each word of a form off the front, whatever of the language `next` follows. It goes from the state
`before` to the state `after`, with the cursor behind the word. -/
def Takes (next : Language UInt8) (program : EStateM Error σ α) (before after : Reader → σ) (form : Language UInt8)
    (value : α) : Prop :=
  ∀ word ∈ form, ∀ rest ∈ next, ∀ position,
    program (before ⟨position, word ++ rest⟩) = .ok value (after ⟨position + word.length, rest⟩)

/-- A read takes the words of a form, whatever follows. -/
abbrev Reads (read : Read α) (form : Language UInt8) (value : α) : Prop :=
  Takes ⊤ read id id form value

namespace Takes

variable {next form tail : Language UInt8} {before between after : Reader → σ} {program first : EStateM Error σ α}
  {second : α → EStateM Error σ β} {value : α} {result : β}

/-- A program that reads nothing. -/
theorem still (h : ∀ reader, program (before reader) = .ok value (after reader)) :
    Takes next program before after 1 value := by
  intro word hword rest _ position
  rw [(Language.mem_one word).1 hword]
  exact h _

theorem bind (hfirst : Takes ⊤ first before between form value)
    (hsecond : Takes next (second value) between after tail result) :
    Takes next (first >>= second) before after (form * tail) result := by
  intro word hword rest hrest position
  obtain ⟨front, hfront, back, hback, rfl⟩ := Language.mem_mul.1 hword
  rw [List.append_assoc, run_bind_of_ok (hfirst front hfront (back ++ rest) trivial position),
    hsecond back hback rest hrest, List.length_append, Nat.add_assoc]

/-- The program goes on without reading. -/
theorem bind_still (hfirst : Takes next first before between form value)
    (hsecond : ∀ reader, second value (between reader) = .ok result (after reader)) :
    Takes next (first >>= second) before after form result := by
  intro word hword rest hrest position
  rw [run_bind_of_ok (hfirst word hword rest hrest position), hsecond]

/-- The program starts without reading. -/
theorem still_bind (hfirst : ∀ reader, first (before reader) = .ok value (between reader))
    (hsecond : Takes next (second value) between after form result) :
    Takes next (first >>= second) before after form result := by
  intro word hword rest hrest position
  rw [run_bind_of_ok (hfirst _), hsecond word hword rest hrest]

theorem get_bind {second : σ → EStateM Error σ β} {program : EStateM Error σ β}
    (hsecond : ∀ reader, second (before reader) = program) (h : Takes next program before after form result) :
    Takes next (get >>= second) before after form result := by
  intro word hword rest hrest position
  rw [run_get_bind, hsecond]
  exact h word hword rest hrest position

/-- A number is read before something that depends on it. -/
theorem bind_u32 {number : EStateM Error σ UInt32} {second : UInt32 → EStateM Error σ β} {n : Nat}
    (hnumber : Takes ⊤ number before between (Form.u32 n) (UInt32.ofNat n))
    (hsecond : ∀ value, value.toNat = n → Takes next (second value) between after tail result) :
    Takes next (number >>= second) before after (Form.u32 n * tail) result := by
  intro word hword
  obtain ⟨front, hfront, back, hback, rfl⟩ := Language.mem_mul.1 hword
  have hn : (UInt32.ofNat n).toNat = n := UInt32.toNat_ofNat_of_lt' hfront.2.2
  exact hnumber.bind (hsecond _ hn) _ hword

theorem bind_u32_still {number : EStateM Error σ UInt32} {second : UInt32 → EStateM Error σ β} {n : Nat}
    (hnumber : Takes ⊤ number before between (Form.u32 n) (UInt32.ofNat n))
    (hsecond : ∀ value, value.toNat = n → ∀ reader, second value (between reader) = .ok result (after reader)) :
    Takes next (number >>= second) before after (Form.u32 n) result := by
  have h : Takes next (number >>= second) before after (Form.u32 n * 1) result :=
    hnumber.bind_u32 fun value hvalue => still (hsecond value hvalue)
  rwa [mul_one] at h

theorem sized {payload : Language UInt8}
    (h : ∀ content ∈ payload, Takes next program before after (Form.block content * tail) value) :
    Takes next program before after (Form.sized payload * tail) value := by
  intro word hword
  obtain ⟨front, ⟨content, hcontent, hfront⟩, back, hback, rfl⟩ := Language.mem_mul.1 hword
  exact h content hcontent _ (Language.append_mem_mul hfront hback)

/-- What a program does before anything, it does at the end. -/
theorem last (h : Takes ⊤ program before after form value) : Takes next program before after form value :=
  fun word hword rest _ => h word hword rest trivial

end Takes

/-! ## Bytes -/

namespace Reader

open Takes

theorem splitExact_append (front back : List α) : splitExact front.length (front ++ back) = some (front, back) := by
  induction front with
  | nil => rfl
  | cons item front ih => simp [splitExact, ih]

theorem reads_byte (value : UInt8) : Reads byte {[value]} value := by
  rintro word rfl rest - position
  rfl

theorem reads_bytes (content : List UInt8) {count : Nat} (h : content.length = count) :
    Reads (bytes count) {content} content := by
  rintro word rfl rest - position
  simp [bytes, ← h, splitExact_append]

theorem reads_skip (content : List UInt8) : Reads (skip content.length) {content} () :=
  (reads_bytes content rfl).bind_still fun _ => rfl

/-- Nothing may follow what takes all there is. -/
theorem takes_remaining (content : List UInt8) : Takes 1 remaining id id {content} content := by
  rintro word rfl rest hrest position
  rw [(Language.mem_one rest).1 hrest, List.append_nil]
  rfl

/-! ## Numbers -/

theorem splitGroups_append {word : List UInt8} (hrun : Form.IsRun word) {limit : Nat} (hlimit : word.length ≤ limit)
    (rest : List UInt8) : Leb128.splitGroups limit (word ++ rest) = .ok (word, rest) := by
  induction word generalizing limit with
  | nil => exact hrun.elim
  | cons byte word ih =>
    rw [List.length_cons] at hlimit
    rw [Form.IsRun] at hrun
    rw [List.cons_append, Leb128.splitGroups]
    split at hrun
    · rw [hrun, List.nil_append]
      simp [*]
    · have hword : word ≠ [] := by
        rintro rfl
        exact hrun
      have hlong : ¬limit ≤ 1 := by
        have := List.length_pos_iff.2 hword
        omega
      rw [if_neg ‹_›, if_neg hlong, ih hrun (by omega)]

theorem reads_groups {maxBits : Nat} {word : List UInt8} (h : word ∈ Form.run (Leb128.groupLimit maxBits)) :
    Reads (groups maxBits) {word} word := by
  rintro _ rfl rest - position
  simp [groups, splitGroups_append h.1 h.2]

theorem reads_narrow {read : Read α} {narrowing : α → Option β} {form : Language UInt8} {value : α} {narrowed : β}
    (h : Reads read form value) (hnarrow : narrowing value = some narrowed) :
    Reads (narrow narrowing read) form narrowed := by
  intro word hword rest hrest position
  have hread := h word hword rest hrest position
  simp only [id] at hread ⊢
  simp [narrow, hread, hnarrow]

theorem reads_varU32 (n : Nat) : Reads varU32 (Form.u32 n) (UInt32.ofNat n) := by
  intro word hword
  obtain ⟨hrun, hvalue, hn⟩ := hword
  have hunsigned : Reads (unsigned 32) {word} (UInt64.ofNat n) := by
    rw [← hvalue]
    exact (reads_groups hrun).bind_still fun _ => rfl
  have hsmall : (UInt64.ofNat n).toNat = n := UInt64.toNat_ofNat_of_lt' (Nat.lt_trans hn (by decide))
  refine reads_narrow hunsigned ?_ word rfl
  rw [hsmall, if_pos (by omega)]
  congr 1
  rw [← UInt32.toNat_inj, UInt64.toNat_toUInt32, hsmall, UInt32.toNat_ofNat']

theorem reads_varI32 : ∀ word ∈ Form.i32, ∃ value, Reads varI32 {word} value := by
  rintro word ⟨hrun, hlow, hhigh⟩
  have hsigned : Reads (signed 32) {word} (Int64.ofInt (Leb128.signedValue word)) :=
    (reads_groups hrun).bind_still fun _ => rfl
  have hsmall : (Int64.ofInt (Leb128.signedValue word)).toInt = Leb128.signedValue word :=
    Int64.toInt_ofInt_of_le (by omega) (by omega)
  refine ⟨(Int64.ofInt (Leb128.signedValue word)).toInt32, reads_narrow hsigned ?_⟩
  rw [hsmall, if_pos ⟨by omega, by omega⟩]

theorem reads_varI64 : ∀ word ∈ Form.i64, ∃ value, Reads varI64 {word} value :=
  fun _ hword => ⟨_, (reads_groups hword).bind_still fun _ => rfl⟩

/-! ## Blocks and texts -/

theorem reads_atomically {read : Read α} {form : Language UInt8} {value : α} (h : Reads read form value) :
    Reads (atomically read) form value := by
  intro word hword rest hrest position
  have hread := h word hword rest hrest position
  simp only [id] at hread ⊢
  simp [atomically, hread]

theorem reads_text {limit : Nat} {content : String} (h : (Text.Utf8.encode content).length ≤ limit) :
    Reads (text limit) (Form.text content) content := by
  refine reads_atomically (bind_u32 (reads_varU32 _) fun length hlength => ?_)
  dsimp only
  rw [hlength, if_neg (by omega)]
  refine (reads_bytes _ rfl).bind_still fun _ => ?_
  rw [Text.Utf8.decode_encode]
  rfl

end Reader

theorem Frame.reads_payload (content : List UInt8) : Reads payloadRead (Form.block content) content :=
  .bind_u32 (Reader.reads_varU32 _) fun size hsize => by
    rw [hsize]
    exact Reader.reads_bytes content rfl

/-! ## Types -/

namespace Binary

open Takes Reader

theorem reads_many {item : Read α} {form : ι → Language UInt8} {value : ι → α}
    (h : ∀ entry, Reads item (form entry) (value entry)) (entries : List ι) :
    Reads (many item entries.length) (entries.map form).prod (entries.map value) := by
  induction entries with
  | nil => exact still fun _ => rfl
  | cons entry entries ih =>
    rw [List.map_cons, List.prod_cons]
    exact (h entry).bind (ih.bind_still fun _ => rfl)

theorem ofByte?_toByte (type : ValType) : ValType.ofByte? type.toByte = .ok type := by
  cases type <;> rfl

theorem reads_valType (type : ValType) : Reads valType (Form.valType type) type :=
  (reads_byte _).bind_still fun _ => by
    rw [ofByte?_toByte]
    rfl

theorem reads_valTypes (types : List ValType) :
    Reads (many valType types.length) (types.map Form.valType).prod types := by
  have h := reads_many reads_valType types
  rwa [List.map_id'] at h

theorem reads_form : Reads varI7 {[0x60]} functionForm := by
  rintro word rfl rest - position
  rfl

theorem reads_funcType (type : FuncType) : Reads funcType (Form.funcType type) type := by
  obtain ⟨result, params⟩ := type
  unfold Form.funcType Form.vector
  simp only [mul_assoc, List.length_map]
  refine reads_form.bind ?_
  dsimp only
  rw [if_neg (by simp)]
  refine bind_u32 (reads_varU32 _) fun paramCount hparams => ?_
  rw [hparams]
  refine (reads_valTypes params).bind (bind_u32 (reads_varU32 _) fun resultCount hresults => ?_)
  cases result with
  | none =>
    have hzero : resultCount = 0 := UInt32.toNat_inj.1 hresults
    rw [if_pos hzero]
    exact still fun _ => rfl
  | some result =>
    have hone : resultCount = 1 := UInt32.toNat_inj.1 hresults
    rw [hone, if_neg (by decide), if_pos rfl]
    simp only [Option.toList_some, List.map_cons, List.map_nil, List.prod_singleton]
    exact (reads_valType result).bind_still fun _ => rfl

theorem reads_limits (bounds : MemoryLimits) : Reads limits (Form.limits bounds) bounds := by
  rintro word ⟨flags, hflags, hword⟩
  have hreads : Reads limits (Form.u32 flags * Form.u32 bounds.initial * bounds.maximum.elim 1 Form.u32) bounds := by
    obtain ⟨initial, maximum⟩ := bounds
    rw [mul_assoc]
    refine bind_u32 (reads_varU32 _) fun flags' hflags' => bind_u32 (reads_varU32 _) fun initial' hinitial => ?_
    rw [hflags', hinitial]
    cases maximum with
    | none =>
      rw [if_neg (by simpa using hflags)]
      exact still fun _ => rfl
    | some maximum =>
      rw [if_pos (by simpa using hflags)]
      refine bind_u32_still (reads_varU32 _) fun maximum' hmaximum _ => ?_
      rw [hmaximum]
      rfl
  exact hreads word hword

/-- A flag takes up one byte. -/
theorem reads_flag {flag : UInt8} (h : flag < 0x80) : Reads varU7 {[flag]} flag := by
  have hflag : flag.toNat < 128 := h
  have hrun : [flag] ∈ Form.run (Leb128.groupLimit 7) := by
    refine ⟨?_, by simp [Leb128.groupLimit]⟩
    simp [Form.IsRun, h]
  have hvalue : Leb128.unsignedValue [flag] = flag.toNat := by
    simp only [Leb128.unsignedValue]
    omega
  have hunsigned : Reads (unsigned 7) {[flag]} (UInt64.ofNat flag.toNat) := by
    rw [← hvalue]
    exact (reads_groups hrun).bind_still fun _ => rfl
  have hsmall : (UInt64.ofNat flag.toNat).toNat = flag.toNat := UInt64.toNat_ofNat_of_lt' (Nat.lt_trans hflag (by decide))
  refine reads_narrow hunsigned ?_
  rw [hsmall, if_pos (by omega)]
  congr 1
  rw [← UInt8.toNat_inj, UInt64.toNat_toUInt8, hsmall]
  omega

theorem reads_globalType (type : ValType) (isMutable : Bool) :
    Reads globalType (Form.globalType type isMutable) (type, isMutable) := by
  rintro word ⟨flag, hsmall, hflag, hword⟩
  have hmutable : decide (flag ≠ 0) = isMutable := by
    rw [Bool.eq_iff_iff, decide_eq_true_iff]
    exact hflag
  have hreads : Reads globalType (Form.valType type * {[flag]}) (type, isMutable) := by
    refine (reads_valType type).bind ((reads_flag hsmall).bind_still fun _ => ?_)
    rw [hmutable]
    rfl
  exact hreads word hword

/-! ## Functions -/

/-- The locals of some groups, up to the largest 32-bit number. -/
theorem reads_localGroups (groups : List Form.LocalGroup) {total : Nat} (h : total ≤ 0xFFFFFFFF) :
    Reads (localGroups total groups.length)
      (groups.map fun group => Form.u32 group.count * Form.valType group.type).prod
      (min (total + (groups.map Form.LocalGroup.count).sum) 0xFFFFFFFF) := by
  induction groups generalizing total with
  | nil =>
    refine still fun _ => ?_
    simp [localGroups, Nat.min_eq_left h]
    rfl
  | cons group groups ih =>
    rw [List.map_cons, List.prod_cons, mul_assoc]
    refine bind_u32 (reads_varU32 _) fun count hcount => (reads_valType group.type).bind ?_
    rw [hcount]
    have hrest := ih (Nat.min_le_right (total + group.count) 0xFFFFFFFF)
    have hsum : min (min (total + group.count) 0xFFFFFFFF + (groups.map Form.LocalGroup.count).sum) 0xFFFFFFFF =
        min (total + ((group :: groups).map Form.LocalGroup.count).sum) 0xFFFFFFFF := by
      rw [List.map_cons, List.sum_cons]
      omega
    rwa [hsum] at hrest

/-- Takes the locals and what is left. -/
theorem takes_funcBody (groups : List Form.LocalGroup) (code : List UInt8) :
    Takes 1 funcBody id id (Form.funcBody groups code)
      (min (groups.map Form.LocalGroup.count).sum 0xFFFFFFFF, code) := by
  unfold Form.funcBody Form.vector
  rw [mul_assoc, List.length_map]
  refine bind_u32 (reads_varU32 _) fun count hcount => ?_
  rw [hcount]
  have hgroups := reads_localGroups groups (Nat.zero_le 0xFFFFFFFF)
  rw [Nat.zero_add] at hgroups
  exact hgroups.bind ((takes_remaining code).bind_still fun _ => rfl)

theorem reads_header : Reads header {Form.header} () := by
  rintro word rfl rest - position
  rfl

end Binary

/-! ## Constant expressions -/

namespace ConstExpr

open Reader

variable {word : List UInt8}

theorem skipOperand_arithmetic {opcode : UInt8} (h : isArithmetic opcode) :
    opcode ≠ endOpcode ∧ skipOperand opcode = pure () := by
  have hne (other : UInt8) (hother : isArithmetic other = false) : opcode ≠ other := by
    rintro rfl
    rw [h] at hother
    cases hother
  refine ⟨hne _ rfl, ?_⟩
  have hindexed : ¬(opcode = globalOpcode || opcode = 0xD2) = true := by
    simp [hne globalOpcode rfl, hne 0xD2 rfl]
  rw [skipOperand, if_neg (hne _ rfl), if_neg (hne _ rfl), if_neg (hne _ rfl), if_neg (hne _ rfl), if_neg hindexed,
    if_neg (hne _ rfl), if_pos h]

theorem reads_index {operand : List UInt8} (h : operand ∈ Form.index) :
    Reads (do let _ ← Reader.varU32) {operand} () := by
  obtain ⟨value, hvalue⟩ := h
  have hreads : Reads (do let _ ← Reader.varU32) (Form.u32 value) () := (reads_varU32 value).bind_still fun _ => rfl
  rintro _ rfl
  exact hreads _ hvalue

/-- An instruction is an opcode and an operand that can be passed over. -/
theorem instruction_cases (h : word ∈ Form.instruction) :
    ∃ opcode operand, word = opcode :: operand ∧ opcode ≠ endOpcode ∧ Reads (skipOperand opcode) {operand} () := by
  have hproduct {opcode : UInt8} {form : Language UInt8} (hword : word ∈ {[opcode]} * form) (hend : opcode ≠ endOpcode)
      (hform : ∀ operand ∈ form, Reads (skipOperand opcode) {operand} ()) :
      ∃ opcode operand, word = opcode :: operand ∧ opcode ≠ endOpcode ∧ Reads (skipOperand opcode) {operand} () := by
    obtain ⟨_, rfl, operand, hoperand, rfl⟩ := Language.mem_mul.1 hword
    exact ⟨opcode, operand, rfl, hend, hform operand hoperand⟩
  simp only [Form.instruction, Language.mem_add] at h
  rcases h with ((((((h | h) | h) | h) | h) | h) | h) | h
  · refine hproduct h (by decide) fun operand hoperand => ?_
    obtain ⟨value, hvalue⟩ := reads_varI32 operand hoperand
    exact hvalue.bind_still fun _ => rfl
  · refine hproduct h (by decide) fun operand hoperand => ?_
    obtain ⟨value, hvalue⟩ := reads_varI64 operand hoperand
    exact hvalue.bind_still fun _ => rfl
  · exact hproduct h (by decide) fun operand hoperand => (reads_bytes operand hoperand).bind_still fun _ => rfl
  · exact hproduct h (by decide) fun operand hoperand => (reads_bytes operand hoperand).bind_still fun _ => rfl
  · exact hproduct h (by decide) fun operand hoperand => reads_index hoperand
  · exact hproduct h (by decide) fun operand hoperand => reads_index hoperand
  · refine hproduct h (by decide) fun operand hoperand => ?_
    obtain ⟨byte, rfl⟩ := List.length_eq_one_iff.1 hoperand
    exact (reads_byte byte).bind_still fun _ => rfl
  · obtain ⟨opcode, hopcode, rfl⟩ := h
    obtain ⟨hend, hskip⟩ := skipOperand_arithmetic hopcode
    refine ⟨opcode, [], rfl, hend, ?_⟩
    rw [hskip]
    exact .still fun _ => rfl

theorem skip_instruction (h : word ∈ Form.instruction) (position : Nat) (rest : List UInt8) :
    skip ⟨position, word ++ rest⟩ = skip ⟨position + word.length, rest⟩ := by
  obtain ⟨opcode, operand, rfl, hend, hoperand⟩ := instruction_cases h
  have hskip := hoperand operand rfl rest trivial (position + 1)
  simp only [id] at hskip
  rw [List.cons_append, skip]
  dsimp only
  rw [if_neg hend]
  split
  · rename_i heq
    rw [hskip] at heq
    cases heq
  · rename_i heq
    rw [hskip] at heq
    cases heq
    rw [List.length_cons, Nat.add_assoc, Nat.add_comm 1]

/-- Passing over an expression passes over its instructions one by one. -/
theorem skip_append (h : word ∈ Form.constExpr) (position : Nat) (rest : List UInt8) :
    skip ⟨position, word ++ rest⟩ = .ok () ⟨position + word.length, rest⟩ := by
  obtain ⟨_, hstar, _, rfl, rfl⟩ := Language.mem_mul.1 h
  obtain ⟨instructions, rfl, hinstructions⟩ := Language.mem_kstar.1 hstar
  clear h hstar
  induction instructions generalizing position with
  | nil =>
    rw [List.flatten_nil, List.nil_append, List.singleton_append, skip]
    dsimp only
    rw [if_pos rfl]
    rfl
  | cons instruction instructions ih =>
    obtain ⟨hinstruction, hrest⟩ := List.forall_mem_cons.1 hinstructions
    rw [List.flatten_cons, List.append_assoc instruction, List.append_assoc instruction,
      skip_instruction hinstruction, ih _ hrest]
    simp only [List.length_append, Nat.add_assoc]

theorem reads_take (h : word ∈ Form.constExpr) : Reads take {word} word := by
  rintro _ rfl rest - position
  simp [take, skip_append h]

end ConstExpr

end WasmEngine
