import WasmEngine.Proofs.Text.Utf8
import WasmEngine.Types.FuncType

/-!
# The language of signatures

The grammar (`Signature.Denotes`) speaks of the characters before the first closing parenthesis, without spaces: a
result, alone or followed by an opening parenthesis and arguments. Texts that are neither too short nor too long are
read by it.
-/

namespace WasmEngine.Signature

/-! ## The grammar -/

/-- The characters that name a number type. -/
inductive Names : Char → ValType → Prop where
  | i32 : Names 'i' .i32
  | pointer : Names '*' .i32
  | i64 : Names 'I' .i64
  | f32 : Names 'f' .f32
  | f64 : Names 'F' .f64

/-- The characters that name a result, which may be no value. -/
inductive NamesResult : Char → Option ValType → Prop where
  | nothing : NamesResult 'v' none
  | value {c : Char} {type : ValType} (h : Names c type) : NamesResult c (some type)

/-- Arguments and, anywhere among them, opening parentheses. -/
inductive ListsArguments : List Char → List ValType → Prop where
  | nil : ListsArguments [] []
  | parenthesis {text : List Char} {types : List ValType} (h : ListsArguments text types) :
      ListsArguments ('(' :: text) types
  | argument {c : Char} {type : ValType} {text : List Char} {types : List ValType} (hc : Names c type)
      (h : ListsArguments text types) : ListsArguments (c :: text) (type :: types)

/-- The signatures of a type that have at most `room` arguments. -/
inductive Denotes (room : Nat) : List Char → FuncType → Prop where
  | result {c : Char} {result : Option ValType} (hc : NamesResult c result) : Denotes room [c] ⟨result, []⟩
  | arguments {c : Char} {result : Option ValType} {text : List Char} {types : List ValType} (hc : NamesResult c result)
      (h : ListsArguments text types) (hroom : types.length ≤ room) : Denotes room (c :: '(' :: text) ⟨result, types⟩

/-- What counts of a text: the characters before the first closing parenthesis, without spaces. -/
def essence (text : List Char) : List Char :=
  (text.takeWhile (· ≠ ')')).filter (· ≠ ' ')

section Grammar

variable {c : Char} {text : List Char} {types : List ValType} {type : FuncType} {room : Nat}

theorem typeOfChar_eq_ok_iff (result : Option ValType) : typeOfChar c = .ok result ↔ NamesResult c result := by
  constructor
  · intro h
    unfold typeOfChar at h
    split at h
    · rename_i hc
      cases h
      exact hc ▸ .nothing
    split at h
    · rename_i hc
      cases h
      obtain rfl | rfl := (by simpa using hc : c = 'i' ∨ c = '*')
      · exact .value .i32
      · exact .value .pointer
    split at h
    · rename_i hc
      cases h
      exact hc ▸ .value .i64
    split at h
    · rename_i hc
      cases h
      exact hc ▸ .value .f32
    split at h
    · rename_i hc
      cases h
      exact hc ▸ .value .f64
    · cases h
  · rintro (_ | ⟨⟨⟩⟩) <;> rfl

theorem NamesResult.unique {first second : Option ValType} (hfirst : NamesResult c first)
    (hsecond : NamesResult c second) : first = second := by
  rw [← typeOfChar_eq_ok_iff] at hfirst hsecond
  rw [hfirst] at hsecond
  exact Except.ok.inj hsecond

/-- The characters that name types are none of those that have a meaning of their own. -/
theorem Names.plain {argument : ValType} (h : Names c argument) : c ≠ '(' ∧ c ≠ ' ' ∧ c ≠ ')' := by
  cases h <;> decide

theorem NamesResult.plain {result : Option ValType} (h : NamesResult c result) : c ≠ '(' ∧ c ≠ ' ' ∧ c ≠ ')' := by
  cases h with
  | nothing => decide
  | value h => exact h.plain

theorem listsArguments_parenthesis : ListsArguments ('(' :: text) types ↔ ListsArguments text types := by
  constructor
  · intro h
    cases h with
    | parenthesis h => exact h
    | argument hc h => exact absurd rfl hc.plain.1
  · exact .parenthesis

theorem listsArguments_cons (hc : c ≠ '(') :
    ListsArguments (c :: text) types ↔
      ∃ argument others, Names c argument ∧ ListsArguments text others ∧ types = argument :: others := by
  constructor
  · intro h
    cases h with
    | parenthesis h => exact absurd rfl hc
    | argument hc h => exact ⟨_, _, hc, h, rfl⟩
  · rintro ⟨argument, others, hargument, hothers, rfl⟩
    exact .argument hargument hothers

theorem ListsArguments.unique {types' : List ValType} (h : ListsArguments text types) (h' : ListsArguments text types') :
    types = types' := by
  induction h generalizing types' with
  | nil =>
    cases h'
    rfl
  | parenthesis h ih => exact ih (listsArguments_parenthesis.1 h')
  | argument hc h ih =>
    obtain ⟨argument, others, hargument, hothers, rfl⟩ := (listsArguments_cons hc.plain.1).1 h'
    rw [Option.some.inj ((NamesResult.value hc).unique (.value hargument)), ih hothers]

/-- A text has one type at most, however much room there is. -/
theorem Denotes.unique {room' : Nat} {type' : FuncType} (h : Denotes room text type) (h' : Denotes room' text type') :
    type = type' := by
  cases h with
  | result hc =>
    cases h' with
    | result hc' => rw [hc.unique hc']
  | arguments hc h hroom =>
    cases h' with
    | arguments hc' h' hroom' => rw [hc.unique hc', h.unique h']

theorem denotes_cons :
    Denotes room (c :: text) type ↔
      NamesResult c type.result ∧
        (text = [] ∧ type.params = [] ∨
          ∃ tail, text = '(' :: tail ∧ ListsArguments tail type.params ∧ type.params.length ≤ room) := by
  obtain ⟨result, params⟩ := type
  constructor
  · intro h
    cases h with
    | result hc => exact ⟨hc, .inl ⟨rfl, rfl⟩⟩
    | arguments hc h hroom => exact ⟨hc, .inr ⟨_, rfl, h, hroom⟩⟩
  · rintro ⟨hc, ⟨rfl, rfl⟩ | ⟨tail, rfl, h, hroom⟩⟩
    · exact .result hc
    · exact .arguments hc h hroom

/-! ## What counts of a text -/

/-- Induction along a text as it is scanned: over spaces, to a closing parenthesis. -/
@[elab_as_elim]
theorem scanInduction {motive : List Char → Prop} (nil : motive []) (space : ∀ text, motive text → motive (' ' :: text))
    (close : ∀ text, motive (')' :: text)) (opening : ∀ text, motive text → motive ('(' :: text))
    (other : ∀ c text, c ≠ '(' → c ≠ ' ' → c ≠ ')' → motive text → motive (c :: text)) (text : List Char) :
    motive text := by
  induction text with
  | nil => exact nil
  | cons c text ih =>
    by_cases hspace : c = ' '
    · exact hspace ▸ space text ih
    by_cases hclose : c = ')'
    · exact hclose ▸ close text
    by_cases hopen : c = '('
    · exact hopen ▸ opening text ih
    · exact other c text hopen hspace hclose ih

theorem essence_space : essence (' ' :: text) = essence text := by
  simp [essence]

theorem essence_close : essence (')' :: text) = [] := by
  simp [essence]

theorem essence_cons (hspace : c ≠ ' ') (hclose : c ≠ ')') : essence (c :: text) = c :: essence text := by
  simp [essence, hspace, hclose]

theorem essence_open : essence ('(' :: text) = '(' :: essence text :=
  essence_cons (by decide) (by decide)

/-- Spaces do not count, wherever they are taken out. -/
theorem essence_filter (text : List Char) : essence (text.filter (· ≠ ' ')) = essence text := by
  induction text using scanInduction with
  | nil => rfl
  | space text ih =>
    rw [essence_space, ← ih]
    rfl
  | close text =>
    rw [essence_close, List.filter_cons_of_pos (by decide), essence_close]
  | opening text ih =>
    rw [essence_open, List.filter_cons_of_pos (by decide), essence_open, ih]
  | other c text hopen hspace hclose ih =>
    rw [essence_cons hspace hclose, List.filter_cons_of_pos (by simpa using hspace), essence_cons hspace hclose, ih]

end Grammar

/-! ## The scan -/

/-- From what has been read so far, the text leads to a type. -/
def Completes (room : Nat) (progress : Progress) (text : List Char) (type : FuncType) : Prop :=
  ∃ final, scan room progress text = .ok final ∧ final.result = some type.result ∧ final.params.reverse = type.params

section Scan

variable {room : Nat} {progress : Progress} {c : Char} {text : List Char} {type : FuncType}

theorem completes_nil :
    Completes room progress [] type ↔ progress.result = some type.result ∧ progress.params.reverse = type.params := by
  simp [Completes, scan]

theorem completes_space : Completes room progress (' ' :: text) type ↔ Completes room progress text type := by
  simp [Completes, scan]

theorem completes_close :
    Completes room progress (')' :: text) type ↔
      progress.result = some type.result ∧ progress.params.reverse = type.params := by
  simp [Completes, scan]

/-- Before the result, an opening parenthesis ends the reading. -/
theorem not_completes_open (h : progress.result = none) : ¬Completes room progress ('(' :: text) type := by
  simp [Completes, scan, h]

theorem completes_open (h : progress.result.isSome) :
    Completes room progress ('(' :: text) type ↔ Completes room { progress with inArguments := true } text type := by
  have hresult : progress.result.isNone = false := by simpa using h
  simp [Completes, scan, hresult]

/-- Any other character has to name a type. -/
theorem completes_cons (hopen : c ≠ '(') (hspace : c ≠ ' ') (hclose : c ≠ ')') :
    Completes room progress (c :: text) type ↔
      ∃ next, progress.addType room c = .ok next ∧ Completes room next text type := by
  simp only [Completes, scan, if_neg hopen, if_neg hspace, if_neg hclose]
  cases progress.addType room c <;> simp

end Scan

/-! ## Characters that name types -/

section Types

variable {room : Nat} {c : Char} {progress next : Progress}

/-- An argument is added if there is room for it. -/
theorem addType_argument (h : progress.inArguments = true) :
    progress.addType room c = .ok next ↔
      ∃ argument, Names c argument ∧ progress.params.length < room ∧
        next = { progress with params := argument :: progress.params } := by
  have hnames (argument : ValType) : Names c argument ↔ typeOfChar c = .ok (some argument) := by
    rw [typeOfChar_eq_ok_iff]
    refine ⟨.value, fun hc => ?_⟩
    cases hc with
    | value hc => exact hc
  simp only [hnames, Progress.addType, h]
  cases typeOfChar c with
  | error error => simp [bind, Except.bind]
  | ok result =>
    by_cases hroom : progress.params.length < room
    · cases result with
      | none => simp [bind, Except.bind, Nat.not_le.2 hroom, throw, throwThe, MonadExceptOf.throw]
      | some argument => simp [bind, Except.bind, Nat.not_le.2 hroom, hroom, pure, Except.pure, eq_comm]
    · simp [bind, Except.bind, Nat.not_lt.1 hroom, hroom, throw, throwThe, MonadExceptOf.throw]

/-- Before the arguments there is one type, the result. -/
theorem addType_result (h : progress.inArguments = false) :
    progress.addType room c = .ok next ↔
      progress.result = none ∧ ∃ result, NamesResult c result ∧ next = { progress with result := some result } := by
  simp only [← typeOfChar_eq_ok_iff, Progress.addType, h]
  cases typeOfChar c with
  | error error => simp [bind, Except.bind]
  | ok result =>
    cases progress.result with
    | none => simp [bind, Except.bind, pure, Except.pure, eq_comm]
    | some known => simp [bind, Except.bind, throw, throwThe, MonadExceptOf.throw]

end Types

/-! ## What the scan accepts -/

section Accepts

variable {room : Nat} {progress : Progress} {type : FuncType}

/-- What is left to read adds arguments to those that were read. -/
def AddsArguments (room : Nat) (progress : Progress) (rest : List Char) (type : FuncType) : Prop :=
  progress.result = some type.result ∧ ∃ types, ListsArguments rest types ∧
    progress.params.length + types.length ≤ room ∧ progress.params.reverse ++ types = type.params

/-- Where the arguments end, those that were read are all. -/
theorem addsArguments_nil (hroom : progress.params.length ≤ room) :
    AddsArguments room progress [] type ↔
      progress.result = some type.result ∧ progress.params.reverse = type.params := by
  refine and_congr_right fun _ => ?_
  constructor
  · rintro ⟨types, ⟨⟩, -, hparams⟩
    rwa [List.append_nil] at hparams
  · intro hparams
    exact ⟨[], .nil, hroom, by rw [List.append_nil, hparams]⟩

theorem addsArguments_cons {c : Char} (hopen : c ≠ '(') {rest : List Char} :
    AddsArguments room progress (c :: rest) type ↔
      ∃ argument, Names c argument ∧ progress.params.length < room ∧
        AddsArguments room { progress with params := argument :: progress.params } rest type := by
  simp only [AddsArguments, listsArguments_cons hopen, List.length_cons, List.reverse_cons, List.append_assoc,
    List.singleton_append]
  constructor
  · rintro ⟨hresult, _, ⟨argument, types, hargument, htypes, rfl⟩, hroom, hparams⟩
    rw [List.length_cons] at hroom
    exact ⟨argument, hargument, by omega, hresult, types, htypes, by omega, hparams⟩
  · rintro ⟨argument, hargument, -, hresult, types, htypes, hroom, hparams⟩
    exact ⟨hresult, _, ⟨argument, types, hargument, htypes, rfl⟩, by rw [List.length_cons]; omega, hparams⟩

theorem addsArguments_open {rest : List Char} :
    AddsArguments room progress ('(' :: rest) type ↔ AddsArguments room progress rest type := by
  simp only [AddsArguments, listsArguments_parenthesis]

/-- In the arguments: those that were read are followed by those that the text lists. -/
theorem completes_arguments (hin : progress.inArguments = true) (hsome : progress.result.isSome)
    (hroom : progress.params.length ≤ room) (text : List Char) :
    Completes room progress text type ↔ AddsArguments room progress (essence text) type := by
  induction text using scanInduction generalizing progress with
  | nil => exact completes_nil.trans (addsArguments_nil hroom).symm
  | space text ih => rw [completes_space, essence_space, ih hin hsome hroom]
  | close text => rw [completes_close, essence_close, addsArguments_nil hroom]
  | opening text ih =>
    rw [completes_open hsome, essence_open, addsArguments_open]
    exact ih rfl hsome hroom
  | other c text hopen hspace hclose ih =>
    -- The scan keeps the parameters in reverse, so one more is one more in front.
    have hmore (argument : ValType) (hlt : progress.params.length < room) :=
      @ih { progress with params := argument :: progress.params } hin hsome hlt
    rw [completes_cons hopen hspace hclose, essence_cons hspace hclose, addsArguments_cons hopen]
    simp only [addType_argument hin]
    constructor
    · rintro ⟨_, ⟨argument, hargument, hlt, rfl⟩, hnext⟩
      exact ⟨argument, hargument, hlt, (hmore argument hlt).1 hnext⟩
    · rintro ⟨argument, hargument, hlt, hnext⟩
      exact ⟨_, ⟨argument, hargument, hlt, rfl⟩, (hmore argument hlt).2 hnext⟩

/-- After the result: nothing follows, or the arguments do. -/
theorem completes_result (result : Option ValType) (text : List Char) :
    Completes room { result := some result } text type ↔
      result = type.result ∧
        (essence text = [] ∧ type.params = [] ∨
          ∃ tail, essence text = '(' :: tail ∧ ListsArguments tail type.params ∧ type.params.length ≤ room) := by
  induction text using scanInduction with
  | nil =>
    rw [completes_nil]
    simp [essence, eq_comm]
  | space text ih =>
    rw [completes_space, essence_space]
    exact ih
  | close text =>
    rw [completes_close, essence_close]
    simp [eq_comm]
  | opening text ih =>
    rw [completes_open rfl, completes_arguments rfl rfl (Nat.zero_le room), essence_open]
    simp [AddsArguments]
  | other c text hopen hspace hclose ih =>
    rw [completes_cons hopen hspace hclose, essence_cons hspace hclose]
    simp [addType_result, hopen]

/-- From the start the scan accepts the language of signatures. -/
theorem completes_start (text : List Char) : Completes room {} text type ↔ Denotes room (essence text) type := by
  have hempty : ¬Denotes room [] type := by
    intro h
    cases h
  induction text using scanInduction with
  | nil =>
    rw [completes_nil]
    exact iff_of_false (fun h => nomatch h.1) hempty
  | space text ih =>
    rw [completes_space, essence_space]
    exact ih
  | close text =>
    rw [completes_close, essence_close]
    exact iff_of_false (fun h => nomatch h.1) hempty
  | opening text ih =>
    rw [essence_open, denotes_cons]
    exact iff_of_false (not_completes_open rfl) fun h => h.1.plain.1 rfl
  | other c text hopen hspace hclose ih =>
    rw [completes_cons hopen hspace hclose, essence_cons hspace hclose, denotes_cons]
    simp only [addType_result, true_and]
    constructor
    · rintro ⟨_, ⟨result, hc, rfl⟩, hnext⟩
      obtain ⟨rfl, hrest⟩ := (completes_result result text).1 hnext
      exact ⟨hc, hrest⟩
    · rintro ⟨hc, hrest⟩
      exact ⟨_, ⟨type.result, hc, rfl⟩, (completes_result type.result text).2 ⟨rfl, hrest⟩⟩

end Accepts

/-! ## How long signatures are -/

theorem Names.utf8Size {c : Char} {argument : ValType} (h : Names c argument) : c.utf8Size = 1 := by
  cases h <;> rfl

theorem NamesResult.utf8Size {c : Char} {result : Option ValType} (h : NamesResult c result) : c.utf8Size = 1 := by
  cases h with
  | nothing => rfl
  | value h => exact h.utf8Size

/-- Arguments without parentheses take up a byte each. -/
theorem ListsArguments.length_bytes {text : List Char} {types : List ValType} (h : ListsArguments text types)
    (hopen : '(' ∉ text) : (text.flatMap String.utf8EncodeChar).length = types.length := by
  induction h with
  | nil => rfl
  | parenthesis h ih => simp at hopen
  | argument hc h ih =>
    have hrest := ih fun hmem => hopen (List.mem_cons_of_mem _ hmem)
    rw [List.flatMap_cons, List.length_append, String.length_utf8EncodeChar, hc.utf8Size, hrest, List.length_cons,
      Nat.add_comm]

theorem essence_eq_self {text : List Char} (hspace : ' ' ∉ text) (hclose : ')' ∉ text) : essence text = text := by
  induction text with
  | nil => rfl
  | cons c text ih =>
    simp only [List.mem_cons, not_or] at hspace hclose
    rw [essence_cons (Ne.symm hspace.1) (Ne.symm hclose.1), ih hspace.2 hclose.2]

/-- With one parenthesis that is never closed, a text without spaces has one argument too many. -/
theorem not_denotes_unclosed {text : String} (hspace : ' ' ∉ text.toList) (hclose : ')' ∉ text.toList)
    (hopen : text.toList.count '(' = 1) (hsize : 3 ≤ text.utf8ByteSize) (type : FuncType) :
    ¬Denotes (text.utf8ByteSize - 3) (essence text.toList) type := by
  rw [← Text.Utf8.length_encode, Text.Utf8.encode] at hsize ⊢
  rw [essence_eq_self hspace hclose]
  generalize text.toList = chars at *
  intro h
  cases h with
  | result hc => simp [hc.plain.1] at hopen
  | arguments hc h hroom =>
    rename_i c result tail types
    have htail : '(' ∉ tail := List.count_eq_zero.1 (by simpa [hc.plain.1, List.count_cons] using hopen)
    have hopened : '('.utf8Size = 1 := rfl
    simp only [List.flatMap_cons, List.length_append, String.length_utf8EncodeChar, hc.utf8Size, hopened,
      h.length_bytes htail] at hsize hroom
    omega

/-! ## Spelling a signature -/

/-- A text with spaces put in anywhere, and with `*` for some of its `i`. -/
inductive Respelled : List Char → List Char → Prop where
  | nil : Respelled [] []
  | space {text spelled : List Char} (h : Respelled text spelled) : Respelled text (' ' :: spelled)
  | keep {text spelled : List Char} (c : Char) (h : Respelled text spelled) : Respelled (c :: text) (c :: spelled)
  | pointer {text spelled : List Char} (h : Respelled text spelled) : Respelled ('i' :: text) ('*' :: spelled)

namespace Respelled

variable {c : Char} {text spelled : List Char}

theorem length_le (h : Respelled text spelled) : text.length ≤ spelled.length := by
  induction h with
  | nil => exact Nat.le_refl 0
  | space h ih => exact Nat.le_succ_of_le ih
  | keep c h ih => exact Nat.succ_le_succ ih
  | pointer h ih => exact Nat.succ_le_succ ih

theorem essence_close (h : Respelled (')' :: text) spelled) : essence spelled = [] := by
  generalize hsource : ')' :: text = source at h
  induction h with
  | nil => cases hsource
  | space h ih => rw [essence_space, ih hsource]
  | keep c h ih =>
    cases hsource
    exact Signature.essence_close
  | pointer h ih => cases hsource

/-- The first character that counts is the text's own, or a pointer in its place. -/
theorem essence_cons (h : Respelled (c :: text) spelled) (hspace : c ≠ ' ') (hclose : c ≠ ')') :
    ∃ first rest, essence spelled = first :: essence rest ∧ Respelled text rest ∧
      (first = c ∨ c = 'i' ∧ first = '*') := by
  generalize hsource : c :: text = source at h
  induction h with
  | nil => cases hsource
  | space h ih =>
    rw [essence_space]
    exact ih hsource
  | keep first h ih =>
    cases hsource
    exact ⟨c, _, Signature.essence_cons hspace hclose, h, .inl rfl⟩
  | pointer h ih =>
    cases hsource
    exact ⟨'*', _, Signature.essence_cons (by decide) (by decide), h, .inr ⟨rfl, rfl⟩⟩

end Respelled

section Rendering

variable {c : Char} {spelled : List Char}

theorem names_signatureChar (type : ValType) : Names type.signatureChar type := by
  cases type <;> constructor

theorem namesResult_signatureChar (result : Option ValType) :
    NamesResult (result.elim 'v' ValType.signatureChar) result := by
  cases result with
  | none => exact .nothing
  | some type => exact .value (names_signatureChar type)

theorem Names.respelled {type : ValType} (hc : c = type.signatureChar ∨ type.signatureChar = 'i' ∧ c = '*') :
    Names c type := by
  obtain rfl | ⟨hi, rfl⟩ := hc
  · exact names_signatureChar type
  · cases type with
    | i32 => exact .pointer
    | i64 | f32 | f64 => cases hi

theorem NamesResult.respelled {result : Option ValType}
    (hc : c = result.elim 'v' ValType.signatureChar ∨ result.elim 'v' ValType.signatureChar = 'i' ∧ c = '*') :
    NamesResult c result := by
  cases result with
  | none =>
    obtain rfl | ⟨hi, -⟩ := hc
    · exact .nothing
    · exact absurd hi (by decide)
  | some type => exact .value (.respelled hc)

theorem listsArguments_respelled (types : List ValType)
    (h : Respelled (types.map ValType.signatureChar ++ [')']) spelled) : ListsArguments (essence spelled) types := by
  induction types generalizing spelled with
  | nil =>
    rw [h.essence_close]
    exact .nil
  | cons type types ih =>
    obtain ⟨-, hspace, hclose⟩ := (names_signatureChar type).plain
    obtain ⟨c, rest, hessence, hrest, hc⟩ := h.essence_cons hspace hclose
    rw [hessence]
    exact .argument (.respelled hc) (ih hrest)

/-- A type's signature keeps its meaning. -/
theorem denotes_respelled {room : Nat} (type : FuncType) (h : Respelled type.signature.toList spelled)
    (hroom : type.params.length ≤ room) : Denotes room (essence spelled) type := by
  obtain ⟨result, params⟩ := type
  rw [FuncType.signature, String.toList_ofList, List.cons_append, List.cons_append] at h
  obtain ⟨-, hspace, hclose⟩ := (namesResult_signatureChar result).plain
  obtain ⟨first, rest, hessence, hrest, hfirst⟩ := h.essence_cons hspace hclose
  obtain ⟨second, arguments, hessence', harguments, rfl | ⟨hi, -⟩⟩ := hrest.essence_cons (by decide) (by decide)
  · rw [hessence, hessence']
    exact .arguments (.respelled hfirst) (listsArguments_respelled params harguments) hroom
  · exact absurd hi (by decide)

end Rendering

end WasmEngine.Signature

namespace WasmEngine.FuncType

open Signature

theorem ofSignature?_eq_ok_iff {limit : Nat} {text : String} {type : FuncType} :
    ofSignature? limit text = .ok type ↔
      3 ≤ text.utf8ByteSize ∧ text.utf8ByteSize ≤ limit + 3 ∧
        Denotes (text.utf8ByteSize - 3) (essence text.toList) type := by
  rw [← completes_start, Completes]
  unfold ofSignature?
  dsimp only
  by_cases hshort : text.utf8ByteSize < 3
  · rw [if_pos hshort]
    exact iff_of_false (by simp) fun h => by omega
  by_cases hlong : text.utf8ByteSize - 3 > limit
  · rw [if_neg hshort, if_pos hlong]
    exact iff_of_false (by simp) fun h => by omega
  rw [if_neg hshort, if_neg hlong]
  have hsize : 3 ≤ text.utf8ByteSize ∧ text.utf8ByteSize ≤ limit + 3 := by omega
  obtain ⟨result, params⟩ := type
  cases scan (text.utf8ByteSize - 3) {} text.toList with
  | error error => simp
  | ok final => cases hresult : final.result <;> simp [hsize, hresult]

/-- A text is read as a signature of a type exactly when it has at least three bytes, at most three more than the limit,
and what counts of it is such a signature with no more arguments than bytes beyond three. So an argument list that is
opened once and never closed needs a space, or it is refused. -/
theorem signatures_read (limit : Nat) (text : String) :
    (∀ type, ofSignature? limit text = .ok type ↔
      3 ≤ text.utf8ByteSize ∧ text.utf8ByteSize ≤ limit + 3 ∧
        Denotes (text.utf8ByteSize - 3) (essence text.toList) type) ∧
    (' ' ∉ text.toList → ')' ∉ text.toList → text.toList.count '(' = 1 →
      ∃ error, ofSignature? limit text = .error error) := by
  refine ⟨fun type => ofSignature?_eq_ok_iff, fun hspace hclose hopen => ?_⟩
  cases hread : ofSignature? limit text with
  | error error => exact ⟨error, rfl⟩
  | ok type =>
    obtain ⟨hsize, -, hdenotes⟩ := ofSignature?_eq_ok_iff.1 hread
    exact absurd hdenotes (not_denotes_unclosed hspace hclose hopen hsize type)

/-- Three arguments in five bytes, and the same text with a space. -/
theorem signatures_read_unclosed :
    (∃ error, ofSignature? 1000 "v(iii" = .error error) ∧
      ofSignature? 1000 "v(iii " = .ok ⟨none, [.i32, .i32, .i32]⟩ := by
  refine ⟨(signatures_read 1000 "v(iii").2 (by decide) (by decide) (by decide), ?_⟩
  refine ((signatures_read 1000 "v(iii ").1 _).2 ⟨by decide, by decide, ?_⟩
  exact .arguments .nothing (.argument .i32 (.argument .i32 (.argument .i32 .nil))) (by decide)

/-- A type's signature is read back with spaces anywhere and `*` for any `i`, as long as the limit allows it, and spaces
never make a difference between two texts that can be read. -/
theorem signatures_respelled (limit : Nat) :
    (∀ (type : FuncType) (text : String), Respelled type.signature.toList text.toList →
      text.utf8ByteSize ≤ limit + 3 → ofSignature? limit text = .ok type) ∧
    ∀ (first second : String) (type type' : FuncType),
      first.toList.filter (· ≠ ' ') = second.toList.filter (· ≠ ' ') →
      ofSignature? limit first = .ok type → ofSignature? limit second = .ok type' → type = type' := by
  constructor
  · intro type text hspelled hlimit
    have hlength : type.params.length + 3 ≤ text.utf8ByteSize :=
      calc type.params.length + 3 = type.signature.toList.length := by simp [signature]
        _ ≤ text.toList.length := hspelled.length_le
        _ ≤ text.utf8ByteSize := Text.Utf8.length_encode text ▸ Text.Utf8.length_le_length_flatMap text.toList
    exact ofSignature?_eq_ok_iff.2 ⟨by omega, hlimit, denotes_respelled type hspelled (by omega)⟩
  · intro first second type type' hspaces hfirst hsecond
    have hessence : essence first.toList = essence second.toList := by
      rw [← essence_filter first.toList, hspaces, essence_filter]
    obtain ⟨-, -, hfirst⟩ := ofSignature?_eq_ok_iff.1 hfirst
    obtain ⟨-, -, hsecond⟩ := ofSignature?_eq_ok_iff.1 hsecond
    exact hfirst.unique (hessence ▸ hsecond)

/-- Spaces before the result, before the arguments, among them and after the end, in a text as long as the limit
allows. -/
theorem signatures_respelled_spaced :
    ∃ type type', ofSignature? 6 " i (*I ) " = .ok type ∧ ofSignature? 6 "i(*I)" = .ok type' ∧ type = type' := by
  have hspaced : Respelled (signature ⟨some .i32, [.i32, .i64]⟩).toList " i (*I ) ".toList :=
    .space (.keep 'i' (.space (.keep '(' (.pointer (.keep 'I' (.space (.keep ')' (.space .nil))))))))
  have hplain : Respelled (signature ⟨some .i32, [.i32, .i64]⟩).toList "i(*I)".toList :=
    .keep 'i' (.keep '(' (.pointer (.keep 'I' (.keep ')' .nil))))
  have hread := (signatures_respelled 6).1 _ " i (*I ) " hspaced (by decide)
  have hread' := (signatures_respelled 6).1 _ "i(*I)" hplain (by decide)
  exact ⟨_, _, hread, hread', (signatures_respelled 6).2 _ _ _ _ (by decide) hread hread'⟩

end WasmEngine.FuncType
