import Mathlib.Tactic.IntervalCases
import WasmEngine.Proofs.Binary.Integers

/-!
# Framed bytes

Bytes that are complete frames, one after the other, are divided in one way, and `Frame.split` finds it. Bytes that
break off inside a frame lack bytes and nothing else (`Awaits`).
-/

namespace WasmEngine

variable {α β : Type}

namespace Form

variable {word : List UInt8}

/-- A section with its number and its payload. -/
def frame (frame : Frame) : Language UInt8 :=
  framed frame.id {frame.payload}

/-- Sections one after the other. -/
def frames (list : List Frame) : Language UInt8 :=
  (list.map frame).prod

theorem mem_frame {frame : Frame} :
    word ∈ Form.frame frame ↔ ∃ sized ∈ block frame.payload, word = frame.id :: sized := by
  constructor
  · intro h
    obtain ⟨_, rfl, sized, ⟨_, rfl, hsized⟩, rfl⟩ := Language.mem_mul.1 h
    exact ⟨sized, hsized, rfl⟩
  · rintro ⟨sized, hsized, rfl⟩
    exact Language.append_mem_mul (a := [frame.id]) rfl ⟨_, rfl, hsized⟩

theorem mem_frames_nil : word ∈ frames [] ↔ word = [] :=
  Language.mem_one word

theorem mem_frames_cons {frame : Frame} {list : List Frame} :
    word ∈ frames (frame :: list) ↔ ∃ first ∈ Form.frame frame, ∃ others ∈ frames list, first ++ others = word := by
  rw [frames, List.map_cons, List.prod_cons]
  exact Language.mem_mul

theorem append_mem_frames {id : UInt8} {payload others : List UInt8} {list : List Frame} (size : List UInt8)
    (hsize : size ∈ u32 payload.length) (hothers : others ∈ frames list) :
    id :: (size ++ payload) ++ others ∈ frames (⟨id, payload⟩ :: list) :=
  mem_frames_cons.2 ⟨_, mem_frame.2 ⟨size ++ payload, Language.append_mem_mul hsize rfl, rfl⟩, others, hothers, rfl⟩

end Form

/-! ## Reads that wait for more -/

/-- A read fails for want of bytes on every part of a word of a form. -/
def Awaits (read : Read α) (form : Language UInt8) : Prop :=
  ∀ front back, front ++ back ∈ form → back ≠ [] → ∀ position, ∃ stopped,
    read ⟨position, front⟩ = .error .underrun stopped

theorem Awaits.bind {first : Read α} {second : α → Read β} {value : α} {form tail : Language UInt8}
    (hreads : Reads first form value) (hfirst : Awaits first form) (hsecond : Awaits (second value) tail) :
    Awaits (first >>= second) (form * tail) := by
  intro front back hmem hback position
  -- The word ends inside what the first read takes, or it holds all of that and a part of the rest.
  have hlater (word part : List UInt8) (hword : word ∈ form) (hpart : part ++ back ∈ tail) :
      ∃ stopped, (first >>= second) ⟨position, word ++ part⟩ = .error .underrun stopped := by
    obtain ⟨stopped, hstopped⟩ := hsecond part back hpart hback (position + word.length)
    exact ⟨stopped, (run_bind_of_ok (hreads word hword part trivial position)).trans hstopped⟩
  obtain ⟨word, hword, rest, hrest, happend⟩ := Language.mem_mul.1 hmem
  obtain ⟨part, rfl, rfl⟩ | ⟨part, rfl, rfl⟩ := List.append_eq_append_iff.1 happend
  · exact hlater word part hword hrest
  · by_cases hpart : part = []
    · subst hpart
      rw [List.append_nil] at hword
      simpa using hlater front [] hword hrest
    · obtain ⟨stopped, hstopped⟩ := hfirst front part hword hpart position
      exact ⟨stopped, run_bind_of_error hstopped⟩

namespace Reader

theorem splitExact_eq_none {count : Nat} {items : List α} (h : items.length < count) : splitExact count items = none := by
  induction count generalizing items with
  | zero => omega
  | succ count ih =>
    cases items with
    | nil => rfl
    | cons item items =>
      rw [splitExact, ih (by simpa using h)]

theorem awaits_bytes (content : List UInt8) : Awaits (bytes content.length) {content} := by
  rintro front back rfl hback position
  have hlength : front.length < (front ++ back).length := by
    have := List.length_pos_iff.2 hback
    rw [List.length_append]
    omega
  refine ⟨⟨position, front⟩, ?_⟩
  simp only [bytes, splitExact_eq_none hlength]

theorem awaits_varU32 (n : Nat) : Awaits varU32 (Form.u32 n) := by
  intro front back hmem hback position
  have hsplit := Leb128.splitGroups_front hmem.1.1 hback hmem.1.2
  have hgroups : groups 32 ⟨position, front⟩ = .error .underrun ⟨position, front⟩ := by
    unfold groups
    rw [show Leb128.groupLimit 32 = 5 from rfl, hsplit]
    rfl
  have hunsigned : unsigned 32 ⟨position, front⟩ = .error .underrun ⟨position, front⟩ := run_bind_of_error hgroups
  refine ⟨⟨position, front⟩, ?_⟩
  simp only [varU32, narrow, hunsigned]

/-! ## What a successful read says -/

theorem eq_append_of_bytes {count : Nat} {reader next : Reader} {content : List UInt8}
    (h : bytes count reader = .ok content next) : reader.rest = content ++ next.rest ∧ content.length = count := by
  unfold bytes at h
  cases hsplit : splitExact count reader.rest with
  | none =>
    rw [hsplit] at h
    cases h
  | some parts =>
    rw [hsplit] at h
    cases h
    obtain ⟨hlength, happend⟩ := length_splitExact hsplit
    exact ⟨happend.symm, hlength⟩

theorem littleEndian_lt (content : List UInt8) : littleEndian content < 256 ^ content.length := by
  induction content with
  | nil => decide
  | cons byte content ih =>
    have := byte.toNat_lt
    rw [littleEndian, List.length_cons, Nat.pow_succ]
    omega

theorem littleEndian_inj {content content' : List UInt8} (hlength : content.length = content'.length)
    (h : littleEndian content = littleEndian content') : content = content' := by
  induction content generalizing content' with
  | nil => exact (List.length_eq_zero_iff.1 hlength.symm).symm
  | cons byte content ih =>
    cases content' with
    | nil => cases hlength
    | cons byte' content' =>
      have := byte.toNat_lt
      have := byte'.toNat_lt
      simp only [littleEndian] at h
      rw [ih (by simpa using hlength) (by omega), UInt8.toNat_inj.1 (show byte.toNat = byte'.toNat by omega)]

/-- A number of 32 bits determines its four bytes. -/
theorem eq_append_of_u32 {reader next : Reader} (content : List UInt8) (hlength : content.length = 4)
    (h : u32 reader = .ok (UInt32.ofNat (littleEndian content)) next) : reader.rest = content ++ next.rest := by
  obtain ⟨content', between, hbytes, hpure⟩ := run_bind_eq_ok h
  obtain ⟨happend, hlength'⟩ := eq_append_of_bytes hbytes
  have hlt := littleEndian_lt content
  have hlt' := littleEndian_lt content'
  rw [hlength] at hlt
  rw [hlength'] at hlt'
  obtain ⟨hnumber, rfl⟩ := EStateM.Result.ok.inj hpure
  have hsame : littleEndian content' = littleEndian content := by
    have hnat := congrArg UInt32.toNat hnumber
    simp only [UInt32.toNat_ofNat'] at hnat
    omega
  rw [happend, littleEndian_inj (hlength'.trans hlength.symm) hsame]

theorem eq_append_of_varU32 {reader next : Reader} {value : UInt32} (h : varU32 reader = .ok value next) :
    ∃ word ∈ Form.u32 value.toNat, reader.rest = word ++ next.rest := by
  obtain ⟨word, hrest, -, hrun, hlength, hvalue⟩ := (takesRuns_varU32.ok_iff reader value next).1 h
  rw [← Leb128.unsignedValue_eq_groupSum] at hvalue
  exact ⟨word, ⟨⟨hrun, hlength⟩, hvalue.symm, value.toNat_lt⟩, hrest⟩

end Reader

/-! ## The header -/

namespace Binary

theorem awaits_header : Awaits header {Form.header} := by
  intro front back hmem hback position
  have hwhole : front ++ back = Form.header := hmem
  have hlength : front.length < 8 := by
    have htotal := congrArg List.length hwhole
    have := List.length_pos_iff.2 hback
    rw [List.length_append] at htotal
    change _ = 8 at htotal
    omega
  have hfront : front = Form.header.take front.length := by
    rw [← hwhole, List.take_left']
    rfl
  rw [hfront]
  generalize front.length = length at hlength
  interval_cases length <;> exact ⟨_, rfl⟩

theorem eq_append_of_header {reader next : Reader} (h : header reader = .ok () next) :
    reader.rest = Form.header ++ next.rest := by
  unfold header at h
  obtain ⟨magic, between, hmagic, h⟩ := run_bind_eq_ok h
  by_cases hne : magic ≠ 0x6D736100
  · rw [if_pos hne] at h
    cases h
  · rw [if_neg hne] at h
    obtain ⟨version, last, hversion, h⟩ := run_bind_eq_ok h
    by_cases hne' : version ≠ 1
    · rw [if_pos hne'] at h
      cases h
    · rw [if_neg hne'] at h
      cases h
      rw [not_not.1 hne] at hmagic
      rw [not_not.1 hne'] at hversion
      have hfront := Reader.eq_append_of_u32 [0x00, 0x61, 0x73, 0x6D] rfl hmagic
      have hback := Reader.eq_append_of_u32 [0x01, 0x00, 0x00, 0x00] rfl hversion
      rw [hfront, hback]
      rfl

end Binary

/-! ## Splitting -/

namespace Frame

variable {list : List Frame}

theorem awaits_payload (content : List UInt8) : Awaits payloadRead (Form.block content) := by
  intro front back hmem
  obtain ⟨size, hsize, -⟩ := Language.mem_mul.1 hmem
  have hlength : (UInt32.ofNat content.length).toNat = content.length := UInt32.toNat_ofNat_of_lt' hsize.2.2
  have hcontent : Awaits (Reader.bytes (UInt32.ofNat content.length).toNat) {content} := by
    rw [hlength]
    exact Reader.awaits_bytes content
  exact (Reader.awaits_varU32 _).bind (Reader.reads_varU32 _) hcontent front back hmem

theorem eq_append_of_payload {reader next : Reader} {content : List UInt8}
    (h : payloadRead reader = .ok content next) : ∃ word ∈ Form.block content, reader.rest = word ++ next.rest := by
  obtain ⟨size, between, hsize, hbytes⟩ := run_bind_eq_ok h
  obtain ⟨word, hword, hfront⟩ := Reader.eq_append_of_varU32 hsize
  obtain ⟨hback, hlength⟩ := Reader.eq_append_of_bytes hbytes
  rw [← hlength] at hword
  refine ⟨word ++ content, Language.append_mem_mul hword rfl, ?_⟩
  rw [hfront, hback, List.append_assoc]

theorem split_cons (number : UInt8) {content word : List UInt8} (h : word ∈ Form.block content)
    (rest : List UInt8) :
    split (number :: (word ++ rest)) = (⟨number, content⟩ :: (split rest).1, (split rest).2) := by
  have hread : payloadRead (Reader.ofBytes (word ++ rest)) = .ok content ⟨0 + word.length, rest⟩ :=
    reads_payload content word h rest trivial 0
  rw [split]
  split
  · rename_i heq
    rw [hread] at heq
    cases heq
  · rename_i heq
    rw [hread] at heq
    cases heq
    rfl

/-- Complete frames are found, whatever follows. -/
theorem split_append {word : List UInt8} (h : word ∈ Form.frames list) (rest : List UInt8) :
    split (word ++ rest) = (list ++ (split rest).1, (split rest).2) := by
  induction list generalizing word with
  | nil =>
    rw [Form.mem_frames_nil.1 h]
    rfl
  | cons frame list ih =>
    obtain ⟨first, hfirst, others, hothers, rfl⟩ := Form.mem_frames_cons.1 h
    obtain ⟨sized, hsized, rfl⟩ := Form.mem_frame.1 hfirst
    rw [List.append_assoc, List.cons_append, split_cons _ hsized, ih hothers]
    rfl

/-- What is found without a fault stands in the bytes. -/
theorem mem_frames_of_split {input : List UInt8} (h : split input = (list, none)) :
    input ∈ Form.frames list := by
  fun_induction split input generalizing list with
  | case1 =>
    cases h
    exact Form.mem_frames_nil.2 rfl
  | case2 id rest error stopped hread => cases h
  | case3 id rest payload next hread hlt found fault hsplit ih =>
    cases h
    obtain ⟨word, hword, hrest⟩ := eq_append_of_payload hread
    exact Form.mem_frames_cons.2
      ⟨id :: word, Form.mem_frame.2 ⟨word, hword, rfl⟩, next.rest, ih hsplit, congrArg (id :: ·) hrest.symm⟩

/-- A frame that breaks off is an underrun. -/
theorem split_part {frame : Frame} {front back : List UInt8} (h : front ++ back ∈ Form.frame frame)
    (hfront : front ≠ []) (hback : back ≠ []) : split front = ([], some .underrun) := by
  obtain ⟨sized, hsized, happend⟩ := Form.mem_frame.1 h
  cases front with
  | nil => exact absurd rfl hfront
  | cons id front =>
    cases happend
    obtain ⟨stopped, hread⟩ := awaits_payload frame.payload front back hsized hback 0
    rw [split]
    split
    · rename_i heq
      cases heq.symm.trans hread
      rfl
    · rename_i heq
      cases heq.symm.trans hread

/-- Frames are cut between two of them, or the first part is an underrun after some of them. -/
theorem split_cut {front back : List UInt8} (h : front ++ back ∈ Form.frames list) :
    ∃ before after, list = before ++ after ∧
      (front ∈ Form.frames before ∧ back ∈ Form.frames after ∨ split front = (before, some .underrun)) := by
  induction list generalizing front with
  | nil =>
    obtain ⟨rfl, rfl⟩ := List.append_eq_nil_iff.1 (Form.mem_frames_nil.1 h)
    exact ⟨[], [], rfl, .inl ⟨Form.mem_frames_nil.2 rfl, Form.mem_frames_nil.2 rfl⟩⟩
  | cons frame list ih =>
    -- The cut leaves the first frame whole, or it goes through that frame or stands at one of its ends.
    have hwhole (first part : List UInt8) (hfirst : first ∈ Form.frame frame) (hpart : part ++ back ∈ Form.frames list) :
        ∃ before after, frame :: list = before ++ after ∧
          (first ++ part ∈ Form.frames before ∧ back ∈ Form.frames after ∨
            split (first ++ part) = (before, some .underrun)) := by
      obtain ⟨before, after, rfl, hcut⟩ := ih hpart
      refine ⟨frame :: before, after, rfl, hcut.imp (fun hbetween => ?_) fun hsplit => ?_⟩
      · exact ⟨Form.mem_frames_cons.2 ⟨first, hfirst, part, hbetween.1, rfl⟩, hbetween.2⟩
      · obtain ⟨sized, hsized, rfl⟩ := Form.mem_frame.1 hfirst
        rw [List.cons_append, split_cons _ hsized, hsplit]
    obtain ⟨first, hfirst, others, hothers, happend⟩ := Form.mem_frames_cons.1 h
    obtain ⟨part, rfl, rfl⟩ | ⟨part, rfl, rfl⟩ := List.append_eq_append_iff.1 happend
    · exact hwhole first part hfirst hothers
    · by_cases hfront : front = []
      · subst hfront
        exact ⟨[], frame :: list, rfl, .inl ⟨Form.mem_frames_nil.2 rfl, h⟩⟩
      · by_cases hpart : part = []
        · subst hpart
          rw [List.append_nil] at hfirst
          simpa using hwhole front [] hfirst hothers
        · exact ⟨[], frame :: list, rfl, .inr (split_part hfirst hfront hpart)⟩

end Frame

end WasmEngine
