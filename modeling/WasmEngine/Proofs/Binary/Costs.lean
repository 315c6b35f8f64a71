import WasmEngine.Proofs.Threaded.Lengths

/-!
# What reads cost

A read that succeeds takes at least as many bytes as what it gives is long. `Affords` says it with the bytes that are
left as what there is to spend.
-/

namespace WasmEngine

variable {ε σ α β : Type}

/-! ## Programs that pay -/

/-- A run that succeeds pays for what it gives: enough of the state and of `credit` is left for the state and for `left`
of the value. -/
def Affords (potential : σ → Nat) (credit : Nat) (program : EStateM ε σ α) (left : α → Nat) : Prop :=
  ∀ ⦃state value state'⦄, program state = .ok value state' → potential state' + left value ≤ potential state + credit

namespace Affords

variable {potential : σ → Nat} {credit : Nat}

theorem pure {value : α} {left : α → Nat} (h : left value ≤ credit) :
    Affords potential credit (pure value : EStateM ε σ α) left := by
  intro state result state' hrun
  cases hrun
  exact Nat.add_le_add_left h _

theorem throw (error : ε) (left : α → Nat) : Affords potential credit (throw error : EStateM ε σ α) left := by
  intro state result state' hrun
  cases hrun

theorem throw_bind (error : ε) (next : α → EStateM ε σ β) (left : β → Nat) :
    Affords potential credit (MonadExcept.throw error >>= next) left := by
  intro state result state' hrun
  cases hrun

theorem mono {program : EStateM ε σ α} {credit' : Nat} {left left' : α → Nat} (h : Affords potential credit program left)
    (hcredit : credit ≤ credit') (hleft : ∀ value, left' value ≤ left value + (credit' - credit)) :
    Affords potential credit' program left' := by
  intro state value state' hrun
  have hpaid := h hrun
  have hvalue := hleft value
  omega

/-- The second program has what the first one leaves, beside the credit. -/
theorem bind {first : EStateM ε σ α} {second : α → EStateM ε σ β} {earned : α → Nat} {left : β → Nat}
    (hfirst : Affords potential 0 first earned)
    (hsecond : ∀ value, Affords potential (credit + earned value) (second value) left) :
    Affords potential credit (first >>= second) left := by
  intro state result state' hrun
  obtain ⟨value, between, hvalue, hresult⟩ := run_bind_eq_ok hrun
  have hpaid := hfirst hvalue
  have hpaid' := hsecond value hresult
  omega

/-- The first program spends a part of the credit. -/
theorem spend_bind {first : EStateM ε σ α} {second : α → EStateM ε σ β} {spent : Nat} {left : β → Nat}
    (hfirst : Affords potential spent first fun _ => 0) (hspent : spent ≤ credit)
    (hsecond : ∀ value, Affords potential (credit - spent) (second value) left) :
    Affords potential credit (first >>= second) left := by
  intro state result state' hrun
  obtain ⟨value, between, hvalue, hresult⟩ := run_bind_eq_ok hrun
  have hpaid := hfirst hvalue
  have hpaid' := hsecond value hresult
  omega

theorem ite (condition : Prop) [Decidable condition] {first second : EStateM ε σ α} {left : α → Nat}
    (hfirst : Affords potential credit first left) (hsecond : Affords potential credit second left) :
    Affords potential credit (if condition then first else second) left := by
  split
  · exact hfirst
  · exact hsecond

end Affords

/-! ## Reads -/

namespace Reader

/-- How many bytes are left. -/
def funds (reader : Reader) : Nat :=
  reader.rest.length

theorem affords_byte : Affords funds 0 byte fun _ => 1 := by
  rintro ⟨position, rest⟩ value next h
  unfold byte at h
  cases rest with
  | nil => cases h
  | cons byte rest =>
    cases h
    exact Nat.le_refl _

theorem affords_bytes (count : Nat) : Affords funds 0 (bytes count) List.length := by
  intro reader content next h
  unfold funds
  rw [(eq_append_of_bytes h).1, List.length_append]
  omega

theorem affords_remaining : Affords funds 0 remaining List.length := by
  intro reader content next h
  cases h
  exact Nat.le_of_eq (Nat.zero_add _)

theorem affords_groups (maxBits : Nat) : Affords funds 0 (groups maxBits) fun _ => 1 := by
  intro reader found next h
  unfold groups at h
  split at h
  · cases h
  · rename_i groups rest hsplit
    cases h
    have hlength := congrArg List.length (Leb128.append_of_splitGroups hsplit)
    have hpositive := List.length_pos_iff.2 (Leb128.ne_nil_of_splitGroups hsplit)
    rw [List.length_append] at hlength
    unfold funds
    dsimp only
    omega

theorem affords_narrow {read : Read α} {cost : Nat} (h : Affords funds 0 read fun _ => cost)
    (narrowing : α → Option β) : Affords funds 0 (narrow narrowing read) fun _ => cost := by
  intro reader value next hread
  unfold narrow at hread
  split at hread
  · cases hread
  · rename_i hwide
    split at hread
    · cases hread
      exact h hwide
    · cases hread

theorem affords_unsigned (maxBits : Nat) : Affords funds 0 (unsigned maxBits) fun _ => 1 :=
  .bind (affords_groups maxBits) fun _ => .pure (Nat.le_refl _)

theorem affords_signed (maxBits : Nat) : Affords funds 0 (signed maxBits) fun _ => 1 :=
  .bind (affords_groups maxBits) fun _ => .pure (Nat.le_refl _)

theorem affords_varU7 : Affords funds 0 varU7 fun _ => 1 :=
  affords_narrow (affords_unsigned 7) _

theorem affords_varI7 : Affords funds 0 varI7 fun _ => 1 :=
  affords_narrow (affords_signed 7) _

theorem affords_varU32 : Affords funds 0 varU32 fun _ => 1 :=
  affords_narrow (affords_unsigned 32) _

theorem affords_atomically {read : Read α} {cost : α → Nat} (h : Affords funds 0 read cost) :
    Affords funds 0 (atomically read) cost := by
  intro reader value next hread
  unfold atomically at hread
  split at hread
  · rename_i hinner
    cases hread
    exact h hinner
  · cases hread

/-- A text costs its bytes and those of its length. -/
theorem affords_text (limit : Nat) : Affords funds 0 (text limit) fun text => text.utf8ByteSize + 1 := by
  refine affords_atomically (.bind affords_varU32 fun length => ?_)
  dsimp only
  split
  · exact .throw _ _
  · refine .bind (affords_bytes _) fun content => ?_
    cases hdecode : Text.Utf8.decode content with
    | error fault => exact .throw _ _
    | ok text =>
      have hlength := Text.Utf8.length_encode text
      rw [Text.Utf8.encode_of_decode hdecode] at hlength
      exact .pure (by omega)

end Reader

theorem Frame.affords_payload : Affords Reader.funds 0 payloadRead fun payload => payload.length + 1 :=
  .bind Reader.affords_varU32 fun size => (Reader.affords_bytes size.toNat).mono (by omega) fun _ => by omega

theorem ConstExpr.affords_take : Affords Reader.funds 0 take List.length := by
  intro reader content next h
  unfold take at h
  cases hskip : skip reader with
  | error error stopped =>
    rw [hskip] at h
    cases h
  | ok done after =>
    rw [hskip] at h
    cases h
    obtain ⟨opcodes, hmeets⟩ := skip_eq_ok_iff.1 hskip
    obtain ⟨word, hrest, hposition, -⟩ := hmeets.elsewhere
    unfold Reader.funds
    rw [hrest, hposition, Nat.add_sub_cancel_left, List.take_left, List.length_append]
    omega

namespace Binary

open Reader

theorem affords_many {item : Read α} (h : Affords funds 0 item fun _ => 1) (count : Nat) :
    Affords funds 0 (many item count) List.length := by
  induction count with
  | zero => exact .pure (Nat.le_refl _)
  | succ count ih => exact .bind h fun _ => .bind ih fun _ => .pure (by rw [List.length_cons]; omega)

theorem affords_valType : Affords funds 0 valType fun _ => 1 := by
  refine .bind affords_byte fun byte => ?_
  cases ValType.ofByte? byte with
  | ok type => exact .pure (by omega)
  | error error => exact .throw _ _

/-- A function type costs its parameters, its form and two numbers. -/
theorem affords_funcType : Affords funds 0 funcType fun type => type.params.length + 3 := by
  refine .bind affords_varI7 fun form => .ite _ (.throw_bind _ _ _) ?_
  refine .bind affords_varU32 fun paramCount => .bind (affords_many affords_valType _) fun params => ?_
  refine .bind affords_varU32 fun resultCount => .ite _ (.pure (by dsimp only; omega)) (.ite _ ?_ (.throw _ _))
  exact .bind affords_valType fun result => .pure (by dsimp only; omega)

theorem affords_limits : Affords funds 0 limits fun _ => 2 := by
  refine .bind affords_varU32 fun flags => .bind affords_varU32 fun initial => .ite _ ?_ (.pure (by omega))
  exact .bind affords_varU32 fun maximum => .pure (by omega)

theorem affords_globalType : Affords funds 0 globalType fun _ => 2 :=
  .bind affords_valType fun _ => .bind affords_varU7 fun _ => .pure (by omega)

theorem affords_localGroups (total count : Nat) : Affords funds 0 (localGroups total count) fun _ => 0 := by
  induction count generalizing total with
  | zero => exact .pure (Nat.le_refl _)
  | succ count ih =>
    exact .bind affords_varU32 fun _ => .bind affords_valType fun _ => (ih _).mono (by omega) fun _ => by omega

/-- The instructions of a body cost their bytes, and the number of its locals another one. -/
theorem affords_funcBody : Affords funds 0 funcBody fun body => body.2.length + 1 :=
  .bind affords_varU32 fun _ => .bind (affords_localGroups 0 _) fun _ => .bind affords_remaining fun _ =>
    .pure (by dsimp only; omega)

end Binary

end WasmEngine
