import WasmEngine.Threaded.Instruction

/-!
# Structured bodies

`Block` is the body of a function as a tree, `Block.parse` reads it off the instructions, and `Block.flatten` writes
them down again. Reading goes from the back: `Block.levels` keeps the pieces of the blocks that are open, the innermost
first.
-/

namespace WasmEngine.Threaded

/-- Whether an instruction neither begins nor ends a block. -/
def Instruction.isPlain : Instruction → Bool
  | .ifThen | .orElse | .finish => false
  | _ => true

/-- A body as a tree. -/
inductive Block where
  /-- The end of the block. -/
  | done
  | plain (instruction : Instruction) (hplain : instruction.isPlain = true) (rest : Block)
  /-- An `if` without an `else`. -/
  | when (body rest : Block)
  /-- An `if` with an `else`. -/
  | cond (yes no rest : Block)

/-- What closes a piece of a block. -/
inductive Closer where
  | orElse
  | finish
  deriving DecidableEq

def Closer.instruction : Closer → Instruction
  | .orElse => .orElse
  | .finish => .finish

namespace Block

/-- The instructions of a block. -/
def flatten : Block → List Instruction
  | .done => []
  | .plain instruction _ rest => instruction :: rest.flatten
  | .when body rest => .ifThen :: (body.flatten ++ .finish :: rest.flatten)
  | .cond yes no rest => .ifThen :: (yes.flatten ++ .orElse :: (no.flatten ++ .finish :: rest.flatten))

/-- Puts an `if` in front of the pieces that it opens and that follow it. -/
def branch : List (Block × Closer) → List (Block × Closer)
  | (body, .finish) :: (rest, closer) :: levels => (.when body rest, closer) :: levels
  | (yes, .orElse) :: (no, .finish) :: (rest, closer) :: levels => (.cond yes no rest, closer) :: levels
  | _ => []

/-- Puts an instruction in front of the pieces that follow it. -/
def prepend (instruction : Instruction) (levels : List (Block × Closer)) : List (Block × Closer) :=
  if hplain : instruction.isPlain = true then
    match levels with
    | [] => []
    | (block, closer) :: levels => (.plain instruction hplain block, closer) :: levels
  else
    match instruction with
    | .ifThen => branch levels
    | .orElse => (.done, .orElse) :: levels
    | _ => (.done, .finish) :: levels

/-- The pieces of the open blocks that some instructions go on with, the innermost first. -/
def levels (instructions : List Instruction) : List (Block × Closer) :=
  instructions.foldr prepend []

/-- The body at the front of some instructions, up to the `end` that closes it. -/
def parse (instructions : List Instruction) : Option Block :=
  match levels instructions with
  | (block, .finish) :: _ => some block
  | _ => none

/-- The body that some bytes encode. -/
def ofBody (body : List UInt8) : Option Block :=
  parse (Instruction.ofBody body).1

/-! ## Reading and writing -/

theorem levels_flatten (block : Block) {closer : Closer} {others : List (Block × Closer)}
    {rest : List Instruction} (h : levels rest = (done, closer) :: others) :
    levels (block.flatten ++ rest) = (block, closer) :: others := by
  induction block generalizing closer others rest with
  | done => exact h
  | plain instruction hplain block ih =>
    change prepend instruction (levels (block.flatten ++ rest)) = _
    rw [ih h]
    simp [prepend, hplain]
  | when body block ihbody ih =>
    have hrest := ih h
    have hbody : levels (body.flatten ++ .finish :: (block.flatten ++ rest)) =
        (body, .finish) :: (block, closer) :: others := ihbody (congrArg (prepend .finish) hrest)
    rw [flatten, List.cons_append, List.append_assoc, List.cons_append]
    exact congrArg (prepend .ifThen) hbody
  | cond yes no block ihyes ihno ih =>
    have hrest := ih h
    have hno : levels (no.flatten ++ .finish :: (block.flatten ++ rest)) =
        (no, .finish) :: (block, closer) :: others := ihno (congrArg (prepend .finish) hrest)
    have hyes : levels (yes.flatten ++ .orElse :: (no.flatten ++ .finish :: (block.flatten ++ rest))) =
        (yes, .orElse) :: (no, .finish) :: (block, closer) :: others := ihyes (congrArg (prepend .orElse) hno)
    rw [flatten, List.cons_append, List.append_assoc, List.cons_append, List.append_assoc, List.cons_append]
    exact congrArg (prepend .ifThen) hyes

/-- The instructions of pieces, one after the other. -/
def join : List (Block × Closer) → List Instruction
  | [] => []
  | (block, closer) :: levels => block.flatten ++ closer.instruction :: join levels

theorem join_branch (levels : List (Block × Closer)) :
    ∃ rest, .ifThen :: join levels = join (branch levels) ++ rest := by
  unfold branch
  split
  · exact ⟨[], by simp [join, flatten, Closer.instruction]⟩
  · exact ⟨[], by simp [join, flatten, Closer.instruction]⟩
  · exact ⟨_, (List.nil_append _).symm⟩

/-- The pieces are read off the front of the instructions. -/
theorem join_levels (instructions : List Instruction) :
    ∃ rest, instructions = join (levels instructions) ++ rest := by
  induction instructions with
  | nil => exact ⟨[], rfl⟩
  | cons instruction instructions ih =>
    obtain ⟨rest, hrest⟩ := ih
    change ∃ rest, instruction :: instructions = join (prepend instruction (levels instructions)) ++ rest
    by_cases hplain : instruction.isPlain = true
    · simp only [prepend, dif_pos hplain]
      cases hlevels : levels instructions with
      | nil => exact ⟨_, (List.nil_append _).symm⟩
      | cons level others =>
        rw [hlevels] at hrest
        exact ⟨rest, congrArg (instruction :: ·) hrest⟩
    · simp only [prepend, dif_neg hplain]
      cases instruction with
      | ifThen =>
        obtain ⟨rest', hrest'⟩ := join_branch (levels instructions)
        refine ⟨rest' ++ rest, ?_⟩
        rw [← List.append_assoc, ← hrest', List.cons_append, ← hrest]
      | orElse => exact ⟨rest, congrArg (.orElse :: ·) hrest⟩
      | finish => exact ⟨rest, congrArg (.finish :: ·) hrest⟩
      | _ => simp [Instruction.isPlain] at hplain

/-- What is read is what is written, up to the `end` that closes the body. -/
theorem parse_eq_some {instructions : List Instruction} {block : Block} :
    parse instructions = some block ↔ ∃ rest, instructions = block.flatten ++ .finish :: rest := by
  constructor
  · intro h
    unfold parse at h
    split at h
    · rename_i others hlevels
      cases h
      obtain ⟨rest, hrest⟩ := join_levels instructions
      rw [hlevels] at hrest
      refine ⟨join others ++ rest, hrest.trans ?_⟩
      simp [join, Closer.instruction]
    · cases h
  · rintro ⟨rest, rfl⟩
    have hlevels : levels (block.flatten ++ .finish :: rest) = (block, .finish) :: levels rest :=
      levels_flatten block rfl
    unfold parse
    rw [hlevels]

end Block

end WasmEngine.Threaded
