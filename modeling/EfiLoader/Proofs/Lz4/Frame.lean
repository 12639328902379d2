import EfiLoader.Lz4.Frame
import EfiLoader.Proofs.Reader

/-!
# EfiLoader.Proofs.Lz4.Frame

LZ4 frames over two sources.  A frame is decoded alike from all inputs with
the same bytes, however these are cut up:

* `Descriptor.read_agree` — the header;
* `Frame.readBlock_agree` — block by block, of which each takes some input;
* `Frame.decode_agree` — and so the frame as a whole.
-/

namespace EfiLoader.Lz4

open Reader

variable {σ₁ σ₂ : Type} {src₁ : Source σ₁} {src₂ : Source σ₂} {left : ByteArray}

/-! ## headers -/

/-- Fields that may be absent are read alike. -/
theorem Descriptor.readField_agree (present : Bool) (n : Nat) :
    Agree src₁ src₂ left 0 (readField src₁ present n) (readField src₂ present n) := by
  unfold readField
  refine Agree.ite (fun _ => ?_) fun _ => Agree.pure _
  exact Agree.map _ (Agree.bytes _ (Nat.zero_le _))

/-- What follows the first bytes of a header is read alike. -/
theorem Descriptor.readFields_agree (bits : ByteArray) (blockMaximum : BlockMaximum) :
    Agree src₁ src₂ left 0 (readFields src₁ bits blockMaximum)
      (readFields src₂ bits blockMaximum) := by
  unfold readFields
  refine Agree.bind (readField_agree _ _) fun size rest _ => ?_
  refine Agree.bind (readField_agree _ _) fun dictionary rest _ => ?_
  refine Agree.bind (Agree.bytes _ (Nat.zero_le _)) fun found rest _ => ?_
  exact Agree.check fun _ => Agree.pure _

/-- Headers are read alike. -/
theorem Descriptor.read_agree : Agree src₁ src₂ left 0 (read src₁) (read src₂) := by
  unfold read
  refine Agree.bind (Agree.le _ (Nat.zero_le _)) fun found rest _ => Agree.check fun _ => ?_
  refine Agree.bind (Agree.bytes _ (Nat.zero_le _)) fun bits rest _ => ?_
  cases blockMaximumOf (Bytes.byte bits 0) (Bytes.byte bits 1) with
  | error e => exact Agree.throw e
  | ok blockMaximum => exact readFields_agree bits blockMaximum

namespace Frame

/-! ## blocks -/

/-- Stored hashes are read alike. -/
theorem readHash_agree (present : Bool) (actual : UInt32) (mismatch : UInt32 → FrameError) :
    Agree src₁ src₂ left 0 (readHash src₁ present actual mismatch)
      (readHash src₂ present actual mismatch) := by
  unfold readHash
  refine Agree.ite (fun _ => ?_) fun _ => Agree.pure _
  refine Agree.bind (Agree.le _ (Nat.zero_le _)) fun stored rest _ => ?_
  exact Agree.ite (fun _ => Agree.throw _) fun _ => Agree.pure _

/-- The rest of a block is read alike. -/
theorem readBlock_agree (d : Descriptor) (size : Nat) (out : ByteArray) (word : Nat) :
    Agree src₁ src₂ left 0 (readBlock src₁ d size out word)
      (readBlock src₂ d size out word) := by
  unfold readBlock
  refine Agree.check fun _ => Agree.bind (Agree.bytes _ (Nat.zero_le _)) fun payload rest _ => ?_
  refine Agree.bind (readHash_agree _ _ _) fun _ rest _ => ?_
  cases blockContent d out (size - out.size) (0x80000000 ≤ word) payload with
  | ok content => exact Agree.pure _
  | error e => exact Agree.throw e

/-- So are runs of blocks, if either run has more fuel than there are bytes. -/
theorem readBlocks_agree (d : Descriptor) (size : Nat) {fuel₁ fuel₂ : Nat} (p : Progress)
    (h₁ : left.size < fuel₁) (h₂ : left.size < fuel₂) :
    Agree src₁ src₂ left 0 (readBlocks src₁ d size fuel₁ p)
      (readBlocks src₂ d size fuel₂ p) := by
  induction fuel₁ generalizing fuel₂ p left with
  | zero => exact absurd h₁ (Nat.not_lt_zero _)
  | succ fuel₁ ih =>
    cases fuel₂ with
    | zero => exact absurd h₂ (Nat.not_lt_zero _)
    | succ fuel₂ =>
        rw [readBlocks, readBlocks]
        -- the size word makes the rest of the input shorter
        refine Agree.mono (Agree.bind (Agree.le _ (Nat.le_refl 4)) fun word rest hrest => ?_)
          (Nat.zero_le _)
        refine Agree.ite (fun _ => Agree.pure _) fun _ => ?_
        refine Agree.bind (readBlock_agree d size p.out word) fun content rest' hrest' => ?_
        exact ih (p.add d content) (by omega) (by omega)

/-! ## whole frames -/

/-- What follows the header is read alike. -/
theorem readContent_agree (d : Descriptor) (size : Nat) :
    Agree src₁ src₂ left 0 (readContent src₁ d size) (readContent src₂ d size) := by
  unfold readContent
  refine Agree.get_bind fun inp₁ inp₂ h₁ h₂ => ?_
  refine Agree.bind (readBlocks_agree d size _ (by omega) (by omega)) fun p rest _ => ?_
  refine Agree.bind (readHash_agree _ _ _) fun _ rest _ => ?_
  exact Agree.check fun _ => Agree.pure _

/-- So is the whole frame after its header, as far as it is read. -/
theorem readBody_agree [Allocator] (d : Descriptor) :
    Agree src₁ src₂ left 0 (readBody src₁ d) (readBody src₂ d) := by
  unfold readBody
  cases contentSize d with
  | error e => exact Agree.throw e
  | ok size => exact readContent_agree d size

/-- A frame is decoded as it is read. -/
theorem value_decode [Allocator] {σ : Type} (src : Source σ) (inp : Input σ) :
    (decode src inp).value = (Descriptor.read src >>= readBody src) inp := by
  have hrun : (Descriptor.read src).run.run inp = Descriptor.read src inp := rfl
  unfold decode
  rw [hrun]
  rcases hread : Descriptor.read src inp with ⟨e | d, inp'⟩
  · rw [bind_of_error hread]
    rfl
  · rw [bind_of_ok hread]
    rfl

/-- Inputs with the same bytes are decoded alike. -/
theorem decode_agree [Allocator] {inp₁ : Input σ₁} {inp₂ : Input σ₂} (h₁ : inp₁.Reads src₁ left)
    (h₂ : inp₂.Reads src₂ left) :
    (decode src₁ inp₁).value.1 = (decode src₂ inp₂).value.1 := by
  rw [value_decode, value_decode]
  exact (Agree.bind Descriptor.read_agree (fun d _ _ => readBody_agree d) inp₁ inp₂ h₁ h₂).answer

end Frame

end EfiLoader.Lz4
