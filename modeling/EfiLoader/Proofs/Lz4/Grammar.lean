import EfiLoader.Proofs.Hash.Xxh32
import EfiLoader.Proofs.Lz4.Block
import EfiLoader.Proofs.Lz4.Descriptor

/-!
# EfiLoader.Proofs.Lz4.Grammar

The grammar of frames.  A frame is a header, blocks, a zero word and a hash of
the content; a block is a size word, a payload and a hash of the payload, where
either hash is there only if the header says so:

```
frame = header block* 0 [hash content]
block = word payload [hash payload]
```

`Contents d blocks out out'` says that blocks continue the content `out` to
`out'`, and `IsFrame stream out` that a stream starts with a frame whose
content is `out`.  Nothing in it depends on how frames are read; the content
of a block that is not stored is what the grammar of its sequences says.
-/

namespace EfiLoader.Lz4

open Hash

/-! ## blocks -/

/-- The bytes of a hash where one is stored. -/
def hashField (present : Bool) (hash : UInt32) : ByteArray :=
  if present then Bytes.ofU32 hash else ByteArray.empty

/-- A block of a frame as it is written. -/
structure RawBlock where
  /-- The payload is the content as it is. -/
  stored : Bool
  payload : ByteArray

namespace RawBlock

/-- The size word: the size of the payload, with the top bit set if that is
the content as it is. -/
def word (b : RawBlock) : Nat := b.payload.size + if b.stored then 0x80000000 else 0

/-- The block as it is written. -/
def encode (b : RawBlock) (d : Descriptor) : ByteArray :=
  Bytes.le 4 b.word ++ (b.payload ++ hashField d.blockChecksums (Xxh32.hash b.payload))

/-- After the content `out` the block has the given content.  A linked block
may use all that is before it. -/
def Holds (b : RawBlock) (d : Descriptor) (out content : ByteArray) : Prop :=
  if b.stored then
    content = b.payload
  else
    Block.Decodes (if d.independentBlocks then ByteArray.empty else out) b.payload content

section

variable {b : RawBlock}

/-- The low bits of the size word are the size of the payload. -/
theorem word_mod (h : b.payload.size < 0x80000000) : b.word % 0x80000000 = b.payload.size := by
  rw [word]
  split <;> omega

/-- Its top bit says that the block is stored. -/
theorem le_word (h : b.payload.size < 0x80000000) : decide (0x80000000 ≤ b.word) = b.stored := by
  rw [word]
  cases b.stored with
  | true => exact decide_eq_true (Nat.le_add_left _ _)
  | false =>
      rw [if_neg Bool.false_ne_true, Nat.add_zero]
      exact decide_eq_false (Nat.not_le.mpr h)

theorem word_lt (h : b.payload.size < 0x80000000) : b.word < 256 ^ 4 := by
  rw [word]
  split <;> omega

/-- Any word is that of the block it asks for. -/
theorem word_mk {n : Nat} {payload : ByteArray} (hn : n < 256 ^ 4)
    (h : payload.size = n % 0x80000000) : word ⟨0x80000000 ≤ n, payload⟩ = n := by
  rw [word]
  simp only [decide_eq_true_eq]
  split <;> omega

end

end RawBlock

/-- Payloads of blocks are short enough for the size word. -/
theorem BlockMaximum.lt_of_le_bytes {m : BlockMaximum} {n : Nat} (h : n ≤ m.bytes) :
    n < 0x80000000 := by
  have hbytes : m.bytes < 0x80000000 := by
    cases m <;> decide
  omega

/-- Blocks that continue a content: none is a zero word and none is too long. -/
inductive Contents (d : Descriptor) : List RawBlock → ByteArray → ByteArray → Prop
  | nil (out : ByteArray) : Contents d [] out out
  | cons {b : RawBlock} {blocks : List RawBlock} {out content out' : ByteArray}
      (word : b.word ≠ 0) (size : b.payload.size ≤ d.blockMaximum.bytes)
      (holds : b.Holds d out content) (rest : Contents d blocks (out ++ content) out') :
      Contents d (b :: blocks) out out'

/-- Blocks as they are written, with the zero word after them. -/
def encodeBlocks (d : Descriptor) : List RawBlock → ByteArray
  | [] => Bytes.le 4 0
  | b :: blocks => b.encode d ++ encodeBlocks d blocks

/-- Blocks make a content longer. -/
theorem Contents.size_le {d : Descriptor} {blocks : List RawBlock} {out out' : ByteArray}
    (h : Contents d blocks out out') : out.size ≤ out'.size := by
  induction h with
  | nil out => exact Nat.le_refl _
  | cons word size holds rest ih =>
      rw [ByteArray.size_append] at ih
      omega

/-! ## streams -/

/-- The stream starts with a frame of the given content. -/
inductive IsFrame : (stream out : ByteArray) → Prop
  | intro {d : Descriptor} {n : UInt64} {blocks : List RawBlock} {out : ByteArray}
      (dictionary : d.dictionary = none) (contentSize : d.contentSize = some n)
      (contents : Contents d blocks ByteArray.empty out) (size : out.size = n.toNat)
      (rest : ByteArray) :
      IsFrame (d.encode ++ (encodeBlocks d blocks ++
        (hashField d.contentChecksum (Xxh32.hash out) ++ rest))) out

/-- The stream starts with something that is no frame of this kind: with
another magic number or version, or with a header that needs a dictionary or
does not say how long the content is. -/
inductive Foreign : (stream : ByteArray) → Prop
  | unknown {stream : ByteArray} (h : Descriptor.Unknown stream) : Foreign stream
  | dictionary {d : Descriptor} (h : d.dictionary ≠ none) (rest : ByteArray) :
      Foreign (d.encode ++ rest)
  | contentSize {d : Descriptor} (h : d.contentSize = none) (rest : ByteArray) :
      Foreign (d.encode ++ rest)

/-- The stream starts with the header of a frame, and the allocator does not grant
the memory that this asks for, which is that of the content and of one block. -/
inductive Refused [Allocator] : (stream : ByteArray) → Prop
  | intro {d : Descriptor} {n : UInt64} (dictionary : d.dictionary = none)
      (contentSize : d.contentSize = some n)
      (h : ¬(Allocator.grants n.toNat ∧ Allocator.grants d.blockMaximum.bytes))
      (rest : ByteArray) : Refused (d.encode ++ rest)

end EfiLoader.Lz4
