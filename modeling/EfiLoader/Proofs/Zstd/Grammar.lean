import EfiLoader.Proofs.Zstd.Header
import EfiLoader.Zstd.Blocks

/-!
# EfiLoader.Proofs.Zstd.Grammar

The grammar of frames with a declared size.  A frame is a header, blocks of
which the last is marked, and a checksum if the header says so; a block is a
word that says its kind and size, and a payload:

```
frame = header block* last [checksum]
block = word payload
```

`Contents reach blocks context out out'` says that blocks continue the content
`out` to `out'`, where a block after `n` bytes of content may refer to those
from `reach n` on, and `IsFrame n frame out stored` that a frame which declares
`n` bytes has the content `out` and the checksum `stored`.  What a compressed
block adds to the content is what `Block.decode` says.
-/

namespace EfiLoader.Zstd

/-! ## compressed blocks -/

namespace Block

/-- Sequences add to what is there. -/
theorem exists_of_execute {floor used : Nat} {literals out out' : ByteArray}
    {sequences : List Sequences.Sequence} {offsets offsets' : Offsets}
    (h : execute floor literals sequences used offsets out = some (out', offsets')) :
    ∃ more, out' = out ++ more := by
  induction sequences generalizing used offsets out with
  | nil =>
      simp only [execute, Option.some.injEq, Prod.mk.injEq] at h
      exact ⟨_, h.1.symm⟩
  | cons s rest ih =>
      simp only [execute] at h
      by_cases hshort : literals.size < used + s.literals
      · rw [if_pos hshort] at h
        cases h
      · rw [if_neg hshort] at h
        split at h
        · cases h
        · obtain ⟨more, hout⟩ := ih h
          obtain ⟨copied, hcopied⟩ := Bytes.exists_copyBack
            (out ++ literals.extract used (used + s.literals))
            (offsets.resolve s.offset s.literals).1 s.length
          rw [hcopied, ByteArray.append_assoc, ByteArray.append_assoc] at hout
          exact ⟨_, hout⟩

/-- Sequences that do not go back behind `floor` may go back further. -/
theorem execute_of_le {floor lower used : Nat} {literals out : ByteArray}
    {sequences : List Sequences.Sequence} {offsets : Offsets} {r : ByteArray × Offsets}
    (h : execute floor literals sequences used offsets out = some r) (hle : lower ≤ floor) :
    execute lower literals sequences used offsets out = some r := by
  induction sequences generalizing used offsets out with
  | nil => exact h
  | cons s rest ih =>
      simp only [execute] at h ⊢
      by_cases hshort : literals.size < used + s.literals
      · rw [if_pos hshort] at h
        cases h
      · rw [if_neg hshort] at h ⊢
        split at h
        · cases h
        · next hreach =>
          rw [if_neg (by omega)]
          exact ih h

/-- A block adds to what is there. -/
theorem exists_of_decode {context context' : Context} {floor : Nat} {out out' block : ByteArray}
    (h : decode context floor out block = some (out', context')) : ∃ more, out' = out ++ more := by
  simp only [decode, Option.bind_eq_bind, Option.bind_eq_some_iff] at h
  obtain ⟨header, -, section_, -, ⟨literals, huffman⟩, -, ⟨sequences, codings⟩, -, ⟨out'', offsets⟩,
    hexecute, hresult⟩ := h
  cases hresult
  exact exists_of_execute hexecute

/-- A block that does not go back behind `floor` may go back further. -/
theorem decode_of_le {context : Context} {floor lower : Nat} {out block : ByteArray}
    {r : ByteArray × Context} (h : decode context floor out block = some r) (hle : lower ≤ floor) :
    decode context lower out block = some r := by
  simp only [decode, Option.bind_eq_bind, Option.bind_eq_some_iff] at h ⊢
  obtain ⟨header, hheader, section_, hsection, literals, hliterals, sequences, hsequences, added,
    hexecute, hresult⟩ := h
  exact ⟨header, hheader, section_, hsection, literals, hliterals, sequences, hsequences, added,
    execute_of_le hexecute hle, hresult⟩

end Block

/-! ## blocks -/

/-- A block as it is written. -/
inductive RawBlock where
  /-- The content as it is. -/
  | stored (content : ByteArray)
  /-- One byte that is repeated. -/
  | repeated (count : Nat) (byte : UInt8)
  /-- A compressed block. -/
  | compressed (payload : ByteArray)

namespace RawBlock

/-- The number of the kind. -/
def kind : RawBlock → Nat
  | stored _ => 0
  | repeated _ _ => 1
  | compressed _ => 2

/-- The size that the word of the block says. -/
def size : RawBlock → Nat
  | stored content => content.size
  | repeated count _ => count
  | compressed payload => payload.size

def payload : RawBlock → ByteArray
  | stored content => content
  | repeated _ byte => [byte].toByteArray
  | compressed payload => payload

/-- The word in front of the block, which marks the last one. -/
def word (b : RawBlock) (last : Bool) : Nat := last.toNat + 2 * b.kind + 8 * b.size

/-- The block as it is written. -/
def encode (b : RawBlock) (last : Bool) : ByteArray := Bytes.le 3 (b.word last) ++ b.payload

/-- The content after the block, which may refer to earlier content from
`floor` on, and what the next block needs. -/
def decode (b : RawBlock) (floor : Nat) (context : Block.Context) (out : ByteArray) :
    Option (ByteArray × Block.Context) :=
  match b with
  | stored content => some (out ++ content, context)
  | repeated count byte => some (out ++ Bytes.replicate count byte, context)
  | compressed payload => Block.decode context floor out payload

variable {b : RawBlock}

theorem kind_lt (b : RawBlock) : b.kind < 3 := by
  cases b <;> simp [kind]

/-- What the word says. -/
theorem word_fields (b : RawBlock) (last : Bool) :
    b.word last / 2 % 4 = b.kind ∧ b.word last / 8 = b.size ∧
      (b.word last % 2 = 0 ↔ last = false) := by
  have hkind := b.kind_lt
  cases last with
  | false => simp [word]; omega
  | true => simp [word]; omega

theorem word_lt (h : b.size ≤ Blocks.maxBlock) (last : Bool) : b.word last < 256 ^ 3 := by
  have hkind := b.kind_lt
  have hlast : last.toNat ≤ 1 := last.toNat_le
  unfold Blocks.maxBlock at h
  unfold word
  omega

theorem size_encode_pos (b : RawBlock) (last : Bool) : 0 < (b.encode last).size := by
  rw [encode, ByteArray.size_append, Bytes.size_le]
  omega

section

variable {floor lower : Nat} {context : Block.Context} {out : ByteArray}
  {r : ByteArray × Block.Context}

/-- A block adds to what is there. -/
theorem exists_of_decode (h : b.decode floor context out = some r) : ∃ more, r.1 = out ++ more := by
  cases b with
  | stored content =>
      cases h
      exact ⟨content, rfl⟩
  | repeated count byte =>
      cases h
      exact ⟨Bytes.replicate count byte, rfl⟩
  | compressed payload => exact Block.exists_of_decode h

/-- A block that does not go back behind `floor` may go back further. -/
theorem decode_of_le (h : b.decode floor context out = some r) (hle : lower ≤ floor) :
    b.decode lower context out = some r := by
  cases b with
  | stored content => exact h
  | repeated count byte => exact h
  | compressed payload => exact Block.decode_of_le h hle

end

end RawBlock

/-- Blocks that continue a content. -/
inductive Contents (reach : Nat → Nat) :
    List RawBlock → Block.Context → ByteArray → ByteArray → Prop
  | nil (context : Block.Context) (out : ByteArray) : Contents reach [] context out out
  | cons {b : RawBlock} {blocks : List RawBlock} {context : Block.Context} {out out' : ByteArray}
      {r : ByteArray × Block.Context} (size : b.size ≤ Blocks.maxBlock)
      (decodes : b.decode (reach out.size) context out = some r)
      (rest : Contents reach blocks r.2 r.1 out') : Contents reach (b :: blocks) context out out'

/-- Blocks as they are written; the last one is marked. -/
def encodeBlocks : List RawBlock → ByteArray
  | [] => ByteArray.empty
  | [b] => b.encode true
  | b :: blocks => b.encode false ++ encodeBlocks blocks

theorem encodeBlocks_cons (b : RawBlock) {blocks : List RawBlock} (h : blocks ≠ []) :
    encodeBlocks (b :: blocks) = b.encode false ++ encodeBlocks blocks := by
  cases blocks with
  | nil => exact absurd rfl h
  | cons c blocks => rfl

namespace Contents

variable {reach : Nat → Nat} {blocks : List RawBlock} {context : Block.Context}
  {out out' : ByteArray}

/-- Blocks add to what is there. -/
theorem exists_append (h : Contents reach blocks context out out') :
    ∃ more, out' = out ++ more := by
  induction h with
  | nil context out => exact ⟨ByteArray.empty, ByteArray.append_empty.symm⟩
  | cons size decodes rest ih =>
      obtain ⟨first, hfirst⟩ := RawBlock.exists_of_decode decodes
      obtain ⟨more, hmore⟩ := ih
      rw [hfirst, ByteArray.append_assoc] at hmore
      exact ⟨_, hmore⟩

end Contents

/-! ## frames -/

/-- The bytes of a checksum where one is stored. -/
def checksumField : Option UInt32 → ByteArray
  | some sum => Bytes.ofU32 sum
  | none => ByteArray.empty

/-- The window of a frame with `n` bytes of content. -/
def Form.window (f : Form) (window : UInt8) (n : Nat) : Nat :=
  if f.singleSegment then n else Blocks.windowOfByte window.toNat

/-- A frame that declares `n` bytes has the content `out`, and stores a checksum
if its header says so.  Its blocks refer to nothing behind the window. -/
inductive IsFrame (n : Nat) : (frame out : ByteArray) → (stored : Option UInt32) → Prop
  | intro {f : Form} {window : UInt8} {blocks : List RawBlock} {out : ByteArray}
      {stored : Option UInt32} (holds : f.Holds n)
      (window_le : f.window window n ≤ Blocks.maxWindow)
      (nonempty : blocks ≠ [])
      (contents : Contents (fun m => m - f.window window n) blocks {} ByteArray.empty out)
      (present : stored.isSome = f.checksum) :
      IsFrame n (f.encode window n ++ (encodeBlocks blocks ++ checksumField stored)) out stored

end EfiLoader.Zstd
