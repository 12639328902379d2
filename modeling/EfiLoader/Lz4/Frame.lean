import EfiLoader.Lz4.Descriptor
import EfiLoader.Lz4.Block

/-!
# EfiLoader.Lz4.Frame

LZ4 frames: a header, blocks that each start with a size word, a zero word,
and a checksum of the content.  A linked block continues the content before
it, of which it may use the last 64 KiB; an independent block starts afresh.
-/

namespace EfiLoader.Lz4

open Hash Log

/-- Bytes of earlier content that a linked block may use. -/
def historyLimit : Nat := 65536

namespace Frame

/-- The history that a block after the content `out` is decoded with. -/
def history (d : Descriptor) (out : ByteArray) : ByteArray :=
  if d.independentBlocks then ByteArray.empty else Bytes.drop out (out.size - historyLimit)

/-- The content of a block, with at most `room` bytes. -/
def blockContent (d : Descriptor) (out : ByteArray) (room : Nat) (stored : Bool)
    (payload : ByteArray) : Except FrameError ByteArray :=
  if stored then
    if payload.size ≤ room then .ok payload else .error .overflow
  else
    match Block.decode (history d out) room payload with
    | some content => .ok content
    | none => .error .malformedBlock

/-- Read the hash that is stored for data with the hash `actual`, if one is. -/
def readHash (src : Source σ) (present : Bool) (actual : UInt32)
    (mismatch : UInt32 → FrameError) : Reader σ FrameError Unit := do
  if present then
    let stored ← Reader.le src .input 4
    if actual.toNat ≠ stored then
      throw (mismatch (UInt32.ofNat stored))

/-- Read the rest of a block whose size word is `word`, after the content
`out` of `size` bytes in all; the answer is the content of the block. -/
def readBlock (src : Source σ) (d : Descriptor) (size : Nat) (out : ByteArray) (word : Nat) :
    Reader σ FrameError ByteArray := do
  let length := word % 0x80000000
  if d.blockMaximum.bytes < length then
    throw (.blockLength length)
  let payload ← Reader.bytes src .input length
  readHash src d.blockChecksums (Xxh32.hash payload) fun _ => .blockChecksum
  match blockContent d out (size - out.size) (0x80000000 ≤ word) payload with
  | .ok content => return content
  | .error e => throw e

/-- Content that has been decoded, and the hash of it as far as one is asked
for. -/
structure Progress where
  out : ByteArray := ByteArray.empty
  hasher : Xxh32.Hasher := {}

/-- The progress after a block with the given content. -/
def Progress.add (p : Progress) (d : Descriptor) (content : ByteArray) : Progress where
  out := p.out ++ content
  hasher := if d.contentChecksum then p.hasher.write content else p.hasher

/-- Read blocks up to the zero word.  Every block takes at least one byte of
the input, so `fuel` is the number of bytes the input may have. -/
def readBlocks (src : Source σ) (d : Descriptor) (size : Nat) :
    (fuel : Nat) → Progress → Reader σ FrameError Progress
  | 0, _ => throw (.input .exhausted)
  | fuel + 1, p => do
    let word ← Reader.le src .input 4
    if word = 0 then
      return p
    else
      let content ← readBlock src d size p.out word
      readBlocks src d size fuel (p.add d content)

/-- Read everything after the header of a frame with `size` bytes of content. -/
def readContent (src : Source σ) (d : Descriptor) (size : Nat) :
    Reader σ FrameError ByteArray := do
  let inp ← get
  let p ← readBlocks src d size (inp.budget + 1) {}
  let actual := p.hasher.finish
  readHash src d.contentChecksum actual (.contentChecksum actual)
  if p.out.size ≠ size then
    throw (.contentSize p.out.size size)
  return p.out

/-- The content size of a frame that can be decoded: there has to be memory for
the content and for one block as it is written. -/
def contentSize [Allocator] (d : Descriptor) : Except FrameError Nat :=
  match d.dictionary, d.contentSize with
  | some id, _ => .error (.dictionary id)
  | none, none => .error .noContentSize
  | none, some size =>
    match Buffer.allocate size.toNat with
    | .error e => .error (.memory e)
    | .ok _ =>
      if Allocator.grants d.blockMaximum.bytes then .ok size.toNat else .error .blockMemory

/-- Read everything after the header `d` of a frame. -/
def readBody [Allocator] (src : Source σ) (d : Descriptor) : Reader σ FrameError ByteArray :=
  match contentSize d with
  | .error e => throw e
  | .ok size => readContent src d size

/-- Decode the frame at the start of an input. -/
def decode [Allocator] (src : Source σ) (inp : Input σ) :
    Logged (Except FrameError ByteArray × Input σ) := do
  match (Descriptor.read src).run.run inp with
  | (.error e, inp) => return (.error e, inp)
  | (.ok d, inp) =>
    note (Component.lz4.debug ("LZ4: " ++ d.text))
    return (readBody src d).run.run inp

end Frame

end EfiLoader.Lz4
