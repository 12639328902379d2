import EfiLoader.Zstd.Header
import EfiLoader.Zstd.Block
import EfiLoader.Zstd.Decoding
import EfiLoader.Hash.Xxh64

/-!
# EfiLoader.Zstd.Blocks

A decoder that reads zstd frames block by block.  The last `window` bytes of
content are held back until the frame has ended, because later blocks may
still refer to them.
-/

namespace EfiLoader.Zstd.Blocks

open Hash

/-! ## Frame headers -/

/-- The largest window that is accepted. -/
def maxWindow : Nat := 104857600

/-- The window size that a window byte stands for. -/
def windowOfByte (b : Nat) : Nat :=
  let base := 1 <<< (10 + b / 8)
  base + base / 8 * (b % 8)

/-- What decoding needs of a frame header. -/
structure Start where
  window : Nat
  checksum : Bool

/-- Read the header of a frame. -/
def readStart : OptionT Decoding Start := do
  let found ← Decoding.le 4
  if found ≠ magic.toNat then
    failure
  let d : Descriptor := ⟨UInt8.ofNat (← Decoding.le 1)⟩
  let windowByte ← Decoding.le d.windowWidth
  let _ ← Decoding.take d.dictionaryWidth
  let size := d.sizeOfField (← Decoding.le d.sizeWidth)
  let window := if d.singleSegment then size else windowOfByte windowByte
  if maxWindow < window then
    failure
  return ⟨window, d.checksum⟩

/-! ## Blocks -/

/-- Most bytes of a block. -/
def maxBlock : Nat := 131072

/-- Content that has been decoded, and what the next block needs. -/
structure State where
  /-- All content so far. -/
  out : ByteArray := ByteArray.empty
  /-- Number of bytes that have been handed out and given up. -/
  drained : Nat := 0
  context : Block.Context := {}
  /-- Whether the last block has been decoded. -/
  finished : Bool := false
  /-- The checksum stored after the last block. -/
  stored : Option UInt32 := none

/-- Number of bytes that can be handed out. -/
def State.available (s : State) (window : Nat) : Nat :=
  if s.finished then s.out.size - s.drained else s.out.size - s.drained - window

/-- Read and decode the body of a block: bytes as they are, one byte that is
repeated, or a compressed block. -/
def readBody (kind size : Nat) (s : State) : OptionT Decoding State := do
  if kind = 0 then
    let bytes ← Decoding.take size
    return { s with out := s.out ++ bytes }
  else if kind = 1 then
    let byte ← Decoding.le 1
    return { s with out := s.out ++ Bytes.replicate size (UInt8.ofNat byte) }
  else
    let block ← Decoding.take size
    match Block.decode s.context s.drained s.out block with
    | none => failure
    | some (out, context) => return { s with out, context }

/-- Read what follows the last block. -/
def readEnd (start : Start) (s : State) : OptionT Decoding State := do
  if start.checksum then
    let stored ← Decoding.le 4
    return { s with finished := true, stored := some (UInt32.ofNat stored) }
  else
    return { s with finished := true }

/-- Read and decode one block, and what follows the last one. -/
def readBlock (start : Start) (s : State) : OptionT Decoding State := do
  let header ← Decoding.le 3
  let kind := header / 2 % 4
  let size := header / 8
  if kind = 3 ∨ maxBlock < size then
    failure
  let s ← readBody kind size s
  if header % 2 = 0 then
    return s
  else
    readEnd start s

/-- More blocks than an input can have: every block takes at least one byte, and
the bytes are counted in 64 bits. -/
def mostBlocks : Nat := UInt64.size

/-- Decode blocks until `need` bytes can be handed out or the frame has ended. -/
def readBlocks (start : Start) (need : Nat) : (fuel : Nat) → State → OptionT Decoding State
  | 0, _ => failure
  | fuel + 1, s => do
    if s.finished ∨ need ≤ s.available start.window then
      return s
    readBlocks start need fuel (← readBlock start s)

/-! ## The decoder -/

/-- A frame that is being decoded. -/
structure Session where
  start : Start
  state : State := {}

namespace Session

/-- Number of bytes that are handed out of those that can be, if `n` are asked for. -/
def count (d : Session) (n : Nat) : Nat := min n (d.state.available d.start.window)

/-- The bytes that are handed out then. -/
def piece (d : Session) (n : Nat) : ByteArray :=
  d.state.out.extract d.state.drained (d.state.drained + d.count n)

/-- The session after that. -/
def after (d : Session) (n : Nat) : Session :=
  { d with state := { d.state with drained := d.state.drained + d.count n } }

/-- Read blocks until as many bytes as are asked for can be handed out. -/
def read (n : Nat) (d : Session) : OptionT Decoding (ByteArray × Session) := do
  let s ← readBlocks d.start n mostBlocks d.state
  let d := { d with state := s }
  return (d.piece n, d.after n)

/-- The checksum that has been read, and that of what has been handed out. -/
def checksums (d : Session) : Checksums where
  stored := d.state.stored
  computed := some (Xxh64.hash (d.state.out.extract 0 d.state.drained)).toUInt32

end Session

/-- The decoder that reads frames block by block. -/
@[reducible]
def decoder : Decoder where
  Session := Session
  start := return { start := ← readStart }
  read := Session.read
  checksums := Session.checksums

end EfiLoader.Zstd.Blocks
