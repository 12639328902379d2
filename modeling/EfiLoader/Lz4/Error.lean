import EfiLoader.Input
import EfiLoader.Text.Hex

/-!
# EfiLoader.Lz4.Error

What can be wrong with an LZ4 frame.
-/

namespace EfiLoader.Lz4

open Log Text

/-- What can be wrong with an LZ4 frame. -/
inductive FrameError where
  /-- The frame could not be read. -/
  | input (e : ReadError)
  /-- The input is no LZ4 frame. -/
  | magic
  /-- The frame has a version other than 1. -/
  | version (found : Nat)
  /-- A reserved bit of the descriptor is set. -/
  | reservedBits
  /-- No block maximum has this number. -/
  | blockMaximum (id : Nat)
  /-- The header checksum is not the one of the descriptor. -/
  | headerChecksum (found expected : UInt8)
  /-- The frame needs a dictionary. -/
  | dictionary (id : UInt32)
  /-- The frame does not say how long its content is. -/
  | noContentSize
  /-- There is no memory for the content. -/
  | memory (e : Buffer.Error)
  /-- There is no memory for a block as it is written. -/
  | blockMemory
  /-- A block is longer than the frame's block maximum. -/
  | blockLength (length : Nat)
  /-- A block does not have the checksum stored for it. -/
  | blockChecksum
  /-- A stored block runs past the declared content size. -/
  | overflow
  /-- A compressed block does not decode into the room that is left. -/
  | malformedBlock
  /-- The content does not have the checksum stored for it. -/
  | contentChecksum (actual expected : UInt32)
  /-- The content is shorter than declared. -/
  | contentSize (actual declared : Nat)
deriving DecidableEq

namespace FrameError

/-- The status that decoding ends with. -/
def status : FrameError → Status
  | input e => e.status
  | magic | version _ | dictionary _ | noContentSize => Status.unsupported
  | memory e => Fault.status e
  | blockMemory => Status.outOfResources
  | reservedBits | blockMaximum _ | headerChecksum _ _ | blockLength _ | blockChecksum | overflow
  | malformedBlock | contentChecksum _ _ | contentSize _ _ => Status.compromisedData

/-- The lines that report the error. -/
def report : FrameError → List Entry
  | input e => e.report
  | magic | blockMemory | overflow => []
  | version found => [Component.lz4.error s!"LZ4: unsupported frame version {found}"]
  | reservedBits => [Component.lz4.error "LZ4: reserved frame descriptor bits set"]
  | blockMaximum id => [Component.lz4.error s!"LZ4: invalid block maximum size id {id}"]
  | headerChecksum found expected =>
    [Component.lz4.error ("LZ4: frame header checksum mismatch (" ++ hexPadded 2 found.toNat ++
      " != " ++ hexPadded 2 expected.toNat ++ ")")]
  | dictionary id => [Component.lz4.error ("LZ4: frame requires dictionary " ++ hex id.toNat)]
  | noContentSize => [Component.lz4.error "LZ4: frame does not record its content size"]
  | memory e => Fault.report e
  | blockLength length =>
    [Component.lz4.error s!"LZ4: block of {length} bytes exceeds the frame maximum"]
  | blockChecksum => [Component.lz4.error "LZ4: block checksum mismatch"]
  | malformedBlock => [Component.lz4.error "LZ4: block decoding failed"]
  | contentChecksum actual expected =>
    [Component.lz4.error ("LZ4: content checksum mismatch (" ++ hexPadded 8 actual.toNat ++
      " != " ++ hexPadded 8 expected.toNat ++ ")")]
  | contentSize actual declared =>
    [Component.lz4.error s!"LZ4: frame ended after {actual} of {declared} bytes"]

instance : Fault FrameError := ⟨status, report⟩

end FrameError

end EfiLoader.Lz4
