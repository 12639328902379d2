import EfiLoader.Log.Target
import EfiLoader.Text.Hex
import EfiLoader.Bytes

/-!
# EfiLoader.Zstd.Header

The header of a zstd frame: the magic number, a descriptor byte, a window
byte unless the frame is a single segment, an optional dictionary number and
an optional content size.  The descriptor byte alone fixes where each field
stands.
-/

namespace EfiLoader.Zstd

open Log Text

/-- The magic number of a frame. -/
def magic : UInt32 := 0xFD2FB528

/-! ## The descriptor byte -/

/-- The first byte after the magic number. -/
structure Descriptor where
  bits : UInt8
deriving DecidableEq

namespace Descriptor

/-- The content is one segment, which is its own window. -/
def singleSegment (d : Descriptor) : Bool := d.bits &&& 0x20 != 0

/-- A bit that is always clear. -/
def reserved (d : Descriptor) : Bool := d.bits &&& 0x08 != 0

/-- A checksum follows the last block. -/
def checksum (d : Descriptor) : Bool := d.bits &&& 0x04 != 0

/-- Bytes of the window field. -/
def windowWidth (d : Descriptor) : Nat := if d.singleSegment then 0 else 1

/-- Bytes of the dictionary number. -/
def dictionaryWidth (d : Descriptor) : Nat :=
  match (d.bits &&& 0x03).toNat with
  | 0 => 0
  | 1 => 1
  | 2 => 2
  | _ => 4

/-- Bytes of the content size. -/
def sizeWidth (d : Descriptor) : Nat :=
  match (d.bits >>> 6).toNat with
  | 0 => if d.singleSegment then 1 else 0
  | 1 => 2
  | 2 => 4
  | _ => 8

/-- Where the window field starts. -/
def windowOffset (_ : Descriptor) : Nat := 5

/-- Where the dictionary number starts. -/
def dictionaryOffset (d : Descriptor) : Nat := d.windowOffset + d.windowWidth

/-- Where the content size starts. -/
def sizeOffset (d : Descriptor) : Nat := d.dictionaryOffset + d.dictionaryWidth

/-- Bytes of the whole header. -/
def headerSize (d : Descriptor) : Nat := d.sizeOffset + d.sizeWidth

/-- The content size that a field of the descriptor's width stands for: the
two-byte form starts at 256. -/
def sizeOfField (d : Descriptor) (field : Nat) : Nat :=
  if d.sizeWidth = 2 then field + 256 else field

end Descriptor

/-! ## The declared content size -/

/-- Why a header has no usable content size. -/
inductive HeaderError where
  /-- The input is no zstd frame. -/
  | magic
  /-- The header is cut off. -/
  | truncated
  /-- The reserved bit is set. -/
  | reservedBit
  /-- The frame needs a dictionary. -/
  | dictionary (id : Nat)
  /-- The frame does not say how long its content is. -/
  | noContentSize
deriving DecidableEq

namespace HeaderError

/-- The status that decoding ends with. -/
def status : HeaderError → Status
  | magic | dictionary _ | noContentSize => Status.unsupported
  | truncated | reservedBit => Status.compromisedData

/-- The lines that report the error. -/
def report : HeaderError → List Entry
  | magic | truncated => []
  | reservedBit => [Component.zstd.error "ZSTD: reserved frame header bit set"]
  | dictionary id => [Component.zstd.error ("ZSTD: frame requires dictionary " ++ hex id)]
  | noContentSize => [Component.zstd.error "ZSTD: frame does not record its content size"]

instance : Fault HeaderError := ⟨status, report⟩

end HeaderError

/-- The `len`-byte number at offset `off` of a header. -/
def field (header : ByteArray) (off len : Nat) : Except HeaderError Nat :=
  match Bytes.le? header off len with
  | some n => .ok n
  | none => .error .truncated

/-- The content size that the header at the start of `bytes` declares. -/
def contentSize (bytes : ByteArray) : Except HeaderError Nat := do
  if Bytes.le? bytes 0 4 ≠ some magic.toNat then
    throw .magic
  let d : Descriptor := ⟨UInt8.ofNat (← field bytes 4 1)⟩
  if d.reserved then
    throw .reservedBit
  let id ← field bytes d.dictionaryOffset d.dictionaryWidth
  if id ≠ 0 then
    throw (.dictionary id)
  if d.sizeWidth = 0 then
    throw .noContentSize
  return d.sizeOfField (← field bytes d.sizeOffset d.sizeWidth)

end EfiLoader.Zstd
