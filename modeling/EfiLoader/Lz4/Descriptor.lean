import EfiLoader.Lz4.Error
import EfiLoader.Hash.Xxh32

/-!
# EfiLoader.Lz4.Descriptor

The frame header: the magic number, a byte of flags, a byte with the block
maximum, the optional content size and dictionary, and a checksum byte.
`encode` writes a header and `read` reads one; both are driven by the bit
positions stated here once.
-/

namespace EfiLoader.Lz4

open Hash

/-! ## Block maximum -/

/-- The four block maxima. -/
inductive BlockMaximum where
  | kib64
  | kib256
  | mib1
  | mib4
deriving DecidableEq

namespace BlockMaximum

/-- Most bytes of one block. -/
def bytes : BlockMaximum → Nat
  | kib64 => 65536
  | kib256 => 262144
  | mib1 => 1048576
  | mib4 => 4194304

/-- The number that stands for a block maximum. -/
def id : BlockMaximum → Nat
  | kib64 => 4
  | kib256 => 5
  | mib1 => 6
  | mib4 => 7

/-- The block maximum with a number. -/
def ofId? : Nat → Option BlockMaximum
  | 4 => some kib64
  | 5 => some kib256
  | 6 => some mib1
  | 7 => some mib4
  | _ => none

@[simp] theorem ofId?_id (m : BlockMaximum) : ofId? m.id = some m := by cases m <;> rfl

end BlockMaximum

/-! ## Descriptors -/

/-- What a frame header says. -/
structure Descriptor where
  independentBlocks : Bool
  blockChecksums : Bool
  contentChecksum : Bool
  blockMaximum : BlockMaximum
  contentSize : Option UInt64
  dictionary : Option UInt32
deriving DecidableEq

/-- The magic number of a frame. -/
def magic : UInt32 := 0x184D2204

namespace Descriptor

/-- The flag byte: version 1 in the top two bits, then one bit per option. -/
def flagByte (independentBlocks blockChecksums hasSize contentChecksum hasDictionary : Bool) :
    UInt8 :=
  UInt8.ofNat <|
    0x40 + (if independentBlocks then 0x20 else 0) + (if blockChecksums then 0x10 else 0) +
      (if hasSize then 0x08 else 0) + (if contentChecksum then 0x04 else 0) +
      (if hasDictionary then 0x01 else 0)

/-- The flag byte of a descriptor. -/
def flags (d : Descriptor) : UInt8 :=
  flagByte d.independentBlocks d.blockChecksums d.contentSize.isSome d.contentChecksum
    d.dictionary.isSome

/-- The byte with the block maximum. -/
def blockByte (d : Descriptor) : UInt8 := UInt8.ofNat (d.blockMaximum.id * 16)

/-- The field with the content size, if there is one. -/
def sizeField (d : Descriptor) : Option ByteArray := d.contentSize.map Bytes.ofU64

/-- The field with the dictionary, if there is one. -/
def dictionaryField (d : Descriptor) : Option ByteArray := d.dictionary.map Bytes.ofU32

/-- The bytes that the header checksum covers. -/
def fields (d : Descriptor) : ByteArray :=
  Bytes.concat
    [[d.flags, d.blockByte].toByteArray, d.sizeField.getD ByteArray.empty,
     d.dictionaryField.getD ByteArray.empty]

/-- The header checksum of the given fields: the second byte of their hash. -/
def checksum (fields : ByteArray) : UInt8 :=
  UInt8.ofNat (((Xxh32.hash fields >>> 8) &&& 0xFF).toNat)

/-- The header that says `d`. -/
def encode (d : Descriptor) : ByteArray :=
  Bytes.concat [Bytes.ofU32 magic, d.fields, [checksum d.fields].toByteArray]

/-! ## Reading -/

/-- Read the bytes of a field that is there if `present` is. -/
def readField (src : Source σ) (present : Bool) (n : Nat) :
    Reader σ FrameError (Option ByteArray) :=
  if present then some <$> Reader.bytes src .input n else pure none

/-- The block maximum that the first two bytes of a descriptor stand for, if
the version is 1 and no reserved bit is set. -/
def blockMaximumOf (flags block : UInt8) : Except FrameError BlockMaximum :=
  if flags &&& 0xC0 ≠ 0x40 then
    .error (.version (flags >>> 6).toNat)
  else if flags &&& 0x02 ≠ 0 ∨ block &&& 0x8F ≠ 0 then
    .error .reservedBits
  else
    match BlockMaximum.ofId? ((block >>> 4) &&& 0x07).toNat with
    | none => .error (.blockMaximum ((block >>> 4) &&& 0x07).toNat)
    | some blockMaximum => .ok blockMaximum

/-- The descriptor with the given flags and fields. -/
def ofFields (flags : UInt8) (blockMaximum : BlockMaximum) (size dictionary : Option ByteArray) :
    Descriptor where
  independentBlocks := flags &&& 0x20 ≠ 0
  blockChecksums := flags &&& 0x10 ≠ 0
  contentChecksum := flags &&& 0x04 ≠ 0
  blockMaximum
  contentSize := size.map fun bs => UInt64.ofNat (Bytes.leNat bs 0 8)
  dictionary := dictionary.map fun bs => UInt32.ofNat (Bytes.leNat bs 0 4)

/-- Read what follows the first two bytes `bits` of a descriptor. -/
def readFields (src : Source σ) (bits : ByteArray) (blockMaximum : BlockMaximum) :
    Reader σ FrameError Descriptor := do
  let flags := Bytes.byte bits 0
  let size ← readField src (flags &&& 0x08 ≠ 0) 8
  let dictionary ← readField src (flags &&& 0x01 ≠ 0) 4
  let found ← Reader.bytes src .input 1
  let expected := checksum <|
    Bytes.concat [bits, size.getD ByteArray.empty, dictionary.getD ByteArray.empty]
  if Bytes.byte found 0 ≠ expected then
    throw (.headerChecksum (Bytes.byte found 0) expected)
  return ofFields flags blockMaximum size dictionary

/-- Read a frame header. -/
def read (src : Source σ) : Reader σ FrameError Descriptor := do
  let found ← Reader.le src .input 4
  if found ≠ magic.toNat then
    throw .magic
  let bits ← Reader.bytes src .input 2
  match blockMaximumOf (Bytes.byte bits 0) (Bytes.byte bits 1) with
  | .error e => throw e
  | .ok blockMaximum => readFields src bits blockMaximum

/-- A number that may be absent, as log lines show it. -/
def optionText : Option Nat → String
  | none => "None"
  | some n => s!"Some({n})"

/-- A descriptor as log lines show it. -/
def text (d : Descriptor) : String :=
  "FrameDescriptor \x7b independent_blocks: " ++ toString d.independentBlocks ++
    ", block_checksums: " ++ toString d.blockChecksums ++
    ", content_checksum: " ++ toString d.contentChecksum ++
    ", block_max_size: " ++ toString d.blockMaximum.bytes ++
    ", content_size: " ++ optionText (d.contentSize.map UInt64.toNat) ++
    ", dict_id: " ++ optionText (d.dictionary.map UInt32.toNat) ++ " \x7d"

end Descriptor

end EfiLoader.Lz4
