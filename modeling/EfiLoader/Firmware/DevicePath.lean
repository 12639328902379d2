import EfiLoader.Bytes

/-!
# EfiLoader.Firmware.DevicePath

Device paths.  A path is a run of nodes, each with a type, a subtype and its
length, up to an end node.  The loader makes two: the range of memory that an
image occupies, and the vendor path on which kernels look for their initrd.
-/

namespace EfiLoader.DevicePath

/-! ## Nodes -/

def hardwareType : UInt8 := 0x01
def memoryMappedSubtype : UInt8 := 0x03
def mediaType : UInt8 := 0x04
def vendorSubtype : UInt8 := 0x03
def endType : UInt8 := 0x7F
def endSubtype : UInt8 := 0xFF

/-- Bytes of the part that all nodes share. -/
def nodeHeaderSize : Nat := 4

/-- A node with a type, a subtype and content. -/
def node (type subtype : UInt8) (content : ByteArray) : ByteArray :=
  [type, subtype].toByteArray ++ Bytes.le 2 (nodeHeaderSize + content.size) ++ content

/-- The node that ends a path. -/
def endNode : ByteArray := node endType endSubtype ByteArray.empty

/-- Whether a node ends a path. -/
def isEnd (bytes : ByteArray) : Bool := Bytes.byte bytes 0 == endType

/-! ## The initrd path -/

/-- The vendor number of the path on which kernels look for their initrd. -/
def initrdVendor : ByteArray :=
  [0x27, 0xe4, 0x68, 0x55, 0xfc, 0x68, 0x3d, 0x4f,
   0xac, 0x74, 0xca, 0x55, 0x52, 0x31, 0xcc, 0x68].toByteArray

/-- The path on which kernels look for their initrd. -/
def initrd : ByteArray := node mediaType vendorSubtype initrdVendor ++ endNode

/-! ## Ranges of memory -/

/-- A range of memory; the address of the last byte belongs to it. -/
structure MemoryMapped where
  memoryType : UInt32
  start : UInt64
  last : UInt64
deriving DecidableEq

/-- Bytes of a node with a range of memory. -/
def memoryMappedSize : Nat := 24

/-- The path of a range of memory. -/
def memoryMapped (m : MemoryMapped) : ByteArray :=
  node hardwareType memoryMappedSubtype
    (Bytes.ofU32 m.memoryType ++ Bytes.ofU64 m.start ++ Bytes.ofU64 m.last) ++ endNode

/-- The range of memory at the start of a path, if it has one. -/
def MemoryMapped.read? (path : ByteArray) : Option MemoryMapped :=
  if Bytes.byte path 0 = hardwareType ∧ Bytes.byte path 1 = memoryMappedSubtype ∧
      memoryMappedSize ≤ Bytes.leNat path 2 2 then
    some
      { memoryType := UInt32.ofNat (Bytes.leNat path 4 4)
        start := UInt64.ofNat (Bytes.leNat path 8 8)
        last := UInt64.ofNat (Bytes.leNat path 16 8) }
  else
    none

end EfiLoader.DevicePath
