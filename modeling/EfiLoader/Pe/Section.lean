import EfiLoader.Bytes
import EfiLoader.Pe.Layout

/-!
# EfiLoader.Pe.Section

Section headers: a name, a range of the image, a range of the file and flags.
-/

namespace EfiLoader.Pe

/-- What a section header says. -/
structure SectionHeader where
  /-- The name, up to the first NUL of its field. -/
  name : List UInt8
  virtualSize : Nat
  virtualAddress : Nat
  rawSize : Nat
  rawPointer : Nat
  flags : UInt32
deriving DecidableEq

namespace SectionHeader

/-- The section header at offset `off`. -/
def read (bytes : ByteArray) (off : Nat) : SectionHeader where
  name := (bytes.extract off (off + sectionNameSize)).data.toList.takeWhile (· != 0)
  virtualSize := Bytes.leNat bytes (off + 8) 4
  virtualAddress := Bytes.leNat bytes (off + 12) 4
  rawSize := Bytes.leNat bytes (off + 16) 4
  rawPointer := Bytes.leNat bytes (off + 20) 4
  flags := UInt32.ofNat (Bytes.leNat bytes (off + 36) 4)

/-- The name as text. -/
def nameText (s : SectionHeader) : String :=
  (String.fromUTF8? s.name.toByteArray).getD "<invalid>"

def discardable (s : SectionHeader) : Bool := s.flags &&& discardableBit != 0

def uninitialized (s : SectionHeader) : Bool := s.flags &&& uninitializedBit != 0

end SectionHeader

/-- The bytes of a section name. -/
def sectionName (name : String) : List UInt8 := name.toUTF8.data.toList

end EfiLoader.Pe
