/-!
# EfiLoader.Pe.Layout

The numbers of the executable format: where the header fields stand, how
wide they are, and what their bits mean.  The optional header comes in two
widths that differ in the image base and in everything that follows the
subsystem.
-/

namespace EfiLoader.Pe

/-! ## Platforms -/

/-- The two widths of an image. -/
inductive Width where
  | bits32
  | bits64
deriving DecidableEq

/-- What an image has to be built for to be loaded. -/
structure Platform where
  machine : UInt16
  width : Width
deriving DecidableEq

/-- The machine number of 64-bit x86 processors. -/
def machineX64 : UInt16 := 0x8664

/-- The platform the loader runs on. -/
def Platform.native : Platform := ⟨machineX64, .bits64⟩

/-! ## The optional header -/

namespace Width

/-- Number of address bits. -/
def bits : Width → Nat
  | bits32 => 32
  | bits64 => 64

/-- The magic number of the optional header. -/
def magic : Width → Nat
  | bits32 => 0x10B
  | bits64 => 0x20B

/-- The width with a magic number. -/
def ofMagic? (n : Nat) : Option Width :=
  if n = magic bits32 then some bits32 else if n = magic bits64 then some bits64 else none

/-- Bytes of the optional header before the directories. -/
def fixedSize : Width → Nat
  | bits32 => 96
  | bits64 => 112

/-- Where the image base stands. -/
def imageBaseOffset : Width → Nat
  | bits32 => 28
  | bits64 => 24

/-- Bytes of the image base, and of the other addresses. -/
def addressSize : Width → Nat
  | bits32 => 4
  | bits64 => 8

/-- Where the number of directories stands. -/
def directoryCountOffset (w : Width) : Nat := w.fixedSize - 4

@[simp] theorem ofMagic?_magic (w : Width) : ofMagic? w.magic = some w := by cases w <;> rfl

end Width

/-- Where the fields stand that both widths share, from the start of the
optional header. -/
def entryPointOffset : Nat := 16
def sectionAlignmentOffset : Nat := 32
def fileAlignmentOffset : Nat := 36
def imageSizeOffset : Nat := 56
def headersSizeOffset : Nat := 60
def subsystemOffset : Nat := 68

/-! ## The headers before it -/

/-- Bytes of the stub header at the start of the file. -/
def stubSize : Nat := 64

/-- What the file starts with. -/
def stubMagic : Nat := 0x5A4D

/-- Where the stub header has the offset of the signature. -/
def signatureField : Nat := 0x3C

/-- What stands in front of the file header. -/
def signature : Nat := 0x4550

/-- Where the optional header starts, from the signature. -/
def optionalOffset : Nat := 24

/-! ## Characteristics of images -/

/-- Relocations have been removed. -/
def strippedBit : UInt16 := 0x0001

/-- Programs and libraries: the images that can be loaded. -/
def loadableBits : UInt16 := 0x2002

/-- Either mark of reversed byte order. -/
def reversedBits : UInt16 := 0x8080

/-- The subsystem of EFI applications. -/
def efiApplication : UInt16 := 10

/-! ## Directories and sections -/

/-- Most directories of an image. -/
def maxDirectories : Nat := 16

/-- Bytes of a directory entry. -/
def directorySize : Nat := 8

/-- The directory of resources. -/
def resourceIndex : Nat := 2

/-- The directory of base relocations. -/
def relocationIndex : Nat := 5

/-- Most sections of an image. -/
def maxSections : Nat := 96

/-- Bytes of a section header. -/
def sectionHeaderSize : Nat := 40

/-- Bytes of a section name. -/
def sectionNameSize : Nat := 8

/-- Sections that are memory without content. -/
def uninitializedBit : UInt32 := 0x00000080

/-- Sections that are not needed once the image runs. -/
def discardableBit : UInt32 := 0x02000000

end EfiLoader.Pe
