import EfiLoader.Pe.Headers
import EfiLoader.Proofs.Except

/-!
# EfiLoader.Proofs.Pe.Smallest

An image with nothing in it that an image can do without: headers without
directories and one section of four bytes, the last one of which is not in the
file.
-/

namespace EfiLoader.Pe

/-- The fields of the smallest image, each a width and a number. -/
def smallestFields : List (Nat × Nat) :=
  -- the stub
  [(2, 0x5A4D), (58, 0), (4, 64),
  -- the signature and the file header
    (4, 0x4550), (2, 0x8664), (2, 1), (12, 0), (2, 112), (2, 0x2002),
  -- the optional header
    (2, 0x20B), (14, 0), (4, 240), (4, 0), (8, 0x10000), (4, 16), (4, 16), (16, 0), (4, 256),
    (4, 240), (4, 0), (2, 10), (38, 0), (4, 0),
  -- the section header
    (8, 0x747865742E), (4, 4), (4, 240), (4, 4), (4, 240), (12, 0), (4, 0x60000020),
  -- the content
    (3, 0xC3C3C3)]

/-- The smallest image. -/
def smallestImage : ByteArray :=
  ⟨⟨smallestFields.flatMap fun (width, n) => Bytes.leList width n⟩⟩

/-- The headers of the smallest image. -/
def smallestHeaders : Headers where
  machine := 0x8664
  width := .bits64
  imageBase := 0x10000
  entryPoint := 240
  imageSize := 256
  headersSize := 240
  sectionCount := 1
  sectionAlignment := 16
  fileAlignment := 16
  subsystem := 10
  directoryCount := 0
  sectionTable := 200
  relocationDirectory := none
  resourceDirectory := none

theorem parse_smallestImage : Headers.parse smallestImage .native = .ok smallestHeaders :=
  toOption_eq_some_iff.mp (by decide +kernel)

/-- The section of the smallest image. -/
def smallestSection : SectionHeader :=
  ⟨[0x2E, 0x74, 0x65, 0x78, 0x74], 4, 240, 4, 240, 0x60000020⟩

theorem sectionHeaders_smallest :
    smallestHeaders.sectionHeaders smallestImage = [some smallestSection] := by
  decide +kernel

end EfiLoader.Pe
