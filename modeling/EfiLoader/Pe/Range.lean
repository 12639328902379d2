import EfiLoader.Bytes

/-!
# EfiLoader.Pe.Range

Ranges of an image that are checked against its size.
-/

namespace EfiLoader.Pe

/-- A range of bytes: `start` is the first and `stop` the one after the last. -/
structure Range where
  start : Nat
  stop : Nat
deriving DecidableEq

namespace Range

/-- The `len` bytes at address `rva` of an image of `size` bytes, if they all
belong to it. -/
def inside? (size rva len : Nat) : Option Range :=
  if rva + len ≤ size then some ⟨rva, rva + len⟩ else none

/-- `inside?` for lengths that fit 32 bits; others never lie in an image. -/
def checked? (size rva len : Nat) : Option Range :=
  if len < 0x100000000 then inside? size rva len else none

/-- The bytes of the range. -/
def slice (r : Range) (image : ByteArray) : ByteArray := image.extract r.start r.stop

end Range

/-- The `len` bytes at address `rva` of an image. -/
def bytesAt? (image : ByteArray) (rva len : Nat) : Option ByteArray :=
  (Range.checked? image.size rva len).map (·.slice image)

end EfiLoader.Pe
