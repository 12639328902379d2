import EfiLoader.Bytes

/-!
# EfiLoader.Zstd.Bits

Bit streams.  Bit `i` of a byte array is bit `i % 8` of byte `i / 8`.  Table
descriptions are read forward from bit 0; coded symbols are read backward
from the highest set bit of the last byte, and a backward read past the
beginning is filled up with zero bits.
-/

namespace EfiLoader.Zstd.Bits

/-- The number in bits `pos` to `pos + n` of an array, lowest bit first. -/
def range (bytes : ByteArray) (pos n : Nat) : Nat :=
  (Bytes.leNat bytes (pos / 8) ((pos % 8 + n + 7) / 8) >>> (pos % 8)) % (1 <<< n)

/-! ## Forward -/

/-- A forward reader: the bytes and the position of the next bit. -/
structure Forward where
  bytes : ByteArray
  pos : Nat

/-- The next `n` bits, if there are as many. -/
def Forward.read? (r : Forward) (n : Nat) : Option (Nat × Forward) :=
  if r.pos + n ≤ 8 * r.bytes.size then
    some (range r.bytes r.pos n, { r with pos := r.pos + n })
  else
    none

/-- Number of bytes that have been touched. -/
def Forward.bytesRead (r : Forward) : Nat := (r.pos + 7) / 8

/-! ## Backward -/

/-- A backward reader: the bytes and the number of bits left, which is
negative once more bits have been read than there were. -/
structure Backward where
  bytes : ByteArray
  left : Int

/-- The reader of a stream, whose last byte ends with a set bit and zero
padding above it. -/
def Backward.ofStream? (bytes : ByteArray) : Option Backward :=
  if bytes.size = 0 then
    none
  else
    let last := (Bytes.byte bytes (bytes.size - 1)).toNat
    if last = 0 then none else some ⟨bytes, 8 * (bytes.size - 1) + Nat.log2 last⟩

/-- The next `n` bits, highest first. -/
def Backward.read (r : Backward) (n : Nat) : Nat × Backward :=
  let there := min n r.left.toNat
  let value := range r.bytes (r.left.toNat - there) there <<< (n - there)
  (value, { r with left := r.left - n })

end EfiLoader.Zstd.Bits
