/-!
# EfiLoader.Hash.Fnv

The 64-bit FNV-1a hash.
-/

namespace EfiLoader.Hash.Fnv

/-- The hash of no bytes. -/
def start : UInt64 := 0xcbf29ce484222325

/-- The hash of one more byte. -/
def step (h : UInt64) (b : UInt8) : UInt64 := (h ^^^ b.toUInt64) * 0x100000001b3

/-- The hash of an array. -/
def hash (bs : ByteArray) : UInt64 := bs.foldl step start

end EfiLoader.Hash.Fnv
