import EfiLoader.Bytes

/-!
# EfiLoader.Hash.Xxh32

The 32-bit xxHash with seed 0: four lanes over 16-byte stripes, then the
rest in words and single bytes, then a final mix.  The bytes may come in
pieces.
-/

namespace EfiLoader.Hash.Xxh32

def prime₁ : UInt32 := 0x9E3779B1
def prime₂ : UInt32 := 0x85EBCA77
def prime₃ : UInt32 := 0xC2B2AE3D
def prime₄ : UInt32 := 0x27D4EB2F
def prime₅ : UInt32 := 0x165667B1

/-- `x` rotated left by `r` bits. -/
def rotate (x r : UInt32) : UInt32 := (x <<< r) ||| (x >>> (32 - r))

/-- The little-endian word at offset `i`. -/
def word (data : ByteArray) (i : Nat) : UInt32 := UInt32.ofNat (Bytes.leNat data i 4)

/-- The four lanes. -/
structure Lanes where
  a : UInt32
  b : UInt32
  c : UInt32
  d : UInt32

/-- The lanes before the first stripe. -/
def Lanes.initial : Lanes := ⟨prime₁ + prime₂, prime₂, 0, 0 - prime₁⟩

/-- One word taken into a lane. -/
def round (lane input : UInt32) : UInt32 := rotate (lane + input * prime₂) 13 * prime₁

/-- The lanes after the stripe at offset `i`. -/
def Lanes.stripe (data : ByteArray) (i : Nat) (l : Lanes) : Lanes where
  a := round l.a (word data i)
  b := round l.b (word data (i + 4))
  c := round l.c (word data (i + 8))
  d := round l.d (word data (i + 12))

/-- The lanes after `n` stripes from offset `i` on. -/
def Lanes.absorb (data : ByteArray) (n i : Nat) (l : Lanes) : Lanes :=
  n.fold (fun k _ l => l.stripe data (i + 16 * k)) l

/-- The lanes merged into one word. -/
def Lanes.merge (l : Lanes) : UInt32 :=
  rotate l.a 1 + rotate l.b 7 + rotate l.c 12 + rotate l.d 18

/-- `h` after `n` words from offset `i` on. -/
def absorbWords (data : ByteArray) : Nat → Nat → UInt32 → UInt32
  | 0, _, h => h
  | n + 1, i, h => absorbWords data n (i + 4) (rotate (h + word data i * prime₃) 17 * prime₄)

/-- `h` after `n` bytes from offset `i` on. -/
def absorbBytes (data : ByteArray) : Nat → Nat → UInt32 → UInt32
  | 0, _, h => h
  | n + 1, i, h =>
    absorbBytes data n (i + 1) (rotate (h + (Bytes.byte data i).toUInt32 * prime₅) 11 * prime₁)

/-- The final mix. -/
def avalanche (h : UInt32) : UInt32 :=
  let h := (h ^^^ (h >>> 15)) * prime₂
  let h := (h ^^^ (h >>> 13)) * prime₃
  h ^^^ (h >>> 16)

/-! ## Hashing in pieces -/

/-- A hash in the making. -/
structure Hasher where
  /-- The lanes after all stripes so far. -/
  lanes : Lanes := Lanes.initial
  /-- The bytes after the last stripe. -/
  pending : ByteArray := ByteArray.empty
  /-- Number of bytes so far. -/
  size : Nat := 0

/-- Take in more bytes. -/
def Hasher.write (h : Hasher) (data : ByteArray) : Hasher :=
  let bytes := h.pending ++ data
  let stripes := bytes.size / 16
  { lanes := h.lanes.absorb bytes stripes 0
    pending := Bytes.drop bytes (stripes * 16)
    size := h.size + data.size }

/-- The hash of the bytes so far. -/
def Hasher.finish (h : Hasher) : UInt32 :=
  let start := if h.size < 16 then prime₅ else h.lanes.merge
  let words := h.pending.size / 4
  let mixed := absorbWords h.pending words 0 (start + UInt32.ofNat h.size)
  avalanche (absorbBytes h.pending (h.pending.size % 4) (words * 4) mixed)

/-- The hash of `data`. -/
def hash (data : ByteArray) : UInt32 := (Hasher.write {} data).finish

end EfiLoader.Hash.Xxh32
