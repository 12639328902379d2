import EfiLoader.Bytes

/-!
# EfiLoader.Hash.Xxh64

The 64-bit xxHash with seed 0: four lanes over 32-byte stripes, then the
rest in long words, words and single bytes, then a final mix.
-/

namespace EfiLoader.Hash.Xxh64

def prime₁ : UInt64 := 0x9E3779B185EBCA87
def prime₂ : UInt64 := 0xC2B2AE3D27D4EB4F
def prime₃ : UInt64 := 0x165667B19E3779F9
def prime₄ : UInt64 := 0x85EBCA77C2B2AE63
def prime₅ : UInt64 := 0x27D4EB2F165667C5

/-- `x` rotated left by `r` bits. -/
def rotate (x r : UInt64) : UInt64 := (x <<< r) ||| (x >>> (64 - r))

/-- The little-endian long word at offset `i`. -/
def long (data : ByteArray) (i : Nat) : UInt64 := UInt64.ofNat (Bytes.leNat data i 8)

/-- The little-endian word at offset `i`. -/
def word (data : ByteArray) (i : Nat) : UInt64 := UInt64.ofNat (Bytes.leNat data i 4)

/-- The four lanes. -/
structure Lanes where
  a : UInt64
  b : UInt64
  c : UInt64
  d : UInt64

/-- The lanes before the first stripe. -/
def Lanes.initial : Lanes := ⟨prime₁ + prime₂, prime₂, 0, 0 - prime₁⟩

/-- One long word taken into a lane. -/
def round (lane input : UInt64) : UInt64 := rotate (lane + input * prime₂) 31 * prime₁

/-- The lanes after `n` stripes from offset `i` on. -/
def Lanes.absorb (data : ByteArray) : Nat → Nat → Lanes → Lanes
  | 0, _, l => l
  | n + 1, i, l =>
    absorb data n (i + 32)
      ⟨round l.a (long data i), round l.b (long data (i + 8)), round l.c (long data (i + 16)),
       round l.d (long data (i + 24))⟩

/-- One lane folded into the merged value. -/
def mergeLane (h lane : UInt64) : UInt64 := (h ^^^ round 0 lane) * prime₁ + prime₄

/-- The lanes merged into one long word. -/
def Lanes.merge (l : Lanes) : UInt64 :=
  let h := rotate l.a 1 + rotate l.b 7 + rotate l.c 12 + rotate l.d 18
  mergeLane (mergeLane (mergeLane (mergeLane h l.a) l.b) l.c) l.d

/-- `h` after `n` long words from offset `i` on. -/
def absorbLongs (data : ByteArray) : Nat → Nat → UInt64 → UInt64
  | 0, _, h => h
  | n + 1, i, h =>
    absorbLongs data n (i + 8) (rotate (h ^^^ round 0 (long data i)) 27 * prime₁ + prime₄)

/-- `h` after `n` words from offset `i` on. -/
def absorbWords (data : ByteArray) : Nat → Nat → UInt64 → UInt64
  | 0, _, h => h
  | n + 1, i, h =>
    absorbWords data n (i + 4) (rotate (h ^^^ (word data i * prime₁)) 23 * prime₂ + prime₃)

/-- `h` after `n` bytes from offset `i` on. -/
def absorbBytes (data : ByteArray) : Nat → Nat → UInt64 → UInt64
  | 0, _, h => h
  | n + 1, i, h =>
    absorbBytes data n (i + 1)
      (rotate (h ^^^ ((Bytes.byte data i).toUInt64 * prime₅)) 11 * prime₁)

/-- The final mix. -/
def avalanche (h : UInt64) : UInt64 :=
  let h := (h ^^^ (h >>> 33)) * prime₂
  let h := (h ^^^ (h >>> 29)) * prime₃
  h ^^^ (h >>> 32)

/-- The hash of `data`. -/
def hash (data : ByteArray) : UInt64 :=
  let stripes := data.size / 32
  let start := if stripes = 0 then prime₅ else (Lanes.initial.absorb data stripes 0).merge
  let longs := (data.size % 32) / 8
  let h := absorbLongs data longs (stripes * 32) (start + UInt64.ofNat data.size)
  let words := (data.size % 8) / 4
  let h := absorbWords data words (stripes * 32 + longs * 8) h
  avalanche (absorbBytes data (data.size % 4) (stripes * 32 + longs * 8 + words * 4) h)

end EfiLoader.Hash.Xxh64
