import EfiLoader.Zstd.Fse

/-!
# EfiLoader.Zstd.Huffman

Huffman-coded literals.  A code is given by the weights of its symbols, the
last of which is left out because the weights have to fill a power of two;
the weights are written either as half bytes or with finite state entropy.
-/

namespace EfiLoader.Zstd.Huffman

open Bits

/-- One place of a decoding table: the symbol and the length of its code. -/
structure Code where
  symbol : UInt8
  bits : Nat
deriving Inhabited

/-- A decoding table, indexed by the next `maxBits` bits. -/
structure Table where
  maxBits : Nat
  codes : Array Code

/-- The longest code. -/
def maxCodeBits : Nat := 11

/-! ## Weights -/

/-- The length of a number in bits. -/
def bitLength (n : Nat) : Nat := if n = 0 then 0 else Nat.log2 n + 1

/-- What a weight contributes to the total. -/
def share (weight : Nat) : Nat := if weight = 0 then 0 else 1 <<< (weight - 1)

/-- The lengths of the codes and the longest of them, from the weights of all
symbols but the last. -/
def codeLengths (weights : List Nat) : Option (List Nat × Nat) :=
  if weights.any (maxCodeBits < ·) then
    none
  else
    let total := weights.foldr (fun w n => share w + n) 0
    let maxBits := bitLength total
    let left := (1 <<< maxBits) - total
    if total = 0 ∨ maxCodeBits < maxBits ∨ left ≠ 1 <<< Nat.log2 left then
      none
    else
      let all := weights ++ [bitLength left]
      some (all.map fun w => if w = 0 then 0 else maxBits + 1 - w, maxBits)

/-- The places of the symbols with codes of `bits` bits, in order. -/
def placesOf (lengths : List Nat) (maxBits bits : Nat) : List Code :=
  (lengths.zipIdx.filter fun p => p.1 == bits).flatMap fun p =>
    List.replicate (1 <<< (maxBits - bits)) ⟨UInt8.ofNat p.2, bits⟩

/-- The table for the given code lengths: longer codes come first. -/
def Table.ofLengths (lengths : List Nat) (maxBits : Nat) : Table :=
  ⟨maxBits,
    (((List.range maxBits).reverse.flatMap fun b => placesOf lengths maxBits (b + 1))).toArray⟩

/-- Weights written as half bytes. -/
def directWeights (bytes : ByteArray) (count : Nat) : List Nat :=
  (List.range count).map fun i =>
    let b := (Bytes.byte bytes (1 + i / 2)).toNat
    if i % 2 = 0 then b / 16 else b % 16

/-- Weights from two states that take turns, last one first, until the bits
run out; there are at most 255 before the last two. -/
def alternate (t : Fse.Table) :
    (fuel : Nat) → Fse.State → Fse.State → Backward → List Nat → Option (List Nat)
  | 0, _, _, _, _ => none
  | fuel + 1, s, other, r, done =>
    let done := s.symbol :: done
    let (s, r) := t.next s r
    if r.left < 0 then
      some (other.symbol :: done)
    else
      alternate t fuel other s r done

/-- Weights written with finite state entropy in `bytes`. -/
def codedWeights (bytes : ByteArray) (length : Nat) : Option (List Nat) :=
  match Fse.Table.read (Bytes.drop bytes 1) 6 256 with
  | none => none
  | some (t, used) =>
    if length < used then
      none
    else
      match Backward.ofStream? (bytes.extract (1 + used) (1 + length)) with
      | none => none
      | some r =>
        let (a, r) := t.start r
        let (b, r) := t.start r
        (alternate t 256 a b r []).map List.reverse

/-- The table described at the start of `bytes`, and the length of its
description. -/
def Table.read (bytes : ByteArray) : Option (Table × Nat) :=
  if bytes.size = 0 then
    none
  else
    let head := (Bytes.byte bytes 0).toNat
    let length := if head < 128 then head else (head - 127 + 1) / 2
    if bytes.size < 1 + length then
      none
    else
      let weights :=
        if head < 128 then codedWeights bytes length else some (directWeights bytes (head - 127))
      match weights.bind codeLengths with
      | none => none
      | some (lengths, maxBits) => some (Table.ofLengths lengths maxBits, 1 + length)

/-! ## Decoding -/

/-- Symbols from the code window `window` on, until all bits have been used.
Every symbol takes at least one bit, so `fuel` is the number of bits. -/
def decodeFrom (t : Table) : (fuel : Nat) → Nat → Backward → ByteArray → ByteArray × Int
  | 0, _, r, out => (out, r.left)
  | fuel + 1, window, r, out =>
    if r.left ≤ -(t.maxBits : Int) then
      (out, r.left)
    else
      let code := t.codes.getD window default
      let (n, r) := r.read code.bits
      decodeFrom t fuel ((window <<< code.bits) % (1 <<< t.maxBits) + n) r (out.push code.symbol)

/-- `out` with the symbols of one stream, and the number of bits left when
decoding stopped. -/
def decodeStream (t : Table) (stream : ByteArray) (out : ByteArray) : Option (ByteArray × Int) :=
  match Backward.ofStream? stream with
  | none => none
  | some r =>
    let (window, r) := r.read t.maxBits
    some (decodeFrom t (8 * stream.size + t.maxBits + 1) window r out)

end EfiLoader.Zstd.Huffman
