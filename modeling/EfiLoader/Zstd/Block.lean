import EfiLoader.Zstd.Literals
import EfiLoader.Zstd.Sequences

/-!
# EfiLoader.Zstd.Block

Compressed blocks: literals and sequences, executed against the content
before them.  Tables and the last three offsets carry over from block to
block.
-/

namespace EfiLoader.Zstd.Block

open Sequences (Sequence Codings)

/-- The three offsets used last, the latest first. -/
structure Offsets where
  first : Nat
  second : Nat
  third : Nat
deriving DecidableEq

/-- What carries over from one block to the next. -/
structure Context where
  huffman : Option Huffman.Table := none
  codings : Codings := {}
  offsets : Offsets := ⟨1, 4, 8⟩

/-! ## Offsets -/

/-- The offset that a coded offset stands for, and the offsets used last after
it.  Values up to 3 repeat one of those; without literals before the match
they are shifted by one, and the last of them is the latest offset less 1. -/
def Offsets.resolve (h : Offsets) (value literals : Nat) : Nat × Offsets :=
  let index := if literals = 0 then value + 1 else value
  if 3 < value then
    (value - 3, ⟨value - 3, h.first, h.second⟩)
  else if index = 1 then
    (h.first, h)
  else if index = 2 then
    (h.second, ⟨h.second, h.first, h.third⟩)
  else if index = 3 then
    (h.third, ⟨h.third, h.first, h.second⟩)
  else
    (h.first - 1, ⟨h.first - 1, h.first, h.second⟩)

/-! ## Executing sequences -/

/-- `out` with the sequences executed and the rest of the literals added.
Matches may start at `floor` or later, and `used` literals are used up. -/
def execute (floor : Nat) (literals : ByteArray) :
    List Sequence → Nat → Offsets → ByteArray → Option (ByteArray × Offsets)
  | [], used, offsets, out => some (out ++ Bytes.drop literals used, offsets)
  | s :: rest, used, offsets, out =>
    if literals.size < used + s.literals then
      none
    else
      let out := out ++ literals.extract used (used + s.literals)
      let (offset, offsets) := offsets.resolve s.offset s.literals
      if offset = 0 ∨ out.size < floor + offset then
        none
      else
        execute floor literals rest (used + s.literals) offsets
          (Bytes.copyBack out offset s.length)

/-- `out` with the content of a compressed block. -/
def decode (ctx : Context) (floor : Nat) (out : ByteArray) (block : ByteArray) :
    Option (ByteArray × Context) := do
  let header ← Literals.readHeader block
  let section_ ← Bytes.slice? block header.headerSize header.length
  let (literals, huffman) ← Literals.decode header section_ ctx.huffman
  let rest := Bytes.drop block (header.headerSize + header.length)
  let (sequences, codings) ← Sequences.decode rest ctx.codings
  let (out, offsets) ← execute floor literals sequences 0 ctx.offsets out
  return (out, { huffman, codings, offsets })

end EfiLoader.Zstd.Block
