import EfiLoader.Zstd.Fse

/-!
# EfiLoader.Zstd.Sequences

The sequences section of a compressed block: how many literals to copy, and
which earlier bytes to repeat after them.  Lengths and offsets are coded
with one table each, which a block may describe, reuse, take from the
standard or replace by a single symbol.
-/

namespace EfiLoader.Zstd.Sequences

open Bits

/-! ## Codes -/

/-- The smallest value and the number of extra bits of each literal length
code. -/
def literalCodes : Array (Nat × Nat) :=
  ((List.range 16).map fun n => (n, 0)).toArray ++
    #[(16, 1), (18, 1), (20, 1), (22, 1), (24, 2), (28, 2), (32, 3), (40, 3), (48, 4), (64, 6),
      (128, 7), (256, 8), (512, 9), (1024, 10), (2048, 11), (4096, 12), (8192, 13), (16384, 14),
      (32768, 15), (65536, 16)]

/-- The smallest value and the number of extra bits of each match length
code. -/
def matchCodes : Array (Nat × Nat) :=
  ((List.range 32).map fun n => (n + 3, 0)).toArray ++
    #[(35, 1), (37, 1), (39, 1), (41, 1), (43, 2), (47, 2), (51, 3), (59, 3), (67, 4), (83, 4),
      (99, 5), (131, 7), (259, 8), (515, 9), (1027, 10), (2051, 11), (4099, 12), (8195, 13),
      (16387, 14), (32771, 15), (65539, 16)]

/-- The largest offset code. -/
def maxOffsetCode : Nat := 31

/-! ## Tables -/

/-- Where the symbols of one kind come from. -/
inductive Coding where
  | table (t : Fse.Table)
  | single (symbol : Nat)

/-- What fixes the coding of one kind of symbol. -/
structure Kind where
  /-- Largest log of a described table. -/
  maxLog : Nat
  /-- Number of symbols. -/
  symbols : Nat
  /-- The standard table. -/
  standard : Fse.Table

/-- The literal lengths. -/
def literalKind : Kind where
  maxLog := 9
  symbols := 36
  standard := Fse.Table.ofProbabilities 6
    [4, 3, 2, 2, 2, 2, 2, 2, 2, 2, 2, 2, 2, 1, 1, 1, 2, 2, 2, 2, 2, 2, 2, 2, 2, 3, 2, 1, 1, 1, 1, 1,
     -1, -1, -1, -1]

/-- The offsets. -/
def offsetKind : Kind where
  maxLog := 8
  symbols := 32
  standard := Fse.Table.ofProbabilities 5
    [1, 1, 1, 1, 1, 1, 2, 2, 2, 1, 1, 1, 1, 1, 1, 1, 1, 1, 1, 1, 1, 1, 1, 1, -1, -1, -1, -1, -1]

/-- The match lengths. -/
def matchKind : Kind where
  maxLog := 9
  symbols := 53
  standard := Fse.Table.ofProbabilities 6
    [1, 4, 3, 2, 2, 2, 2, 2, 2, 1, 1, 1, 1, 1, 1, 1, 1, 1, 1, 1, 1, 1, 1, 1, 1, 1, 1, 1, 1, 1, 1, 1,
     1, 1, 1, 1, 1, 1, 1, 1, 1, 1, 1, 1, 1, 1, -1, -1, -1, -1, -1, -1, -1]

/-- The coding that mode `mode` selects, from the bytes of its description and
the coding of an earlier block, and the length of the description. -/
def Kind.coding (k : Kind) (mode : Nat) (bytes : ByteArray) (earlier : Option Coding) :
    Option (Coding × Nat) :=
  match mode with
  | 0 => some (.table k.standard, 0)
  | 1 =>
    match Bytes.get? bytes 0 with
    | some b => if b.toNat < k.symbols then some (.single b.toNat, 1) else none
    | none => none
  | 2 => (Fse.Table.read bytes k.maxLog k.symbols).map fun p => (.table p.1, p.2)
  | _ => earlier.map fun c => (c, 0)

/-- The codings of the three kinds. -/
structure Codings where
  literals : Option Coding := none
  offsets : Option Coding := none
  matches_ : Option Coding := none

/-! ## The section header -/

/-- The number of sequences at the start of a section, and its length. -/
def readCount (bytes : ByteArray) : Option (Nat × Nat) :=
  match Bytes.get? bytes 0 with
  | none => none
  | some b =>
    if b.toNat < 128 then
      some (b.toNat, 1)
    else if b.toNat < 255 then
      (Bytes.get? bytes 1).map fun c => ((b.toNat - 128) * 256 + c.toNat, 2)
    else
      (Bytes.le? bytes 1 2).map fun n => (n + 0x7F00, 3)

/-! ## Sequences -/

/-- One sequence: literals to copy, bytes to repeat, and the coded offset. -/
structure Sequence where
  literals : Nat
  length : Nat
  offset : Nat

/-- Where decoding stands in one coding. -/
inductive Position where
  | at (t : Fse.Table) (s : Fse.State)
  | fixed (symbol : Nat)

/-- The first position in a coding. -/
def Coding.start (c : Coding) (r : Backward) : Position × Backward :=
  match c with
  | .table t => let (s, r) := t.start r; (.at t s, r)
  | .single symbol => (.fixed symbol, r)

/-- The symbol at a position. -/
def Position.symbol : Position → Nat
  | .at _ s => s.symbol
  | .fixed symbol => symbol

/-- The position after `p`. -/
def Position.next (p : Position) (r : Backward) : Position × Backward :=
  match p with
  | .at t s => let (s, r) := t.next s r; (.at t s, r)
  | .fixed symbol => (.fixed symbol, r)

/-- `count` sequences, last one first; the bits have to suffice for each of
them and be used up by the last. -/
def decodeFrom : (count : Nat) → Position → Position → Position → Backward → List Sequence →
    Option (List Sequence)
  | 0, _, _, _, r, done => if r.left = 0 then some done else none
  | count + 1, l, o, m, r, done =>
    match literalCodes[l.symbol]?, matchCodes[m.symbol]? with
    | some (literalBase, literalBits), some (matchBase, matchBits) =>
      if maxOffsetCode < o.symbol then
        none
      else
        let (offset, r) := r.read o.symbol
        let (length, r) := r.read matchBits
        let (literals, r) := r.read literalBits
        let sequence : Sequence :=
          ⟨literalBase + literals, matchBase + length, (1 <<< o.symbol) + offset⟩
        if count = 0 then
          if r.left < 0 then none else decodeFrom 0 l o m r (sequence :: done)
        else
          let (l, r) := l.next r
          let (m, r) := m.next r
          let (o, r) := o.next r
          if r.left < 0 then none else decodeFrom count l o m r (sequence :: done)
    | _, _ => none

/-- The sequences of a stream coded with `codings`. -/
def decodeStream (literals offsets matches_ : Coding) (count : Nat) (stream : ByteArray) :
    Option (List Sequence) :=
  match Backward.ofStream? stream with
  | none => none
  | some r =>
    let (l, r) := literals.start r
    let (o, r) := offsets.start r
    let (m, r) := matches_.start r
    (decodeFrom count l o m r []).map List.reverse

/-- The sequences of a section and the codings that later blocks may reuse. -/
def decode (bytes : ByteArray) (earlier : Codings) : Option (List Sequence × Codings) := do
  let (count, used) ← readCount bytes
  if count = 0 ∧ used = 1 then
    if bytes.size = 1 then some ([], earlier) else none
  else
    let modes ← Bytes.get? bytes used
    let modes := modes.toNat
    if count = 0 then
      if bytes.size = used + 1 then some ([], earlier) else none
    else
      let rest := Bytes.drop bytes (used + 1)
      let (literals, n) ← literalKind.coding (modes / 64) rest earlier.literals
      let rest := Bytes.drop rest n
      let (offsets, n) ← offsetKind.coding (modes / 16 % 4) rest earlier.offsets
      let rest := Bytes.drop rest n
      let (matches_, n) ← matchKind.coding (modes / 4 % 4) rest earlier.matches_
      let sequences ← decodeStream literals offsets matches_ count (Bytes.drop rest n)
      some (sequences, ⟨some literals, some offsets, some matches_⟩)

end EfiLoader.Zstd.Sequences
