import EfiLoader.Bytes

/-!
# EfiLoader.Lz4.Block

The block format: a block is a list of sequences, each a run of literals and
a match, and its last sequence has no match.  A match repeats bytes from a
distance back in what has been decoded so far, the history before the block
included; the repeated bytes may overlap the ones being written.
-/

namespace EfiLoader.Lz4.Block

/-! ## Sequences -/

/-- A match: how far back the repeated bytes start, and how many there are. -/
structure Match where
  offset : Nat
  length : Nat
deriving DecidableEq

/-- One sequence of a block. -/
structure Sequence where
  /-- Where the literals start in the block. -/
  start : Nat
  /-- Number of literals. -/
  literals : Nat
  /-- The match that follows; the last sequence has none. -/
  copy : Option Match
  /-- Where the next sequence starts in the block. -/
  next : Nat
deriving DecidableEq

/-- The sum of `acc` and the length bytes from `i` on, of which all but the
last are 255, and the index after them. -/
def extendLength (block : ByteArray) (acc i : Nat) : Option (Nat × Nat) :=
  if h : i < block.size then
    if block[i] = 255 then
      extendLength block (acc + 255) (i + 1)
    else
      some (acc + block[i].toNat, i + 1)
  else
    none
termination_by block.size - i

/-- A length whose first part is the token's half byte `nibble`; length bytes
follow at `i` if that is 15. -/
def readLength (block : ByteArray) (nibble i : Nat) : Option (Nat × Nat) :=
  if nibble = 15 then extendLength block 15 i else some (nibble, i)

/-- The match at `i`, with the token's half byte `nibble`, and the index after
it. -/
def readMatch (block : ByteArray) (nibble i : Nat) : Option (Match × Nat) :=
  match Bytes.le? block i 2, readLength block nibble (i + 2) with
  | some offset, some (length, next) => some (⟨offset, length + 4⟩, next)
  | _, _ => none

/-- The sequence at `i`. -/
def readSequence (block : ByteArray) (i : Nat) : Option Sequence :=
  if h : i < block.size then
    match readLength block (block[i].toNat / 16) (i + 1) with
    | none => none
    | some (literals, start) =>
      if start + literals < block.size then
        match readMatch block (block[i].toNat % 16) (start + literals) with
        | none => none
        | some (copy, next) => some ⟨start, literals, some copy, next⟩
      else if start + literals = block.size then
        some ⟨start, literals, none, block.size⟩
      else
        none
  else
    none

theorem lt_of_extendLength {block : ByteArray} {acc i n next : Nat}
    (h : extendLength block acc i = some (n, next)) : i < next := by
  induction acc, i using extendLength.induct block with
  | case1 acc i hi hb ih =>
    rw [extendLength, dif_pos hi, if_pos hb] at h
    exact Nat.lt_trans (Nat.lt_succ_self i) (ih h)
  | case2 acc i hi hb =>
    rw [extendLength, dif_pos hi, if_neg hb] at h
    simp only [Option.some.injEq, Prod.mk.injEq] at h
    omega
  | case3 acc i hi =>
    rw [extendLength, dif_neg hi] at h
    exact absurd h (by simp)

theorem le_of_readLength {block : ByteArray} {nibble i n next : Nat}
    (h : readLength block nibble i = some (n, next)) : i ≤ next := by
  unfold readLength at h
  split at h
  · exact Nat.le_of_lt (lt_of_extendLength h)
  · simp only [Option.some.injEq, Prod.mk.injEq] at h
    omega

theorem lt_of_readMatch {block : ByteArray} {nibble i next : Nat} {m : Match}
    (h : readMatch block nibble i = some (m, next)) : i < next := by
  unfold readMatch at h
  split at h
  · next hl =>
    have := le_of_readLength hl
    simp only [Option.some.injEq, Prod.mk.injEq] at h
    omega
  · exact absurd h (by simp)

/-- A sequence takes at least its token. -/
theorem lt_next_of_readSequence {block : ByteArray} {i : Nat} {s : Sequence}
    (h : readSequence block i = some s) : i < s.next ∧ i < block.size := by
  unfold readSequence at h
  split at h
  · next hi =>
    refine ⟨?_, hi⟩
    split at h
    · exact absurd h (by simp)
    · next hl =>
      have hlen := le_of_readLength hl
      split at h
      · split at h
        · exact absurd h (by simp)
        · next hm =>
          have := lt_of_readMatch hm
          simp only [Option.some.injEq] at h
          subst h
          simp only
          omega
      · split at h
        · simp only [Option.some.injEq] at h
          subst h
          exact hi
        · exact absurd h (by simp)
  · exact absurd h (by simp)

/-! ## Decoding -/

/-- `out` with the literals of a sequence. -/
def addLiterals (block out : ByteArray) (s : Sequence) : ByteArray :=
  out ++ block.extract s.start (s.start + s.literals)

/-- `out` with a match executed, if that stays within what is there and the
result has at most `limit` bytes. -/
def executeMatch (limit : Nat) (out : ByteArray) (m : Match) : Option ByteArray :=
  if m.offset = 0 ∨ out.size < m.offset ∨ limit < out.size + m.length then
    none
  else
    some (Bytes.copyBack out m.offset m.length)

/-- `out` with one sequence executed, if the result has at most `limit` bytes. -/
def execute (block : ByteArray) (limit : Nat) (out : ByteArray) (s : Sequence) :
    Option ByteArray :=
  if limit < out.size + s.literals then
    none
  else
    match s.copy with
    | none => some (addLiterals block out s)
    | some m => executeMatch limit (addLiterals block out s) m

/-- `out` with the sequences from `i` on executed. -/
def decodeFrom (block : ByteArray) (limit : Nat) (out : ByteArray) (i : Nat) :
    Option ByteArray :=
  match _h : readSequence block i with
  | none => none
  | some s =>
    match execute block limit out s with
    | none => none
    | some out => if s.copy.isNone then some out else decodeFrom block limit out s.next
termination_by block.size - i
decreasing_by
  have := lt_next_of_readSequence _h
  omega

/-- The content of a block: at most `room` bytes, decoded after `history`. -/
def decode (history : ByteArray) (room : Nat) (block : ByteArray) : Option ByteArray :=
  (decodeFrom block (history.size + room) history 0).map (Bytes.drop · history.size)

end EfiLoader.Lz4.Block
