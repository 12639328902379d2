import EfiLoader.Lz4.Frame
import EfiLoader.Proofs.Bytes

/-!
# EfiLoader.Proofs.Lz4.Sequences

The grammar of blocks.  A block is a list of sequences; a sequence is a token,
literals and a match, and the last one has no match:

```
sequence = token [length] literals offset [length]
last     = token [length] literals
```

A token has half a byte for either length.  A half byte of 15 is followed by
length bytes, of which all but the last are 255.

* `readLength_sound`, `readLength_append` — lengths are read as they are written;
* `readSequence_sound`, `readSequence_of_step`, `readSequence_of_last` — and so
  are sequences.
-/

namespace EfiLoader.Lz4.Block

/-! ## lengths -/

/-- The bytes of a length: 255 as often as it goes in, and what is left. -/
def extension (n : Nat) : ByteArray :=
  if n < 255 then [UInt8.ofNat n].toByteArray else [255].toByteArray ++ extension (n - 255)

/-- The length bytes of a length, beyond what its half byte says. -/
def lengthBytes (n : Nat) : ByteArray :=
  if n < 15 then ByteArray.empty else extension (n - 15)

/-- The token of two half bytes. -/
def token (high low : Nat) : ByteArray := [UInt8.ofNat (high * 16 + low)].toByteArray

/-- Length bytes that are read are those of a length. -/
theorem extendLength_sound {block : ByteArray} {acc i n next : Nat}
    (h : extendLength block acc i = some (n, next)) :
    acc ≤ n ∧ Bytes.drop block i = extension (n - acc) ++ Bytes.drop block next := by
  induction acc, i using extendLength.induct block with
  | case1 acc i hi hb ih =>
      rw [extendLength, dif_pos hi, if_pos hb] at h
      obtain ⟨hle, hdrop⟩ := ih h
      have hbyte : Bytes.byte block i = 255 := (Bytes.byte_of_lt hi).trans hb
      rw [extension, if_neg (by omega), Bytes.drop_of_lt hi, hbyte, hdrop, ByteArray.append_assoc,
        Nat.sub_sub]
      exact ⟨by omega, rfl⟩
  | case2 acc i hi hb =>
      rw [extendLength, dif_pos hi, if_neg hb] at h
      simp only [Option.some.injEq, Prod.mk.injEq] at h
      obtain ⟨rfl, rfl⟩ := h
      have hlt : block[i].toNat < 255 := by
        have := block[i].toNat_lt
        have hne : block[i].toNat ≠ 255 := fun h => hb (UInt8.toNat_inj.mp h)
        omega
      rw [Nat.add_sub_cancel_left, extension, if_pos hlt, UInt8.ofNat_toNat, Bytes.drop_of_lt hi,
        Bytes.byte_of_lt hi]
      exact ⟨by omega, rfl⟩
  | case3 acc i hi =>
      rw [extendLength, dif_neg hi] at h
      cases h

/-- A byte that stands first is there. -/
theorem byte_of_drop_eq {block rest : ByteArray} {b : UInt8} {i : Nat}
    (h : Bytes.drop block i = [b].toByteArray ++ rest) :
    i < block.size ∧ Bytes.byte block i = b ∧ Bytes.drop block (i + 1) = rest := by
  have hone : [b].toByteArray.size = 1 := List.size_toByteArray
  have hsize := congrArg ByteArray.size h
  rw [Bytes.size_drop, ByteArray.size_append, hone] at hsize
  refine ⟨by omega, ?_, ?_⟩
  · have hfirst : Bytes.byte (Bytes.drop block i) 0 = b := by
      rw [h, Bytes.byte_append_left (by omega), Bytes.byte_singleton]
    rw [← hfirst, Bytes.byte_drop, Nat.add_zero]
  · rw [← Bytes.drop_of_drop_eq h, hone]

theorem size_extension (n : Nat) : (extension n).size = n / 255 + 1 := by
  induction n using Nat.strongRecOn with
  | _ n ih =>
    rw [extension]
    by_cases hlast : n < 255
    · rw [if_pos hlast, List.size_toByteArray, List.length_singleton]
      omega
    · rw [if_neg hlast, ByteArray.size_append, List.size_toByteArray, List.length_singleton,
        ih (n - 255) (by omega)]
      omega

/-- The length bytes of a length are read. -/
theorem extendLength_append {block rest : ByteArray} {m i : Nat} (acc : Nat)
    (h : Bytes.drop block i = extension m ++ rest) :
    extendLength block acc i = some (acc + m, i + (extension m).size) := by
  rw [size_extension]
  induction m using Nat.strongRecOn generalizing acc i with
  | _ m ih =>
    rw [extension] at h
    by_cases hlast : m < 255
    · rw [if_pos hlast] at h
      obtain ⟨hi, hbyte, -⟩ := byte_of_drop_eq h
      rw [Bytes.byte_of_lt hi] at hbyte
      have hnumber : block[i].toNat = m := by
        rw [hbyte, UInt8.toNat_ofNat']
        omega
      have hne : block[i] ≠ 255 := by
        intro heq
        rw [heq] at hnumber
        exact absurd hnumber (Nat.ne_of_gt hlast)
      rw [extendLength, dif_pos hi, if_neg hne, hnumber, Nat.div_eq_of_lt hlast]
    · rw [if_neg hlast, ByteArray.append_assoc] at h
      obtain ⟨hi, hbyte, hrest⟩ := byte_of_drop_eq h
      rw [Bytes.byte_of_lt hi] at hbyte
      have hlength : acc + 255 + (m - 255) = acc + m := by omega
      have hnext : i + 1 + ((m - 255) / 255 + 1) = i + (m / 255 + 1) := by omega
      rw [extendLength, dif_pos hi, if_pos hbyte, ih (m - 255) (by omega) (acc + 255) hrest,
        hlength, hnext]

/-- A length that is read is as it is written. -/
theorem readLength_sound {block : ByteArray} {nibble i n next : Nat} (hnibble : nibble < 16)
    (h : readLength block nibble i = some (n, next)) :
    nibble = min n 15 ∧ Bytes.drop block i = lengthBytes n ++ Bytes.drop block next := by
  unfold readLength at h
  split at h
  · next hlong =>
    obtain ⟨hle, hdrop⟩ := extendLength_sound h
    rw [lengthBytes, if_neg (by omega)]
    exact ⟨by omega, hdrop⟩
  · next hshort =>
    simp only [Option.some.injEq, Prod.mk.injEq] at h
    obtain ⟨rfl, rfl⟩ := h
    rw [lengthBytes, if_pos (by omega), ByteArray.empty_append]
    exact ⟨by omega, rfl⟩

/-- A length that is written is read. -/
theorem readLength_append {block rest : ByteArray} {n i : Nat}
    (h : Bytes.drop block i = lengthBytes n ++ rest) :
    readLength block (min n 15) i = some (n, i + (lengthBytes n).size) := by
  rw [lengthBytes] at h ⊢
  unfold readLength
  by_cases hshort : n < 15
  · rw [if_neg (by omega), if_pos hshort, Nat.min_eq_left (by omega)]
    rfl
  · rw [if_neg hshort] at h
    rw [if_pos (by omega), if_neg hshort, extendLength_append 15 h, Nat.add_sub_cancel' (by omega)]

/-! ## sequences -/

/-- A sequence with a match as it is written. -/
def encodeStep (literals : ByteArray) (m : Match) : ByteArray :=
  token (min literals.size 15) (min (m.length - 4) 15) ++
    (lengthBytes literals.size ++ (literals ++
      (Bytes.le 2 m.offset ++ lengthBytes (m.length - 4))))

/-- A last sequence as it is written; the second half byte of its token is
not used. -/
def encodeLast (literals : ByteArray) (unused : Nat) : ByteArray :=
  token (min literals.size 15) unused ++ (lengthBytes literals.size ++ literals)

/-- A token is made up of its half bytes. -/
theorem token_eq (b : UInt8) : token (b.toNat / 16) (b.toNat % 16) = [b].toByteArray := by
  have hnumber : b.toNat / 16 * 16 + b.toNat % 16 = b.toNat := by omega
  rw [token, hnumber, UInt8.ofNat_toNat]

/-- A token that stands first is there, with its half bytes. -/
theorem token_of_drop_eq {block rest : ByteArray} {high low i : Nat} (hhigh : high < 16)
    (hlow : low < 16) (h : Bytes.drop block i = token high low ++ rest) :
    ∃ hi : i < block.size, block[i].toNat / 16 = high ∧ block[i].toNat % 16 = low ∧
      Bytes.drop block (i + 1) = rest := by
  obtain ⟨hi, hbyte, hrest⟩ := byte_of_drop_eq h
  rw [Bytes.byte_of_lt hi] at hbyte
  have hnumber : block[i].toNat = high * 16 + low := by
    rw [hbyte, UInt8.toNat_ofNat']
    omega
  exact ⟨hi, by omega, by omega, hrest⟩

/-- A match that is read is as it is written. -/
theorem readMatch_sound {block : ByteArray} {nibble i next : Nat} {m : Match}
    (hnibble : nibble < 16) (h : readMatch block nibble i = some (m, next)) :
    m.offset < 65536 ∧ 4 ≤ m.length ∧ nibble = min (m.length - 4) 15 ∧
      Bytes.drop block i =
        Bytes.le 2 m.offset ++ (lengthBytes (m.length - 4) ++ Bytes.drop block next) := by
  unfold readMatch at h
  split at h
  · next offset length next' hoffset hlength =>
    cases h
    rw [Bytes.le?] at hoffset
    split at hoffset
    · next hfit =>
      cases hoffset
      obtain ⟨hhalf, hdrop⟩ := readLength_sound hnibble hlength
      have htwo : Bytes.drop block i = Bytes.le 2 (Bytes.leNat block i 2) ++
          Bytes.drop block (i + 2) := by
        rw [Bytes.le_leNat block hfit, Bytes.drop, Bytes.drop,
          ← ByteArray.extract_eq_extract_append_extract (i + 2) (by omega) (by omega)]
      rw [htwo, hdrop, Nat.add_sub_cancel]
      exact ⟨Bytes.leNat_lt block i 2, Nat.le_add_left 4 length, hhalf, rfl⟩
    · cases hoffset
  · cases h

/-- A match that is written is read. -/
theorem readMatch_append {block rest : ByteArray} {i : Nat} {m : Match} (hoffset : m.offset < 65536)
    (hlength : 4 ≤ m.length)
    (h : Bytes.drop block i = Bytes.le 2 m.offset ++ (lengthBytes (m.length - 4) ++ rest)) :
    ∃ next, readMatch block (min (m.length - 4) 15) i = some (m, next) ∧
      Bytes.drop block next = rest := by
  have hsize := congrArg ByteArray.size h
  rw [Bytes.size_drop, ByteArray.size_append, Bytes.size_le] at hsize
  have hread : Bytes.le? block i 2 = some m.offset := by
    have hnumber := @Bytes.leNat_le_append 2 _ hoffset (lengthBytes (m.length - 4) ++ rest)
    rw [← h, Bytes.leNat_drop, Nat.add_zero] at hnumber
    rw [Bytes.le?, if_pos (by omega), hnumber]
  have hnext := Bytes.drop_of_drop_eq h
  rw [Bytes.size_le] at hnext
  have hback : m.length - 4 + 4 = m.length := Nat.sub_add_cancel hlength
  refine ⟨i + 2 + (lengthBytes (m.length - 4)).size, ?_, Bytes.drop_of_drop_eq hnext⟩
  rw [readMatch, hread, readLength_append hnext]
  simp only [hback]

/-- The literals that the sequence has in the block. -/
def Sequence.literalBytes (s : Sequence) (block : ByteArray) : ByteArray :=
  block.extract s.start (s.start + s.literals)

/-- A sequence that is read is as it is written. -/
theorem readSequence_sound {block : ByteArray} {i : Nat} {s : Sequence}
    (h : readSequence block i = some s) :
    s.start + s.literals ≤ block.size ∧
      match s.copy with
      | some m => m.offset < 65536 ∧ 4 ≤ m.length ∧ Bytes.drop block i =
          encodeStep (s.literalBytes block) m ++ Bytes.drop block s.next
      | none => ∃ unused < 16, Bytes.drop block i = encodeLast (s.literalBytes block) unused := by
  unfold readSequence at h
  split at h
  · next hi =>
    have htoken : Bytes.drop block i = token (block[i].toNat / 16) (block[i].toNat % 16) ++
        Bytes.drop block (i + 1) := by
      rw [token_eq, Bytes.drop_of_lt hi, Bytes.byte_of_lt hi]
    have hlow : block[i].toNat % 16 < 16 := Nat.mod_lt _ (by omega)
    split at h
    · cases h
    · next literals start hlength =>
      have hhigh : block[i].toNat / 16 < 16 := by
        have := block[i].toNat_lt
        omega
      obtain ⟨hhalf, hdrop⟩ := readLength_sound hhigh hlength
      split at h
      · next hmore =>
        split at h
        · cases h
        · next m next hmatch =>
          obtain ⟨hoffset, hlong, hhalf', hdrop'⟩ := readMatch_sound hlow hmatch
          cases h
          have hsize : (block.extract start (start + literals)).size = literals := by
            rw [ByteArray.size_extract]
            omega
          have hliterals : Bytes.drop block start =
              block.extract start (start + literals) ++ Bytes.drop block (start + literals) :=
            ByteArray.extract_eq_extract_append_extract _ (by omega) (by omega)
          refine ⟨Nat.le_of_lt hmore, hoffset, hlong, ?_⟩
          rw [htoken, hdrop, hliterals, hdrop', hhalf, hhalf', encodeStep, Sequence.literalBytes,
            hsize]
          simp only [ByteArray.append_assoc]
      · split at h
        · next hend =>
          cases h
          have hsize : (block.extract start (start + literals)).size = literals := by
            rw [ByteArray.size_extract]
            omega
          refine ⟨Nat.le_of_eq hend, block[i].toNat % 16, hlow, ?_⟩
          rw [htoken, hdrop, hhalf, encodeLast, Sequence.literalBytes, hsize, Bytes.drop, hend]
        · cases h
  · cases h

/-- A sequence with a match that is written is read. -/
theorem readSequence_of_step {block literals rest : ByteArray} {i : Nat} {m : Match}
    (hoffset : m.offset < 65536) (hlength : 4 ≤ m.length)
    (h : Bytes.drop block i = encodeStep literals m ++ rest) :
    ∃ s, readSequence block i = some s ∧ s.copy = some m ∧ s.literalBytes block = literals ∧
      s.literals = literals.size ∧ Bytes.drop block s.next = rest := by
  rw [encodeStep] at h
  simp only [ByteArray.append_assoc] at h
  obtain ⟨hi, hhigh, hlow, hdrop⟩ := token_of_drop_eq (by omega) (by omega) h
  have hread := readLength_append hdrop
  have hstart := Bytes.drop_of_drop_eq hdrop
  generalize i + 1 + (lengthBytes literals.size).size = start at hread hstart
  have hnext := Bytes.drop_of_drop_eq hstart
  obtain ⟨next, hmatch, hrest⟩ := readMatch_append hoffset hlength hnext
  have hmore : start + literals.size < block.size := by
    have hsize := congrArg ByteArray.size hnext
    rw [Bytes.size_drop, ByteArray.size_append, Bytes.size_le] at hsize
    omega
  refine ⟨⟨start, literals.size, some m, next⟩, ?_, rfl, ?_, rfl, hrest⟩
  · rw [readSequence, dif_pos hi, hhigh, hlow, hread]
    simp only [if_pos hmore, hmatch]
  · exact Bytes.extract_of_drop_eq hstart

/-- A last sequence that is written is read. -/
theorem readSequence_of_last {block literals : ByteArray} {i unused : Nat} (hunused : unused < 16)
    (h : Bytes.drop block i = encodeLast literals unused) :
    ∃ s, readSequence block i = some s ∧ s.copy = none ∧ s.literalBytes block = literals ∧
      s.literals = literals.size := by
  rw [encodeLast] at h
  obtain ⟨hi, hhigh, -, hdrop⟩ := token_of_drop_eq (by omega) hunused h
  have hread := readLength_append hdrop
  have hstart := Bytes.drop_of_drop_eq hdrop
  have hend : i + 1 + (lengthBytes literals.size).size + literals.size = block.size := by
    have hsize := congrArg ByteArray.size hdrop
    rw [Bytes.size_drop, ByteArray.size_append] at hsize
    omega
  generalize i + 1 + (lengthBytes literals.size).size = start at hread hstart hend
  refine ⟨⟨start, literals.size, none, block.size⟩, ?_, rfl, ?_, rfl⟩
  · rw [readSequence, dif_pos hi, hhigh, hread]
    simp only [if_neg (Nat.not_lt.mpr (Nat.le_of_eq hend.symm)), if_pos hend]
  · rw [← ByteArray.append_empty (b := literals)] at hstart
    exact Bytes.extract_of_drop_eq hstart

end EfiLoader.Lz4.Block
