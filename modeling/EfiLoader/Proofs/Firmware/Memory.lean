import EfiLoader.Firmware.Memory
import EfiLoader.Proofs.Bytes

/-!
# EfiLoader.Proofs.Firmware.Memory

Memory that is read.  What has been written is read back, whatever was there
before, and what has not been written to is as it was.
-/

namespace EfiLoader.Memory

@[simp] theorem size_readOnto (m : Memory) (base len : Nat) (acc : ByteArray) :
    (m.readOnto base len acc).size = acc.size + len := by
  induction len generalizing base acc with
  | zero => rfl
  | succ len ih =>
      rw [readOnto, ih, ByteArray.size_push]
      omega

@[simp] theorem size_read (m : Memory) (base len : Nat) : (m.read base len).size = len := by
  rw [read, size_readOnto, ByteArray.size_empty, Nat.zero_add]

/-- Bytes that are read go behind those that are there. -/
theorem byte_readOnto (m : Memory) (base : Nat) {len i : Nat} {acc : ByteArray}
    (h : i < acc.size + len) :
    Bytes.byte (m.readOnto base len acc) i =
      if i < acc.size then Bytes.byte acc i else m.byteAt (base + (i - acc.size)) := by
  induction len generalizing base acc with
  | zero =>
      rw [readOnto, if_pos (by omega)]
  | succ len ih =>
      rw [readOnto, ih (base + 1) (by rw [ByteArray.size_push]; omega), ByteArray.size_push]
      by_cases hold : i < acc.size
      · rw [if_pos (by omega), if_pos hold, Bytes.byte_push_of_lt _ hold]
      · rw [if_neg hold]
        by_cases hnew : i = acc.size
        · rw [if_pos (by omega), hnew, Bytes.byte_push_size, Nat.sub_self, Nat.add_zero]
        · rw [if_neg (by omega)]
          congr 1
          omega

theorem byte_read (m : Memory) (base : Nat) {len i : Nat} (h : i < len) :
    Bytes.byte (m.read base len) i = m.byteAt (base + i) := by
  rw [read, byte_readOnto m base (by rw [ByteArray.size_empty]; omega), ByteArray.size_empty,
    if_neg (Nat.not_lt_zero i), Nat.sub_zero]

/-- What has been written is read back. -/
theorem read_write (m : Memory) (base : Nat) (bytes : ByteArray) :
    (m.write base bytes).read base bytes.size = bytes := by
  apply Bytes.ext_byte (size_read _ _ _)
  intro i hi
  rw [size_read] at hi
  rw [byte_read _ _ hi, byteAt_write_of_mem m base bytes i hi]

/-- Memory that nothing is written to is read as before. -/
theorem read_write_of_outside (m : Memory) {base at' len : Nat} {bytes : ByteArray}
    (h : ∀ a, at' ≤ a → a < at' + len → ¬ (base ≤ a ∧ a < base + bytes.size)) :
    (m.write base bytes).read at' len = m.read at' len := by
  apply Bytes.ext_byte (by rw [size_read, size_read])
  intro i hi
  rw [size_read] at hi
  rw [byte_read _ _ hi, byte_read _ _ hi]
  exact if_neg (h (at' + i) (by omega) (by omega))

end EfiLoader.Memory
