import EfiLoader.Bytes

/-!
# EfiLoader.Firmware.Memory

Physical memory: a byte at every address.
-/

namespace EfiLoader

/-- A byte at every address. -/
structure Memory where
  byteAt : Nat → UInt8

namespace Memory

/-- Memory that is `b` everywhere. -/
def filled (b : UInt8) : Memory := ⟨fun _ => b⟩

/-- The memory after `bytes` have been written at `base`. -/
def write (m : Memory) (base : Nat) (bytes : ByteArray) : Memory :=
  ⟨fun a =>
    if base ≤ a ∧ a < base + bytes.size then Bytes.byte bytes (a - base) else m.byteAt a⟩

/-- The memory after `len` bytes from `base` on have been set to `b`. -/
def fill (m : Memory) (base len : Nat) (b : UInt8) : Memory :=
  ⟨fun a => if base ≤ a ∧ a < base + len then b else m.byteAt a⟩

/-- The `len` bytes from `base` on, after those in `acc`. -/
def readOnto (m : Memory) (base : Nat) : (len : Nat) → ByteArray → ByteArray
  | 0, acc => acc
  | len + 1, acc => readOnto m (base + 1) len (acc.push (m.byteAt base))

/-- The `len` bytes from `base` on. -/
def read (m : Memory) (base len : Nat) : ByteArray := m.readOnto base len ByteArray.empty

/-- Whether the `len` bytes from `base` on are all `b`. -/
def isFilled (m : Memory) (b : UInt8) (base : Nat) : (len : Nat) → Bool
  | 0 => true
  | len + 1 => m.byteAt base == b && m.isFilled b (base + 1) len

@[simp] theorem byteAt_write_of_lt (m : Memory) (base : Nat) (bytes : ByteArray) (a : Nat)
    (h : a < base) : (m.write base bytes).byteAt a = m.byteAt a := by
  simp only [write]
  rw [if_neg (by omega)]

theorem byteAt_write_of_mem (m : Memory) (base : Nat) (bytes : ByteArray) (i : Nat)
    (h : i < bytes.size) : (m.write base bytes).byteAt (base + i) = Bytes.byte bytes i := by
  simp only [write]
  rw [if_pos (by omega), Nat.add_sub_cancel_left]

end Memory

end EfiLoader
