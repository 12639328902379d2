/-!
# EfiLoader.Bytes

Byte-array plumbing: repeated bytes, bounds-checked slices, overwriting a
range in place, copying from a distance back, and little-endian numbers.
Reads never leave the array: a checked read answers `none` and `byte`
answers 0 past the end.
-/

namespace EfiLoader.Bytes

/-! ## Single bytes -/

/-- The byte at index `i`, if the array has one. -/
def get? (bs : ByteArray) (i : Nat) : Option UInt8 :=
  if h : i < bs.size then some bs[i] else none

/-- The byte at index `i`, 0 past the end. -/
def byte (bs : ByteArray) (i : Nat) : UInt8 :=
  if h : i < bs.size then bs[i] else 0

/-! ## Repeated bytes -/

/-- `n` copies of the byte `b`, built by doubling. -/
def replicate (n : Nat) (b : UInt8) : ByteArray :=
  if n = 0 then
    ByteArray.empty
  else
    let half := replicate (n / 2) b
    let twice := half ++ half
    if n % 2 = 1 then twice.push b else twice
termination_by n

/-- `n` zero bytes. -/
def zeros (n : Nat) : ByteArray := replicate n 0

theorem data_replicate (n : Nat) (b : UInt8) : (replicate n b).data = Array.replicate n b := by
  induction n using Nat.strongRecOn with
  | _ n ih =>
    rw [replicate]
    split
    · next h => subst h; simp
    · next h =>
      have hhalf := ih (n / 2) (by omega)
      simp only []
      split
      · next hodd =>
        rw [ByteArray.data_push, ByteArray.data_append, hhalf, Array.replicate_append_replicate,
          ← Array.replicate_succ]
        congr 1
        omega
      · next heven =>
        rw [ByteArray.data_append, hhalf, Array.replicate_append_replicate]
        congr 1
        omega

@[simp] theorem size_replicate (n : Nat) (b : UInt8) : (replicate n b).size = n := by
  rw [← ByteArray.size_data, data_replicate, Array.size_replicate]

@[simp] theorem size_zeros (n : Nat) : (zeros n).size = n := size_replicate n 0

/-! ## Slices -/

/-- The `len` bytes at offset `off`, if they all lie inside the array. -/
def slice? (bs : ByteArray) (off len : Nat) : Option ByteArray :=
  if off + len ≤ bs.size then some (bs.extract off (off + len)) else none

/-- The bytes from offset `off` on. -/
def drop (bs : ByteArray) (off : Nat) : ByteArray := bs.extract off bs.size

/-- `bs` with the bytes of `src` written over it at offset `off`.  The write
is cut off at the end of `bs`, whose size stays as it is. -/
def overwrite (bs : ByteArray) (off : Nat) (src : ByteArray) : ByteArray :=
  if off ≤ bs.size then src.copySlice 0 bs off (min src.size (bs.size - off)) else bs

@[simp] theorem size_overwrite (bs : ByteArray) (off : Nat) (src : ByteArray) :
    (overwrite bs off src).size = bs.size := by
  unfold overwrite
  split
  · next h =>
    rw [← ByteArray.size_data, ByteArray.copySlice.eq_1]
    simp only [Array.size_append, Array.size_extract, ByteArray.size_data]
    omega
  · rfl

/-! ## Repetition -/

/-- `out` with `n` more bytes, each the one `offset` back from its own place. -/
def copyBack (out : ByteArray) (offset : Nat) : (n : Nat) → ByteArray
  | 0 => out
  | n + 1 => copyBack (out.push (byte out (out.size - offset))) offset n

@[simp] theorem size_copyBack (out : ByteArray) (offset n : Nat) :
    (copyBack out offset n).size = out.size + n := by
  induction n generalizing out with
  | zero => rfl
  | succ n ih =>
    rw [copyBack, ih, ByteArray.size_push]
    omega

/-! ## Little-endian numbers -/

/-- The number whose `len` little-endian bytes stand at offset `off`. -/
def leNat (bs : ByteArray) (off : Nat) : Nat → Nat
  | 0 => 0
  | len + 1 => (byte bs off).toNat + 256 * leNat bs (off + 1) len

/-- The `len`-byte little-endian number at offset `off`, if it lies inside. -/
def le? (bs : ByteArray) (off len : Nat) : Option Nat :=
  if off + len ≤ bs.size then some (leNat bs off len) else none

/-- The `len` low little-endian bytes of `n`. -/
def leList : Nat → Nat → List UInt8
  | 0, _ => []
  | len + 1, n => UInt8.ofNat n :: leList len (n / 256)

@[simp] theorem length_leList (len n : Nat) : (leList len n).length = len := by
  induction len generalizing n with
  | zero => rfl
  | succ len ih => simp [leList, ih]

/-- The `len` low little-endian bytes of `n`, as an array. -/
def le (len n : Nat) : ByteArray := (leList len n).toByteArray

def ofU16 (n : UInt16) : ByteArray := le 2 n.toNat
def ofU32 (n : UInt32) : ByteArray := le 4 n.toNat
def ofU64 (n : UInt64) : ByteArray := le 8 n.toNat

/-! ## Runs of arrays -/

/-- The concatenation of a list of arrays. -/
def concat (parts : List ByteArray) : ByteArray := parts.foldl (· ++ ·) ByteArray.empty

end EfiLoader.Bytes
