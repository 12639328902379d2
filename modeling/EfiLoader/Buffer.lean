import EfiLoader.Bytes
import EfiLoader.Log.Target

/-!
# EfiLoader.Buffer

Byte buffers that are filled from the left and read with a cursor.  The
storage has a fixed capacity until it is grown on purpose; its first `len`
bytes are committed, and the first `pos` of those have been read.  Whether
storage can be had is for the allocator to say.
-/

namespace EfiLoader

open Log

/-! ## Memory -/

/-- Most bytes that one allocation can have: the offsets into it are signed
64-bit numbers. -/
def mostBytes : Nat := 0x7FFFFFFFFFFFFFFF

/-- The allocator that storage comes from.  Nothing is known of it but which
requests it grants: none that is too large to address, and with a request all
smaller ones. -/
class Allocator where
  /-- Whether this many bytes can be had. -/
  grants : Nat → Bool
  grants_of_le : ∀ {m n : Nat}, m ≤ n → grants n → grants m
  le_of_grants : ∀ {n : Nat}, grants n → n ≤ mostBytes

namespace Allocator

/-- The allocator that grants up to `limit` bytes at a time. -/
@[reducible]
def upTo (limit : Nat) (h : limit ≤ mostBytes) : Allocator where
  grants n := n ≤ limit
  grants_of_le hle hn := decide_eq_true (Nat.le_trans hle (of_decide_eq_true hn))
  le_of_grants hn := Nat.le_trans (of_decide_eq_true hn) h

/-- The allocator that grants whatever can be addressed. -/
@[reducible]
def unlimited : Allocator := upTo mostBytes (Nat.le_refl _)

end Allocator

/-! ## Buffers -/

/-- A buffer with a committed part and a read cursor. -/
structure Buffer where
  /-- All bytes, committed or not. -/
  storage : ByteArray
  /-- Number of committed bytes. -/
  len : Nat
  /-- Position of the read cursor. -/
  pos : Nat
  pos_le : pos ≤ len
  len_le : len ≤ storage.size

namespace Buffer

/-- What can go wrong with a buffer. -/
inductive Error where
  /-- No storage of this capacity can be had. -/
  | allocate (capacity : Nat)
  /-- The storage cannot be grown to this capacity. -/
  | grow (capacity : Nat)
  /-- A count runs past the committed or the available bytes. -/
  | count
deriving DecidableEq

instance : Fault Error where
  status
    | .allocate _ | .grow _ => Status.outOfResources
    | .count => Status.invalidParameter
  report
    | .allocate capacity => [Component.buffer.error s!"Failed to allocate {capacity} byte buffer"]
    | .grow capacity => [Component.buffer.error s!"Failed to grow buffer to {capacity} bytes"]
    | .count => []

/-! ## Making buffers -/

/-- The buffer without storage. -/
def empty : Buffer := ⟨ByteArray.empty, 0, 0, Nat.le_refl 0, Nat.zero_le _⟩

/-- A buffer whose storage is `bytes`, all of them committed. -/
def ofBytes (bytes : ByteArray) : Buffer :=
  ⟨bytes, bytes.size, 0, Nat.zero_le _, Nat.le_refl _⟩

/-- An empty buffer with zeroed storage. -/
def allocate [Allocator] (capacity : Nat) : Except Error Buffer :=
  if Allocator.grants capacity then
    .ok ⟨Bytes.zeros capacity, 0, 0, Nat.le_refl 0, Nat.zero_le _⟩
  else
    .error (.allocate capacity)

/-! ## Reading -/

def capacity (b : Buffer) : Nat := b.storage.size

/-- Number of bytes that can still be committed. -/
def room (b : Buffer) : Nat := b.storage.size - b.len

/-- The committed bytes. -/
def committed (b : Buffer) : ByteArray := b.storage.extract 0 b.len

/-- The committed bytes from the cursor on. -/
def remaining (b : Buffer) : ByteArray := b.storage.extract b.pos b.len

/-- Number of committed bytes from the cursor on. -/
def unread (b : Buffer) : Nat := b.len - b.pos

/-- The bytes that are not committed. -/
def unfilled (b : Buffer) : ByteArray := b.storage.extract b.len b.storage.size

/-- Whether nothing is committed. -/
def isEmpty (b : Buffer) : Bool := b.len == 0

/-! ## Changing -/

/-- The buffer with at least the given capacity; what it holds is kept. -/
def grow [Allocator] (b : Buffer) (capacity : Nat) : Except Error Buffer :=
  if capacity ≤ b.storage.size then
    .ok b
  else if Allocator.grants capacity then
    .ok { b with
      storage := b.storage ++ Bytes.zeros (capacity - b.storage.size)
      len_le := by
        have := b.len_le
        rw [ByteArray.size_append]
        omega }
  else
    .error (.grow capacity)

/-- Write `bytes` to the start of the unfilled part, as far as they fit. -/
def store (b : Buffer) (bytes : ByteArray) : Buffer :=
  { b with
    storage := Bytes.overwrite b.storage b.len bytes
    len_le := by rw [Bytes.size_overwrite]; exact b.len_le }

/-- Commit `count` more bytes, which must be there. -/
def commitRoom (b : Buffer) (count : Nat) (h : count ≤ b.room) : Buffer :=
  { b with
    len := b.len + count
    pos_le := Nat.le_trans b.pos_le (Nat.le_add_right _ _)
    len_le := by
      have := b.len_le
      unfold room at h
      omega }

/-- Commit `count` more bytes. -/
def commit (b : Buffer) (count : Nat) : Except Error Buffer :=
  if h : count ≤ b.room then .ok (b.commitRoom count h) else .error .count

/-- Move the cursor forward by `count` bytes, which must be committed. -/
def advanceUnread (b : Buffer) (count : Nat) (h : count ≤ b.unread) : Buffer :=
  { b with
    pos := b.pos + count
    pos_le := by
      have := b.pos_le
      unfold unread at h
      omega }

/-- Move the cursor forward by `count` bytes. -/
def advance (b : Buffer) (count : Nat) : Except Error Buffer :=
  if h : count ≤ b.unread then .ok (b.advanceUnread count h) else .error .count

/-- Forget what is committed; the storage keeps its bytes. -/
def clear (b : Buffer) : Buffer := ⟨b.storage, 0, 0, Nat.le_refl 0, Nat.zero_le _⟩

@[simp] theorem size_storage_store (b : Buffer) (bytes : ByteArray) :
    (b.store bytes).storage.size = b.storage.size := Bytes.size_overwrite _ _ _

@[simp] theorem room_store (b : Buffer) (bytes : ByteArray) : (b.store bytes).room = b.room := by
  simp [room, store]

theorem room_commitRoom (b : Buffer) (count : Nat) (h : count ≤ b.room) :
    (b.commitRoom count h).room = b.room - count := by
  simp only [room, commitRoom]
  omega

end Buffer

end EfiLoader
