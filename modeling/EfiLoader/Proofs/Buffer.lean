import EfiLoader.Buffer
import EfiLoader.Proofs.Bytes

/-!
# EfiLoader.Proofs.Buffer

The bytes of a buffer.  Whatever the storage holds behind them, the committed
bytes change in the ways that the operations on them say:

* `committed_commitRoom_store` — bytes are added at the end;
* `committed_of_grow` — growing keeps the bytes;
* `remaining_advanceUnread` — reading takes bytes from the front.
-/

namespace EfiLoader.Buffer

/-! ## sizes -/

@[simp] theorem size_committed (b : Buffer) : b.committed.size = b.len := by
  have := b.len_le
  rw [committed, ByteArray.size_extract]
  omega

@[simp] theorem size_remaining (b : Buffer) : b.remaining.size = b.unread := by
  have := b.len_le
  rw [remaining, ByteArray.size_extract, Nat.min_eq_left this, unread]

@[simp] theorem committed_empty : empty.committed = ByteArray.empty := ByteArray.extract_same

@[simp] theorem committed_ofBytes (bytes : ByteArray) : (ofBytes bytes).committed = bytes :=
  ByteArray.extract_zero_size

theorem le_room_iff {b : Buffer} {count : Nat} :
    count ≤ b.room ↔ b.len + count ≤ b.storage.size := by
  have := b.len_le
  unfold room
  omega

theorem le_unread_iff {b : Buffer} {count : Nat} : count ≤ b.unread ↔ b.pos + count ≤ b.len := by
  have := b.pos_le
  unfold unread
  omega

theorem allocate_eq_ok [Allocator] {n : Nat} (h : Allocator.grants n) :
    ∃ b, allocate n = .ok b ∧ b.committed = ByteArray.empty ∧ b.pos = 0 ∧ b.capacity = n ∧
      b.room = n :=
  ⟨_, if_pos h, ByteArray.extract_same, rfl, Bytes.size_zeros n, Bytes.size_zeros n⟩

/-! ## cursors -/

theorem remaining_eq_drop (b : Buffer) : b.remaining = Bytes.drop b.committed b.pos := by
  rw [Bytes.drop, size_committed, committed, ByteArray.extract_extract, Nat.zero_add,
    Nat.zero_add, Nat.min_self, remaining]

theorem remaining_of_pos {b : Buffer} (h : b.pos = 0) : b.remaining = b.committed := by
  rw [remaining_eq_drop, h, Bytes.drop_zero]

/-- Reading takes bytes from the front. -/
theorem remaining_advanceUnread (b : Buffer) (count : Nat) (h : count ≤ b.unread) :
    (b.advanceUnread count h).remaining = Bytes.drop b.remaining count := by
  have hcommitted : (b.advanceUnread count h).committed = b.committed := rfl
  rw [remaining_eq_drop, remaining_eq_drop, Bytes.drop_drop, hcommitted]
  rfl

/-- The bytes at the cursor are the first that have not been read. -/
theorem extract_pos (b : Buffer) {count : Nat} (h : count ≤ b.unread) :
    b.storage.extract b.pos (b.pos + count) = b.remaining.extract 0 count := by
  have hend : b.pos + count ≤ b.len := le_unread_iff.mp h
  rw [remaining, ByteArray.extract_extract, Nat.add_zero, Nat.min_eq_left hend]

/-! ## changes -/

@[simp] theorem committed_clear (b : Buffer) : b.clear.committed = ByteArray.empty :=
  ByteArray.extract_same

@[simp] theorem remaining_clear (b : Buffer) : b.clear.remaining = ByteArray.empty :=
  ByteArray.extract_same

@[simp] theorem capacity_clear (b : Buffer) : b.clear.capacity = b.capacity := rfl

@[simp] theorem room_clear (b : Buffer) : b.clear.room = b.capacity := Nat.sub_zero _

@[simp] theorem committed_store (b : Buffer) (bytes : ByteArray) :
    (b.store bytes).committed = b.committed := by
  have h := Bytes.extract_overwrite (Nat.zero_le bytes.size) b.len_le
  rwa [ByteArray.extract_same, ByteArray.append_empty] at h

/-- Bytes that are stored and committed are added at the end. -/
theorem committed_commitRoom_store (b : Buffer) {bytes : ByteArray} {count : Nat}
    (h : count ≤ (b.store bytes).room) (hcount : count ≤ bytes.size) :
    ((b.store bytes).commitRoom count h).committed =
      b.committed ++ bytes.extract 0 count := by
  have hroom : b.len + count ≤ b.storage.size := by
    rwa [room_store, le_room_iff] at h
  exact Bytes.extract_overwrite hcount hroom

/-- A buffer that is filled anew has the new bytes, and its cursor is at the start. -/
theorem remaining_commitRoom_store_clear (b : Buffer) {bytes : ByteArray} {count : Nat}
    (h : count ≤ (b.clear.store bytes).room) (hcount : count ≤ bytes.size) :
    ((b.clear.store bytes).commitRoom count h).remaining = bytes.extract 0 count := by
  rw [remaining_of_pos rfl, committed_commitRoom_store _ _ hcount, committed_clear,
    ByteArray.empty_append]

theorem capacity_commitRoom_store (b : Buffer) (bytes : ByteArray) (count : Nat)
    (h : count ≤ (b.store bytes).room) :
    ((b.store bytes).commitRoom count h).capacity = b.capacity :=
  size_storage_store b bytes

theorem grow_eq_ok [Allocator] {b : Buffer} {n : Nat} (h : n ≤ b.capacity ∨ Allocator.grants n) :
    ∃ b', b.grow n = .ok b' := by
  by_cases hn : n ≤ b.storage.size
  · exact ⟨b, if_pos hn⟩
  · have hgranted : Allocator.grants n := h.resolve_left hn
    exact ⟨_, (if_neg hn).trans (if_pos hgranted)⟩

/-- Growing keeps the committed bytes and the cursor, and makes the room that
is asked for. -/
theorem committed_of_grow [Allocator] {b b' : Buffer} {n : Nat} (h : b.grow n = .ok b') :
    b'.committed = b.committed ∧ b'.pos = b.pos ∧ n ≤ b'.capacity := by
  unfold grow at h
  split at h
  · next hn =>
    cases h
    exact ⟨rfl, rfl, hn⟩
  · next hn =>
    split at h
    · cases h
      refine ⟨Bytes.extract_append_left _ b.len_le, rfl, ?_⟩
      simp only [capacity, ByteArray.size_append, Bytes.size_zeros]
      omega
    · cases h

/-- A buffer that is grown has the capacity that is asked for. -/
theorem capacity_of_grow [Allocator] {b b' : Buffer} {n : Nat} (hcapacity : b.capacity ≤ n)
    (h : b.grow n = .ok b') : b'.capacity = n := by
  unfold grow at h
  rw [capacity] at hcapacity
  split at h
  · next hn =>
    cases h
    exact Nat.le_antisymm hcapacity hn
  · next hn =>
    split at h
    · cases h
      simp only [capacity, ByteArray.size_append, Bytes.size_zeros]
      omega
    · cases h

end EfiLoader.Buffer
