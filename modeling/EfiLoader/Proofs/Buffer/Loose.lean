import EfiLoader.Proofs.Buffer
import EfiLoader.Proofs.Guarded

/-!
# EfiLoader.Proofs.Buffer.Loose

Buffers that nothing is known of: some storage and two numbers.  What is done
with them checks no more than whether a sum is in bounds and whether there is
memory, and would stop at a range that the storage does not have.

* `Loose.commit_eq`, `Loose.advance_eq`, `Loose.grow_eq`, `Loose.write_eq` — done
  to the three things of a buffer it does not stop, and they are a buffer again;
* `step_eq` — so a use that fails has changed nothing.
-/

namespace EfiLoader.Buffer

/-! ## uses -/

/-- Something that is done with a buffer. -/
inductive Use where
  | commit (count : Nat)
  | advance (count : Nat)
  /-- Ask for a capacity; `granted` says whether there is memory. -/
  | grow (capacity : Nat) (granted : Bool)
  | clear
  /-- Write into the unfilled part, as far as the bytes fit. -/
  | write (offset : Nat) (bytes : ByteArray)

/-- There is memory for `size` bytes: it can be addressed, and it is granted. -/
def Reserved (granted : Bool) (size : Nat) : Prop := size ≤ mostBytes ∧ granted = true

instance (granted : Bool) (size : Nat) : Decidable (Reserved granted size) :=
  inferInstanceAs (Decidable (_ ∧ _))

/-- Storage of another size: it is cut off, or filled up with zeros. -/
def resized (storage : ByteArray) (size : Nat) : ByteArray :=
  storage.extract 0 size ++ Bytes.zeros (size - storage.size)

theorem size_resized (storage : ByteArray) (size : Nat) : (resized storage size).size = size := by
  rw [resized, ByteArray.size_append, ByteArray.size_extract, Bytes.size_zeros]
  omega

theorem resized_of_le {storage : ByteArray} {size : Nat} (h : storage.size ≤ size) :
    resized storage size = storage ++ Bytes.zeros (size - storage.size) := by
  rw [resized, Bytes.extract_of_le h]

/-- The buffer with storage of a size that is not smaller. -/
def widen (b : Buffer) (size : Nat) (h : b.capacity ≤ size) : Buffer :=
  { b with
    storage := resized b.storage size
    len_le := by
      rw [size_resized]
      exact Nat.le_trans b.len_le h }

/-- The buffer with at least the given capacity, if there is memory for it. -/
def growGranted (b : Buffer) (capacity : Nat) (granted : Bool) : Except Error Buffer :=
  if h : capacity ≤ b.capacity then
    .ok b
  else if Reserved granted capacity then
    .ok (b.widen capacity (Nat.le_of_not_le h))
  else
    .error (.grow capacity)

/-- The buffer after a use, or why there is none. -/
def perform (b : Buffer) : Use → Except Error Buffer
  | .commit count => b.commit count
  | .advance count => b.advance count
  | .grow capacity granted => b.growGranted capacity granted
  | .clear => .ok b.clear
  | .write offset bytes => .ok (b.store (Bytes.overwrite b.unfilled offset bytes))

/-! ## buffers that nothing is known of -/

/-- The storage of a buffer and its two numbers, whatever they are. -/
structure Loose where
  storage : ByteArray
  len : Nat
  pos : Nat

/-- A buffer without what is known of it. -/
def loose (b : Buffer) : Loose := ⟨b.storage, b.len, b.pos⟩

namespace Loose

/-- A step with a loose buffer.  It can stop, and it can fail; what it has
changed before it fails stays changed. -/
abbrev Step (α : Type) := ExceptT Error (StateT Loose Option) α

/-- The committed bytes, if there are so many. -/
def committed? (b : Loose) : Option ByteArray := Guarded.slice b.storage 0 b.len

/-- The committed bytes from the cursor on, if it is not behind them. -/
def remaining? (b : Loose) : Option ByteArray := Guarded.slice b.storage b.pos b.len

/-- The bytes that are not committed, if the storage reaches there. -/
def unfilled? (b : Loose) : Option ByteArray := Guarded.suffix b.storage b.len

/-- A zeroed buffer, if there is memory for it. -/
def allocate (capacity : Nat) (granted : Bool) : Except Error Loose :=
  if Reserved granted capacity then
    .ok ⟨resized ByteArray.empty capacity, 0, 0⟩
  else
    .error (.allocate capacity)

/-- A sum that has 64 bits and is in bounds. -/
def sumWithin (bound a b : Nat) : Step Nat :=
  match (Guarded.add a b).filter (· ≤ bound) with
  | some sum => pure sum
  | none => throw .count

def commit (count : Nat) : Step Unit := do
  let b ← get
  let len ← sumWithin b.storage.size b.len count
  set { b with len }

def advance (count : Nat) : Step Unit := do
  let b ← get
  let pos ← sumWithin b.len b.pos count
  set { b with pos }

/-- Ask for memory. -/
def reserve (size : Nat) (granted : Bool) (e : Error) : Step Unit :=
  if Reserved granted size then pure () else throw e

def grow (capacity : Nat) (granted : Bool) : Step Unit := do
  let b ← get
  if capacity ≤ b.storage.size then
    return
  else
    let more ← Guarded.sub capacity b.storage.size
    reserve (b.storage.size + more) granted (.grow capacity)
    set { b with storage := resized b.storage capacity }

def clear : Step Unit := modify fun b => { b with len := 0, pos := 0 }

/-- Write to the bytes that are not committed; only these can be reached. -/
def write (offset : Nat) (bytes : ByteArray) : Step Unit := do
  let b ← get
  let unfilled ← b.unfilled?
  let unfilled := Bytes.overwrite unfilled offset bytes
  let storage ← Guarded.copy b.storage b.len b.storage.size unfilled
  set { b with storage }

end Loose

/-- A use, done to the three things that a buffer is. -/
def Use.step : Use → Loose.Step Unit
  | .commit count => Loose.commit count
  | .advance count => Loose.advance count
  | .grow capacity granted => Loose.grow capacity granted
  | .clear => Loose.clear
  | .write offset bytes => Loose.write offset bytes

/-- How a use of `b` ends that makes another buffer or fails: then nothing has
changed. -/
def settled (b : Buffer) : Except Error Buffer → Option (Except Error Unit × Loose)
  | .ok b' => some (.ok (), b'.loose)
  | .error e => some (.error e, b.loose)

namespace Loose

theorem committed?_eq (b : Buffer) : b.loose.committed? = some b.committed :=
  Guarded.slice_eq (Nat.zero_le _) b.len_le

theorem remaining?_eq (b : Buffer) : b.loose.remaining? = some b.remaining :=
  Guarded.slice_eq b.pos_le b.len_le

theorem unfilled?_eq (b : Buffer) : b.loose.unfilled? = some b.unfilled :=
  Guarded.suffix_eq b.len_le

theorem bind_of_ok {m : Step α} {k : α → Step β} {s s' : Loose} {a : α}
    (h : m s = some (.ok a, s')) : (m >>= k) s = k a s' := by
  simp only [bind, ExceptT.bind, ExceptT.mk, StateT.bind, h]
  rfl

theorem bind_of_error {m : Step α} {k : α → Step β} {s s' : Loose} {e : Error}
    (h : m s = some (.error e, s')) : (m >>= k) s = some (.error e, s') := by
  simp only [bind, ExceptT.bind, ExceptT.mk, StateT.bind, h]
  rfl

theorem sumWithin_of_le {bound x y : Nat} (h : x + y ≤ bound) (hbound : bound ≤ mostBytes)
    (s : Loose) : sumWithin bound x y s = some (.ok (x + y), s) := by
  have hlimit : x + y < addressLimit :=
    Nat.lt_of_le_of_lt (Nat.le_trans h hbound) (by decide)
  have hsum : (Guarded.add x y).filter (· ≤ bound) = some (x + y) := by
    rw [Guarded.add, if_pos hlimit, Option.filter_some, if_pos (by simpa)]
  rw [sumWithin, hsum]
  rfl

/-- A sum that does not have 64 bits is out of bounds too. -/
theorem sumWithin_of_lt {bound x y : Nat} (h : bound < x + y) (s : Loose) :
    sumWithin bound x y s = some (.error .count, s) := by
  have hnone : (Guarded.add x y).filter (· ≤ bound) = none := by
    unfold Guarded.add
    split
    · rw [Option.filter_some, if_neg (by simpa using h)]
    · rfl
  rw [sumWithin, hnone]
  rfl

/-- A guarded step that is possible does not stop. -/
theorem lift_of_some {o : Option α} {a : α} (h : o = some a) (s : Loose) :
    (liftM o : Step α) s = some (.ok a, s) := by
  rw [h]
  rfl

theorem reserve_of_reserved {size : Nat} {granted : Bool} (h : Reserved granted size) (e : Error)
    (s : Loose) : reserve size granted e s = some (.ok (), s) := by
  rw [reserve, if_pos h]
  rfl

theorem reserve_of_not_reserved {size : Nat} {granted : Bool} (h : ¬ Reserved granted size)
    (e : Error) (s : Loose) : reserve size granted e s = some (.error e, s) := by
  rw [reserve, if_neg h]
  rfl

variable {b : Buffer}

theorem commit_eq (h : b.capacity ≤ mostBytes) (count : Nat) :
    commit count b.loose = b.settled (b.commit count) := by
  refine (bind_of_ok (m := get) rfl).trans ?_
  unfold Buffer.commit
  by_cases hroom : count ≤ b.room
  · have hle : b.len + count ≤ b.storage.size := le_room_iff.mp hroom
    rw [dif_pos hroom]
    exact bind_of_ok (sumWithin_of_le hle h b.loose)
  · have hlt : b.storage.size < b.len + count := Nat.lt_of_not_le (mt le_room_iff.mpr hroom)
    rw [dif_neg hroom]
    exact bind_of_error (sumWithin_of_lt hlt b.loose)

theorem advance_eq (h : b.capacity ≤ mostBytes) (count : Nat) :
    advance count b.loose = b.settled (b.advance count) := by
  have hmost : b.len ≤ mostBytes := Nat.le_trans b.len_le h
  refine (bind_of_ok (m := get) rfl).trans ?_
  unfold Buffer.advance
  by_cases hunread : count ≤ b.unread
  · have hle : b.pos + count ≤ b.len := le_unread_iff.mp hunread
    rw [dif_pos hunread]
    exact bind_of_ok (sumWithin_of_le hle hmost b.loose)
  · have hlt : b.len < b.pos + count := Nat.lt_of_not_le (mt le_unread_iff.mpr hunread)
    rw [dif_neg hunread]
    exact bind_of_error (sumWithin_of_lt hlt b.loose)

theorem grow_eq (b : Buffer) (capacity : Nat) (granted : Bool) :
    grow capacity granted b.loose = b.settled (b.growGranted capacity granted) := by
  refine (bind_of_ok (m := get) rfl).trans ?_
  unfold growGranted
  by_cases hle : capacity ≤ b.capacity
  · rw [dif_pos hle]
    exact congrFun (if_pos hle) b.loose
  · have hsub : Guarded.sub capacity b.storage.size = some (capacity - b.storage.size) :=
      Guarded.sub_eq (Nat.le_of_not_le hle)
    have hsum : b.storage.size + (capacity - b.storage.size) = capacity :=
      Nat.add_sub_cancel' (Nat.le_of_not_le hle)
    rw [dif_neg hle]
    refine (congrFun (if_neg hle) b.loose).trans ?_
    refine (bind_of_ok (lift_of_some hsub b.loose)).trans ?_
    by_cases hmemory : Reserved granted capacity
    · rw [if_pos hmemory]
      -- What is asked for in addition to the old storage makes up the new one.
      exact bind_of_ok (reserve_of_reserved (hsum.symm ▸ hmemory) _ b.loose)
    · rw [if_neg hmemory]
      exact bind_of_error (reserve_of_not_reserved (hsum.symm ▸ hmemory) _ b.loose)

theorem write_eq (b : Buffer) (offset : Nat) (bytes : ByteArray) :
    write offset bytes b.loose =
      b.settled (.ok (b.store (Bytes.overwrite b.unfilled offset bytes))) := by
  have hsize : (Bytes.overwrite b.unfilled offset bytes).size = b.storage.size - b.len := by
    rw [Bytes.size_overwrite]
    exact Bytes.size_drop b.storage b.len
  refine (bind_of_ok (m := get) rfl).trans ?_
  refine (bind_of_ok (lift_of_some (unfilled?_eq b) b.loose)).trans ?_
  exact bind_of_ok (lift_of_some (Guarded.copy_eq b.len_le (Nat.le_refl _) hsize) b.loose)

end Loose

/-- A use has the same effect on a buffer and on its three things. -/
theorem step_eq {b : Buffer} (h : b.capacity ≤ mostBytes) (u : Use) :
    u.step b.loose = b.settled (b.perform u) := by
  cases u with
  | commit count => exact Loose.commit_eq h count
  | advance count => exact Loose.advance_eq h count
  | grow capacity granted => exact Loose.grow_eq b capacity granted
  | clear => rfl
  | write offset bytes => exact Loose.write_eq b offset bytes

end EfiLoader.Buffer
