import EfiLoader.Loader.Image
import EfiLoader.Proofs.Bytes

/-!
# EfiLoader.Proofs.Loader.PathOf

The device path of an image names its pages.  What unloading reads from the
path is what installing wrote there:

* `DevicePath.read?_memoryMapped` — the range of a path is read back;
* `LoadedImage.pagesBetween?_eq_some_iff` — which ranges are counted in pages;
* `LoadedImage.pagesBetween?_eq_some` — the number of pages is recovered from
  the addresses of the first and the last byte.
-/

namespace EfiLoader

/-! ## ranges -/

namespace DevicePath

/-- The bytes of a range of memory. -/
def rangeBytes (m : MemoryMapped) : ByteArray :=
  Bytes.ofU32 m.memoryType ++ Bytes.ofU64 m.start ++ Bytes.ofU64 m.last

/-- The part that all nodes share, of a node with a range of memory. -/
def rangeHeader : ByteArray :=
  [hardwareType, memoryMappedSubtype].toByteArray ++ Bytes.le 2 memoryMappedSize

@[simp] theorem size_rangeBytes (m : MemoryMapped) : (rangeBytes m).size = 20 := by
  simp [rangeBytes, Bytes.ofU32, Bytes.ofU64]

@[simp] theorem size_rangeHeader : rangeHeader.size = 4 := by
  simp [rangeHeader]

/-- The parts of a path with a range of memory. -/
theorem memoryMapped_eq (m : MemoryMapped) :
    memoryMapped m = rangeHeader ++ (rangeBytes m ++ endNode) := by
  have hsize : nodeHeaderSize + (rangeBytes m).size = memoryMappedSize := by
    rw [size_rangeBytes]
    rfl
  have hnode : memoryMapped m = node hardwareType memoryMappedSubtype (rangeBytes m) ++ endNode :=
    rfl
  rw [hnode, node, hsize, ByteArray.append_assoc, rangeHeader]

theorem leNat_memoryMapped (m : MemoryMapped) (off len : Nat) (h : off + len ≤ 20) :
    Bytes.leNat (memoryMapped m) (4 + off) len = Bytes.leNat (rangeBytes m) off len := by
  have hright := Bytes.leNat_append_right rangeHeader (rangeBytes m ++ endNode) off len
  rw [size_rangeHeader] at hright
  rw [memoryMapped_eq, hright, Bytes.leNat_append_left (by simpa using h)]

theorem leNat_rangeBytes_memoryType (m : MemoryMapped) :
    Bytes.leNat (rangeBytes m) 0 4 = m.memoryType.toNat := by
  rw [rangeBytes, ByteArray.append_assoc, Bytes.leNat_append_left (by simp [Bytes.ofU32]),
    Bytes.ofU32, Bytes.leNat_le m.memoryType.toNat_lt]

/-- The first address is read back. -/
theorem leNat_rangeBytes_start (m : MemoryMapped) :
    Bytes.leNat (rangeBytes m) 4 8 = m.start.toNat := by
  have hright := Bytes.leNat_append_right (Bytes.ofU32 m.memoryType)
    (Bytes.ofU64 m.start ++ Bytes.ofU64 m.last) 0 8
  rw [Bytes.ofU32, Bytes.size_le] at hright
  rw [rangeBytes, ByteArray.append_assoc, Bytes.ofU32, hright,
    Bytes.leNat_append_left (by simp [Bytes.ofU64]), Bytes.ofU64,
    Bytes.leNat_le m.start.toNat_lt]

/-- The last address is read back. -/
theorem leNat_rangeBytes_last (m : MemoryMapped) :
    Bytes.leNat (rangeBytes m) 12 8 = m.last.toNat := by
  have hright := Bytes.leNat_append_right (Bytes.ofU32 m.memoryType ++ Bytes.ofU64 m.start)
    (Bytes.ofU64 m.last) 0 8
  rw [ByteArray.size_append, Bytes.ofU32, Bytes.ofU64, Bytes.size_le, Bytes.size_le] at hright
  rw [rangeBytes, Bytes.ofU32, Bytes.ofU64, hright, Bytes.ofU64,
    Bytes.leNat_le m.last.toNat_lt]

theorem byte_memoryMapped (m : MemoryMapped) {i : Nat} (h : i < 4) :
    Bytes.byte (memoryMapped m) i = Bytes.byte rangeHeader i := by
  rw [memoryMapped_eq, Bytes.byte_append_left (by simpa using h)]

/-- The range that is written is read back. -/
theorem read?_memoryMapped (m : MemoryMapped) : MemoryMapped.read? (memoryMapped m) = some m := by
  have hsize : Bytes.leNat (memoryMapped m) 2 2 = memoryMappedSize := by
    rw [memoryMapped_eq, Bytes.leNat_append_left (by simp)]
    decide
  rw [MemoryMapped.read?, if_pos]
  · rw [leNat_memoryMapped m 0 4 (by omega), leNat_memoryMapped m 4 8 (by omega),
      leNat_memoryMapped m 12 8 (by omega), leNat_rangeBytes_memoryType,
      leNat_rangeBytes_start, leNat_rangeBytes_last]
    simp
  · refine ⟨?_, ?_, Nat.le_of_eq hsize.symm⟩
    · rw [byte_memoryMapped m (by omega)]
      decide
    · rw [byte_memoryMapped m (by omega)]
      decide

end DevicePath

/-! ## pages -/

/-- Pages that can be counted: at least one, in less memory than there are
addresses, and each of them with an address. -/
structure PageAllocation.Countable (a : PageAllocation) : Prop where
  pos : 0 < a.pages
  size_lt : a.pages * pageSize < addressLimit
  end_le : a.address + a.pages * pageSize ≤ addressLimit

/-- Where pages begin, and their number. -/
def PageAllocation.extent (a : PageAllocation) : Nat × Nat := (a.address, a.pages)

namespace LoadedImage

variable {a : PageAllocation}

/-- The range in the path of an image is that of its pages. -/
theorem read?_pathOf (a : PageAllocation) :
    DevicePath.MemoryMapped.read? (pathOf a) =
      some ⟨a.memoryType, UInt64.ofNat a.address, UInt64.ofNat a.last⟩ :=
  DevicePath.read?_memoryMapped _

/-- The first page of an image has an address. -/
theorem toNat_address (h : a.Countable) : (UInt64.ofNat a.address).toNat = a.address := by
  have hpos := h.pos
  have hend := h.end_le
  simp only [pageSize, addressLimit] at hend
  rw [UInt64.toNat_ofNat']
  omega

/-- So has the last byte. -/
theorem toNat_last (h : a.Countable) : (UInt64.ofNat a.last).toNat = a.last := by
  have hpos := h.pos
  have hend := h.end_le
  simp only [PageAllocation.last, pageSize, addressLimit] at *
  rw [UInt64.toNat_ofNat']
  omega

/-- A range that is counted runs upwards and has a page at least; its bytes have
a number. -/
theorem pagesBetween?_eq_some_iff {first last : UInt64} {n : Nat} :
    pagesBetween? first last = some n ↔
      first.toNat ≤ last.toNat ∧ last.toNat - first.toNat + 1 < addressLimit ∧
        0 < n ∧ n = (last.toNat - first.toNat + 1) / pageSize := by
  have hlast := last.toNat_lt
  rw [pagesBetween?]
  by_cases hlt : last < first
  · have hnat : last.toNat < first.toNat := UInt64.lt_iff_toNat_lt.mp hlt
    rw [if_pos hlt]
    simp only [reduceCtorEq, false_iff]
    omega
  · have hle : first ≤ last := UInt64.not_lt.mp hlt
    have hnat : first.toNat ≤ last.toNat := UInt64.le_iff_toNat_le.mp hle
    rw [if_neg hlt]
    have hsum : (last - first + 1).toNat = (last.toNat - first.toNat + 1) % addressLimit := by
      rw [UInt64.toNat_add, UInt64.toNat_sub_of_le _ _ hle]
      rfl
    rw [hsum]
    dsimp only
    split
    · next hzero =>
      simp only [reduceCtorEq, false_iff, not_and]
      rintro - hcount hpos rfl
      rw [Nat.mod_eq_of_lt hcount] at hzero
      omega
    · next hzero =>
      have hcount : last.toNat - first.toNat + 1 < addressLimit := by
        rcases Nat.lt_or_ge (last.toNat - first.toNat + 1) addressLimit with hcount | hover
        · exact hcount
        · have hall : last.toNat - first.toNat + 1 = addressLimit := by
            simp only [addressLimit] at hover ⊢
            omega
          rw [hall, Nat.mod_self, Nat.zero_div] at hzero
          exact absurd rfl hzero
      rw [Nat.mod_eq_of_lt hcount] at hzero ⊢
      rw [Option.some.injEq]
      constructor
      · rintro rfl
        exact ⟨hnat, hcount, Nat.pos_of_ne_zero hzero, rfl⟩
      · rintro ⟨-, -, -, rfl⟩
        rfl

/-- The number of pages is that between the first and the last byte. -/
theorem pagesBetween?_eq_some (h : a.Countable) :
    pagesBetween? (UInt64.ofNat a.address) (UInt64.ofNat a.last) = some a.pages := by
  have hpos := h.pos
  have hsize := h.size_lt
  rw [pagesBetween?_eq_some_iff, toNat_address h, toNat_last h]
  have hcount : a.last - a.address + 1 = a.pages * pageSize := by
    simp only [PageAllocation.last, pageSize]
    omega
  have hdiv : a.pages * pageSize / pageSize = a.pages := Nat.mul_div_cancel _ (by decide)
  rw [hcount, hdiv]
  refine ⟨?_, hsize, hpos, rfl⟩
  simp only [PageAllocation.last, pageSize]
  omega

end LoadedImage

end EfiLoader
