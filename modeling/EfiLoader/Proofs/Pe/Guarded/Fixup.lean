import EfiLoader.Proofs.Pe.Fixup
import EfiLoader.Proofs.Pe.Guarded.Placement

/-!
# EfiLoader.Proofs.Pe.Guarded.Fixup

Base relocations, applied in guarded steps.  The loop over the blocks is
guarded too: it has one round for every byte of the table, and stops where it
would need another.

* `readBlock_eq` — every block and every entry that is read lies in the table;
* `applyAll_eq` — no table stops the relocations of an image.
-/

namespace EfiLoader.Pe.Guarded

open EfiLoader.Guarded
open Fixup (Block Kind Record blockHeaderSize distance)
open Fixup.Patching (ends)

/-! ## relocations in guarded steps -/

/-- The `count` entries from offset `off` on. -/
def records (entries : ByteArray) (off : Nat) : Nat → Option (List Record)
  | 0 => some []
  | count + 1 => do
    let word ← Bytes.le? entries off 2
    return Record.ofWord word :: (← records entries (off + 2) count)

/-- Block number `index`, which starts at offset `off`. -/
def readBlock (table : ByteArray) (index off : Nat) : Option (Except Fixup.Error Block) := do
  let rest ← suffix table off
  if rest.size < blockHeaderSize then
    return .error (.truncatedHeader index)
  let page ← Bytes.le? rest 0 4
  let size ← Bytes.le? rest 4 4
  if size = 0 then
    return .error (.zeroSize index)
  if size < blockHeaderSize then
    return .error (.shortBlock index size)
  if table.size < size then
    return .error (.longBlock index size table.size)
  if rest.size < size then
    return .error (.pastTable index)
  let entries ← slice rest blockHeaderSize size
  return .ok { page, size, records := ← records entries 0 (entries.size / 2) }

/-- Apply one entry of block number `index`. -/
def applyRecord (adjust : UInt64) (index page : Nat) (r : Record) (region : ByteArray) :
    Option (Except Fixup.Error Unit × ByteArray) := do
  match Kind.ofNumber? r.kind with
  | none => return (.error (.unknownKind index r.kind), region)
  | some .absolute => return (.ok (), region)
  | some kind =>
    let target := page + r.offset
    if 0x100000000 ≤ target then
      return (.error .addressOverflow, region)
    let stop ← add target kind.width
    if region.size < stop then
      return (.error (.outside index target), region)
    let field ← slice region target stop
    let value ← Bytes.le? field 0 kind.width
    let moved ← copy field 0 kind.width (Bytes.le kind.width (value + kind.addend adjust))
    return (.ok (), ← copy region target stop moved)

/-- Apply entries of block number `index` one after the other. -/
def applyRecords (adjust : UInt64) (index page : Nat) :
    List Record → ByteArray → Option (Except Fixup.Error Unit × ByteArray)
  | [], region => some (.ok (), region)
  | r :: rest, region => do
    match ← applyRecord adjust index page r region with
    | (.error e, region) => return (.error e, region)
    | (.ok (), region) => applyRecords adjust index page rest region

/-- Apply the blocks from offset `off` on in at most so many rounds. -/
def applyBlocks (adjust : UInt64) (table : ByteArray) :
    Nat → Nat → Nat → ByteArray → Option (Except Fixup.Error Nat × ByteArray)
  | 0, _, _, _ => none
  | rounds + 1, index, off, region => do
    if table.size ≤ off then
      return (.ok index, region)
    match ← readBlock table index off with
    | .error e => return (.error e, region)
    | .ok b =>
      match ← applyRecords adjust index b.page b.records region with
      | (.error e, region) => return (.error e, region)
      | (.ok (), region) =>
        applyBlocks adjust table rounds (← add index 1) (← add off b.size) region

/-- Apply the relocations of an image that is loaded at `base` into `region`. -/
def applyAll (h : Headers) (source : ByteArray) (s : RelocationSection) (base : UInt64)
    (region : ByteArray) : Option (Except Fixup.Error Unit × ByteArray) := do
  match h.relocations? with
  | none => return (.ok (), region)
  | some dir =>
    if distance h base = 0 then
      return (.ok (), region)
    let last ← add s.rawPointer dir.size
    if source.size < last then
      return (.error .tableOutside, region)
    let table ← slice source s.rawPointer last
    match ← applyBlocks (distance h base) table (table.size + 1) 0 0 region with
    | (.error e, region) => return (.error e, region)
    | (.ok _, region) => return (.ok (), region)

/-! ## no step stops -/

variable {table : ByteArray} {index off : Nat}

/-- Entries of a block are read where the block is. -/
theorem records_eq (count : Nat) {start stop : Nat} (hstop : stop ≤ table.size)
    (h : start + off + 2 * count ≤ stop) :
    records (table.extract start stop) off count =
      some (Fixup.records table (start + off) count) := by
  induction count generalizing off with
  | zero => rfl
  | succ count ih =>
    unfold records Fixup.records
    apply step (le?_extract_eq (by omega) hstop)
    apply step (ih (by omega))
    rfl

theorem readBlock_eq (hoff : off ≤ table.size) :
    readBlock table index off = some (Block.read table index off) := by
  have hheaderSize : blockHeaderSize = 8 := rfl
  unfold readBlock Block.read
  apply step (suffix_eq hoff)
  rw [Bytes.size_drop]
  by_cases hheader : table.size < off + blockHeaderSize
  · rw [if_pos (by omega), if_pos hheader]
    rfl
  rw [if_neg (by omega), if_neg hheader]
  apply step (le?_drop_eq (by omega))
  apply step (le?_drop_eq (by omega))
  rw [Nat.add_zero]
  generalize Bytes.leNat table (off + 4) 4 = size
  dsimp only
  by_cases hzero : size = 0
  · rw [if_pos hzero, if_pos hzero]
    rfl
  rw [if_neg hzero, if_neg hzero]
  by_cases hshort : size < blockHeaderSize
  · rw [if_pos hshort, if_pos hshort]
    rfl
  rw [if_neg hshort, if_neg hshort]
  by_cases hlong : table.size < size
  · rw [if_pos hlong, if_pos hlong]
    rfl
  rw [if_neg hlong, if_neg hlong]
  by_cases hpast : table.size < off + size
  · rw [if_pos (by omega), if_pos hpast]
    rfl
  rw [if_neg (by omega), if_neg hpast]
  have hentries : (off + size - (off + blockHeaderSize)) / 2 = (size - blockHeaderSize) / 2 := by
    omega
  apply step (slice_eq (by omega) (by rw [Bytes.size_drop]; omega))
  rw [Bytes.extract_drop, ByteArray.size_extract, Nat.min_eq_left (by omega), hentries]
  apply step (records_eq _ (by omega) (by omega))
  rfl

/-- A block that is read ends in the table. -/
theorem size_le_of_read {b : Block} (h : Block.read table index off = .ok b) :
    off + b.size ≤ table.size := by
  unfold Block.read at h
  split at h
  · cases h
  dsimp only at h
  split at h
  · cases h
  split at h
  · cases h
  split at h
  · cases h
  split at h
  · cases h
  · next hpast =>
    cases h
    exact Nat.not_lt.mp hpast

variable {adjust : UInt64} {page : Nat} {region : ByteArray}

/-- A field that is moved in place is moved in its image. -/
theorem overwrite_patch (k : Kind) {target : Nat} (h : target + k.width ≤ region.size) :
    Bytes.overwrite region target
        (Bytes.overwrite (region.extract target (target + k.width)) 0
          (Bytes.le k.width (Bytes.leNat region target k.width + k.addend adjust))) =
      k.patch adjust region target := by
  rw [Bytes.overwrite_zero]
  · rfl
  · rw [Bytes.size_le, ByteArray.size_extract]
    omega

theorem applyRecord_eq (r : Record) :
    applyRecord adjust index page r region =
      some (ends (Fixup.applyRecord adjust index page r) region) := by
  rw [Fixup.ends_applyRecord]
  unfold applyRecord
  rcases Kind.ofNumber? r.kind with _ | kind
  · rfl
  have hwidth : kind.width ≤ 8 := by
    cases kind with
    | absolute => exact Nat.zero_le 8
    | high => exact Nat.le_of_ble_eq_true rfl
    | low => exact Nat.le_of_ble_eq_true rfl
    | highLow => exact Nat.le_of_ble_eq_true rfl
    | dir64 => exact Nat.le_refl 8
  cases kind with
  | absolute => rfl
  | _ =>
    dsimp only
    by_cases hwide : 0x100000000 ≤ page + r.offset
    · rw [if_pos hwide, if_pos hwide]
      rfl
    rw [if_neg hwide, if_neg hwide]
    apply step (add_eq (by omega))
    split
    · rfl
    · next hout =>
      rw [Nat.not_lt] at hout
      apply step (slice_eq (Nat.le_add_right _ _) hout)
      apply step (le?_extract_eq (by omega) hout)
      apply step (copy_eq (Nat.zero_le _) (by rw [ByteArray.size_extract]; omega)
        (by rw [Bytes.size_le, Nat.sub_zero]))
      rw [Nat.add_zero]
      apply step (copy_eq (Nat.le_add_right _ _) hout
        (by rw [Bytes.size_overwrite, ByteArray.size_extract]; omega))
      rw [overwrite_patch _ hout]
      rfl

theorem applyRecords_eq (records : List Record) :
    applyRecords adjust index page records region =
      some (ends (Fixup.applyRecords adjust index page records) region) := by
  induction records generalizing region with
  | nil => rfl
  | cons r rest ih =>
    rw [Fixup.ends_applyRecords_cons]
    unfold applyRecords
    apply step (applyRecord_eq r)
    rcases ends (Fixup.applyRecord adjust index page r) region with ⟨e | _, moved⟩
    · rfl
    · exact ih

/-- A round moves on by a block, so there are always enough of them. -/
theorem applyBlocks_eq {rounds : Nat} (htable : table.size < 2 ^ 32) (hoff : off ≤ table.size)
    (hindex : index ≤ off) (hrounds : table.size - off < rounds) :
    applyBlocks adjust table rounds index off region =
      some (ends (Fixup.applyBlocks adjust table index off) region) := by
  induction rounds generalizing index off region with
  | zero => omega
  | succ rounds ih =>
    rw [Fixup.ends_applyBlocks]
    unfold applyBlocks
    by_cases hend : table.size ≤ off
    · rw [if_pos hend, if_neg (Nat.not_lt.mpr hend)]
      rfl
    rw [if_neg hend, if_pos (Nat.not_le.mp hend)]
    apply step (readBlock_eq hoff)
    cases hread : Block.read table index off with
    | error e => rfl
    | ok b =>
      have hstop := size_le_of_read hread
      have hheader := Block.blockHeaderSize_le hread
      simp only [blockHeaderSize] at hheader
      apply step (applyRecords_eq b.records)
      dsimp only
      rcases ends (Fixup.applyRecords adjust index b.page b.records) region with ⟨e | _, moved⟩
      · rfl
      · apply step (add_eq (by omega))
        apply step (add_eq (by omega))
        exact ih hstop (by omega) (by omega)

/-- **Relocations are applied without a stop**: the table, every block and
every field that is moved lie inside their buffers. -/
theorem applyAll_eq {h : Headers} {source : ByteArray} (hf : h.Fits source)
    {s : RelocationSection} (hs : s.rawPointer < 2 ^ 32) (base : UInt64) :
    applyAll h source s base region = some (Fixup.applyAll h source s base region).value := by
  rw [Fixup.value_applyAll]
  unfold applyAll
  cases hdir : h.relocations? with
  | none => rfl
  | some dir =>
    have hdirectory := hf.directory dir (Option.eq_some_of_filter_eq_some hdir)
    dsimp only
    by_cases hdistance : distance h base = 0
    · rw [if_pos hdistance, if_pos hdistance]
      rfl
    rw [if_neg hdistance, if_neg hdistance]
    apply step (add_eq (by omega))
    unfold Fixup.table? Bytes.slice?
    by_cases htable : source.size < s.rawPointer + dir.size
    · rw [if_pos htable, if_neg (Nat.not_le.mpr htable)]
      rfl
    rw [if_neg htable, if_pos (Nat.not_lt.mp htable)]
    apply step (slice_eq (Nat.le_add_right _ _) (Nat.not_lt.mp htable))
    dsimp only
    generalize htab : source.extract s.rawPointer (s.rawPointer + dir.size) = table
    have hsize : table.size < 2 ^ 32 := by
      rw [← htab, ByteArray.size_extract]
      omega
    apply step (applyBlocks_eq hsize (Nat.zero_le _) (Nat.le_refl 0) (by omega))
    rcases ends (Fixup.applyBlocks (distance h base) table 0 0) region with ⟨e | _, moved⟩
    · rfl
    · rfl

end EfiLoader.Pe.Guarded
