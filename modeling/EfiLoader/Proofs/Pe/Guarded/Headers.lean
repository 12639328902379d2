import EfiLoader.Proofs.Guarded
import EfiLoader.Proofs.Pe.Headers

/-!
# EfiLoader.Proofs.Pe.Guarded.Headers

The headers of an image, read in guarded steps.  Every sum, every suffix and
every field is guarded, also where the loader would go on with a status of its
own; only what the file can get wrong is an error.

* `parse_eq` — no file stops the parser, and it answers as the one that runs;
* `sectionAt_eq` — every section of the table is there.
-/

namespace EfiLoader.Pe.Guarded

open EfiLoader.Guarded

/-! ## parsing in guarded steps -/

/-- Where the signature stands. -/
def locate (source : ByteArray) : Option (Except HeaderError Nat) := do
  if source.size < stubSize then
    return .error .noStub
  let magic ← Bytes.le? source 0 2
  if magic ≠ stubMagic then
    return .error (.stubMagic magic)
  let offset ← Bytes.le? source signatureField 4
  let header ← add offset 4
  let optional ← add header 20
  let stop ← add optional 2
  if source.size < stop then
    return .error (.signatureOffset offset)
  let found ← Bytes.le? source offset 4
  if found ≠ signature then
    return .error (.signature found)
  return .ok offset

/-- The width of the image whose signature stands at `offset`, if it can run
on `platform`. -/
def runnable (source : ByteArray) (offset : Nat) (platform : Platform) :
    Option (Except HeaderError Width) := do
  let header ← suffix source (← add offset 4)
  let machine := UInt16.ofNat (← Bytes.le? header 0 2)
  let characteristics := UInt16.ofNat (← Bytes.le? header 18 2)
  let magic ← Bytes.le? source (← add offset optionalOffset) 2
  if machine ≠ platform.machine then
    return .error (.machine machine platform.machine)
  if characteristics &&& loadableBits = 0 then
    return .error (.notLoadable characteristics)
  if characteristics &&& strippedBit ≠ 0 then
    return .error .stripped
  if characteristics &&& reversedBits ≠ 0 then
    return .error .reversed
  match Width.ofMagic? magic with
  | none => return .error (.optionalMagic magic)
  | some width =>
    if width ≠ platform.width then
      return .error (.width width)
    return .ok width

/-- The fields of the headers whose signature stands at `offset`. -/
def read (source : ByteArray) (offset : Nat) (width : Width) : Option Stored := do
  let header ← suffix source (← add offset 4)
  let optional ← add offset optionalOffset
  let fields ← suffix source optional
  return {
    machine := UInt16.ofNat (← Bytes.le? header 0 2)
    width
    optional
    optionalSize := ← Bytes.le? header 16 2
    sectionCount := ← Bytes.le? header 2 2
    imageBase := UInt64.ofNat (← Bytes.le? fields width.imageBaseOffset width.addressSize)
    entryPoint := ← Bytes.le? fields entryPointOffset 4
    sectionAlignment := ← Bytes.le? fields sectionAlignmentOffset 4
    fileAlignment := ← Bytes.le? fields fileAlignmentOffset 4
    imageSize := ← Bytes.le? fields imageSizeOffset 4
    headersSize := ← Bytes.le? fields headersSizeOffset 4
    subsystem := UInt16.ofNat (← Bytes.le? fields subsystemOffset 2)
    directoryCount := ← Bytes.le? fields width.directoryCountOffset 4 }

/-- The stored fields of an image that can run on `platform`. -/
def find (source : ByteArray) (platform : Platform) : Option (Except HeaderError Stored) := do
  match ← locate source with
  | .error e => return .error e
  | .ok offset =>
    match ← runnable source offset platform with
    | .error e => return .error e
    | .ok width =>
      let fields ← suffix source (← add offset optionalOffset)
      if fields.size < width.fixedSize then
        return .error .optionalTruncated
      let stored ← read source offset width
      if (← rem stored.fileAlignment 2) ≠ 0 then
        return .error (.oddAlignment stored.fileAlignment)
      return .ok stored

/-- Directory entry `index`, if there are so many. -/
def directory (s : Stored) (source : ByteArray) (index : Nat) : Option (Option Directory) := do
  if s.directoryCount ≤ index then
    return none
  let directories ← add s.optional s.width.fixedSize
  let entry ← suffix source (← add directories (← mul index directorySize))
  return some ⟨← Bytes.le? entry 0 4, ← Bytes.le? entry 4 4⟩

/-- Whether a table of `count` section headers at `table` ends before `limit`. -/
def tableFits (table count limit : Nat) : Bool :=
  match sub limit table with
  | none => false
  | some room => decide (count ≤ room / sectionHeaderSize)

/-- The headers with these fields, if the parts of the image fit together. -/
def check (s : Stored) (source : ByteArray) : Option (Except HeaderError Headers) := do
  if maxDirectories < s.directoryCount then
    return .error (.directories s.directoryCount)
  if s.optionalSize ≠ (← add s.width.fixedSize (← mul s.directoryCount directorySize)) then
    return .error (.optionalSize s.optionalSize s.directoryCount)
  if maxSections < s.sectionCount then
    return .error (.sections s.sectionCount)
  let table ← add s.optional s.optionalSize
  if !tableFits table s.sectionCount s.imageSize then
    return .error .tableOutsideImage
  if !tableFits table s.sectionCount s.headersSize then
    return .error .tableOutsideHeaders
  if s.imageSize < s.headersSize then
    return .error .headersOutsideImage
  if source.size < s.headersSize then
    return .error (.headersOutsideFile s.headersSize source.size)
  return .ok {
    machine := s.machine
    width := s.width
    imageBase := s.imageBase
    entryPoint := s.entryPoint
    imageSize := s.imageSize
    headersSize := s.headersSize
    sectionCount := s.sectionCount
    sectionAlignment := s.effectiveSectionAlignment
    fileAlignment := s.contentAlignment
    subsystem := s.subsystem
    directoryCount := s.directoryCount
    sectionTable := table
    relocationDirectory := ← directory s source relocationIndex
    resourceDirectory := ← directory s source resourceIndex }

/-- The headers of an image that can run on `platform`. -/
def parse (source : ByteArray) (platform : Platform) : Option (Except HeaderError Headers) := do
  match ← find source platform with
  | .error e => return .error e
  | .ok stored => check stored source

/-- The section header whose bytes are the first of `entry`. -/
def sectionHeader (entry : ByteArray) : Option SectionHeader := do
  let name ← slice entry 0 sectionNameSize
  return {
    name := name.data.toList.takeWhile (· != 0)
    virtualSize := ← Bytes.le? entry 8 4
    virtualAddress := ← Bytes.le? entry 12 4
    rawSize := ← Bytes.le? entry 16 4
    rawPointer := ← Bytes.le? entry 20 4
    flags := UInt32.ofNat (← Bytes.le? entry 36 4) }

/-- Section header `index`. -/
def sectionAt (h : Headers) (source : ByteArray) (index : Nat) : Option SectionHeader := do
  sectionHeader (← suffix source (← add (← mul index sectionHeaderSize) h.sectionTable))

/-! ## no step stops -/

theorem locate_eq (source : ByteArray) : locate source = some (Stored.locate source) := by
  have hoffset := Bytes.leNat_lt source signatureField 4
  unfold locate Stored.locate
  apply checked Iff.rfl
  intro hstub
  simp only [stubSize, signatureField] at hstub hoffset ⊢
  apply step (le?_eq (by omega))
  apply checked Iff.rfl
  intro _
  apply step (le?_eq (by omega))
  apply step (add_eq (by omega))
  apply step (add_eq (by omega))
  apply step (add_eq (by omega))
  apply checked Iff.rfl
  intro hroom
  apply step (le?_eq (by omega))
  apply checked Iff.rfl
  intro _
  rfl

/-- The signature has been found, so the file header and the magic number are
in the file. -/
structure Located (source : ByteArray) (offset : Nat) : Prop where
  room : offset + 26 ≤ source.size
  offset_lt : offset < 2 ^ 32

variable {source : ByteArray} {offset : Nat} {platform : Platform}

theorem located_of_locate (h : Stored.locate source = .ok offset) : Located source offset := by
  obtain ⟨hs, rfl⟩ := locate_eq_ok_iff.mp h
  exact ⟨hs.room, Bytes.leNat_lt source _ 4⟩

theorem runnable_eq (hl : Located source offset) :
    runnable source offset platform = some (Stored.runnable source offset platform) := by
  have hroom := hl.room
  have hoffset := hl.offset_lt
  unfold runnable Stored.runnable
  apply step (add_eq (by omega))
  apply step (suffix_eq (by omega))
  apply step (le?_drop_eq (by omega))
  apply step (le?_drop_eq (by omega))
  simp only [optionalOffset]
  apply step (add_eq (by omega))
  apply step (le?_eq (by omega))
  apply checked Iff.rfl
  intro _
  apply checked Iff.rfl
  intro _
  apply checked Iff.rfl
  intro _
  apply checked Iff.rfl
  intro _
  cases Width.ofMagic? (Bytes.leNat source (offset + 24) 2) with
  | none => rfl
  | some width =>
    apply checked Iff.rfl
    intro _
    rfl

theorem read_eq (hl : Located source offset) {width : Width}
    (hfields : offset + 24 + width.fixedSize ≤ source.size) :
    read source offset width = some (Stored.read source offset width) := by
  have hroom := hl.room
  have hoffset := hl.offset_lt
  have hsize : 96 ≤ width.fixedSize := by
    cases width with
    | bits32 => exact Nat.le_refl 96
    | bits64 => exact Nat.le_of_ble_eq_true rfl
  have hbase : width.imageBaseOffset + width.addressSize ≤ 32 := by
    cases width with
    | bits32 => exact Nat.le_refl 32
    | bits64 => exact Nat.le_refl 32
  unfold read
  simp only [optionalOffset, entryPointOffset, sectionAlignmentOffset, fileAlignmentOffset,
    imageSizeOffset, headersSizeOffset, subsystemOffset, Width.directoryCountOffset]
  apply step (add_eq (by omega))
  apply step (suffix_eq (by omega))
  apply step (add_eq (by omega))
  apply step (suffix_eq (by omega))
  iterate 11 apply step (le?_drop_eq (by omega))
  rfl

/-- The fields of the headers have been found. -/
structure Found (source : ByteArray) (s : Stored) : Prop where
  optional : s.optional + s.width.fixedSize ≤ source.size
  optional_lt : s.optional < 2 ^ 33
  optionalSize_lt : s.optionalSize < 2 ^ 16
  directoryCount_lt : s.directoryCount < 2 ^ 32

theorem found_of_read (hl : Located source offset) {width : Width}
    (hfields : offset + 24 + width.fixedSize ≤ source.size) :
    Found source (Stored.read source offset width) where
  optional := hfields
  optional_lt := by
    have hoffset := hl.offset_lt
    simp only [Stored.read, optionalOffset]
    omega
  optionalSize_lt := Bytes.leNat_lt source _ 2
  directoryCount_lt := Bytes.leNat_lt source _ 4

theorem find_eq (source : ByteArray) (platform : Platform) :
    find source platform = some (Stored.find source platform) := by
  unfold find Stored.find
  apply step (locate_eq source)
  cases hlocate : Stored.locate source with
  | error e => rfl
  | ok offset =>
    have hl := located_of_locate hlocate
    have hroom := hl.room
    have hoffset := hl.offset_lt
    apply step (runnable_eq hl)
    rw [ok_bind]
    cases hrunnable : Stored.runnable source offset platform with
    | error e => rfl
    | ok width =>
      dsimp only
      rw [ok_bind]
      simp only [optionalOffset]
      apply step (add_eq (by omega))
      apply step (suffix_eq (by omega))
      have hoptional : (Stored.read source offset width).optional = offset + 24 := rfl
      apply checked (by rw [Bytes.size_drop, hoptional]; omega)
      intro hfields
      rw [hoptional, Nat.not_lt] at hfields
      apply step (read_eq hl hfields)
      apply step (rem_eq (by decide))
      apply checked Iff.rfl
      intro _
      rfl

theorem found_of_find {s : Stored} (h : Stored.find source platform = .ok s) : Found source s := by
  unfold Stored.find at h
  obtain ⟨offset, hlocate, h⟩ := bind_eq_ok_iff.mp h
  obtain ⟨width, _, h⟩ := bind_eq_ok_iff.mp h
  simp only [ite_throw_eq_ok_iff] at h
  obtain ⟨hfields, _, h⟩ := h
  cases h
  exact found_of_read (located_of_locate hlocate) (Nat.not_lt.mp hfields)

theorem tableFits_iff {table count limit : Nat} :
    tableFits table count limit ↔ table + count * sectionHeaderSize ≤ limit := by
  unfold tableFits
  by_cases h : table ≤ limit
  · rw [sub_eq h]
    dsimp only
    rw [decide_eq_true_iff]
    simp only [sectionHeaderSize]
    omega
  · have hnone : sub limit table = none := if_neg h
    rw [hnone]
    simp only [Bool.false_eq_true, false_iff]
    omega

theorem directory_eq {s : Stored} (hf : Found source s) {index : Nat}
    (hdirectories : s.directoryCount ≤ maxDirectories)
    (htable : s.optional + s.width.fixedSize + s.directoryCount * directorySize ≤ source.size) :
    directory s source index = some (s.directory? source index) := by
  have hoptional := hf.optional_lt
  have hfields := hf.optional
  have hsize : s.width.fixedSize ≤ 112 := by
    cases s.width with
    | bits32 => exact Nat.le_of_ble_eq_true rfl
    | bits64 => exact Nat.le_refl 112
  unfold directory Stored.directory?
  simp only [maxDirectories, directorySize] at hdirectories htable ⊢
  by_cases hindex : s.directoryCount ≤ index
  · rw [if_pos hindex, if_neg (Nat.not_lt.mpr hindex)]
    rfl
  · rw [if_neg hindex, if_pos (Nat.not_le.mp hindex)]
    apply step (add_eq (by omega))
    apply step (mul_eq (by omega))
    apply step (add_eq (by omega))
    apply step (suffix_eq (by omega))
    apply step (le?_drop_eq (by omega))
    apply step (le?_drop_eq (by omega))
    rfl

theorem check_eq {s : Stored} (hf : Found source s) :
    check s source = some (s.check source) := by
  have hoptional := hf.optional_lt
  have hoptionalLt := hf.optionalSize_lt
  have hcount := hf.directoryCount_lt
  have hsize : s.width.fixedSize ≤ 112 := by
    cases s.width with
    | bits32 => exact Nat.le_of_ble_eq_true rfl
    | bits64 => exact Nat.le_refl 112
  unfold check Stored.check
  apply checked Iff.rfl
  intro hdirectories
  rw [Nat.not_lt] at hdirectories
  apply step (mul_eq (by simp only [directorySize]; omega))
  apply step (add_eq (by simp only [directorySize]; omega))
  apply checked Iff.rfl
  intro hoptionalSize
  rw [Decidable.not_not] at hoptionalSize
  apply checked Iff.rfl
  intro _
  apply step (add_eq (by omega))
  have hfits (limit : Nat) : (!tableFits (s.optional + s.optionalSize) s.sectionCount limit) ↔
      limit < s.sectionTableEnd := by
    rw [Bool.not_eq_true', ← Bool.not_eq_true, tableFits_iff, Nat.not_le]
    rfl
  apply checked (hfits s.imageSize)
  intro _
  apply checked (hfits s.headersSize)
  intro htable
  apply checked Iff.rfl
  intro _
  apply checked Iff.rfl
  intro hfile
  have hend : s.optional + s.width.fixedSize + s.directoryCount * directorySize ≤ source.size := by
    simp only [Stored.sectionTableEnd, Stored.sectionTable] at htable
    omega
  apply step (directory_eq hf hdirectories hend)
  apply step (directory_eq hf hdirectories hend)
  rfl

/-- **Headers are read without a stop**: the guarded parser answers for every
file as the one that runs. -/
theorem parse_eq (source : ByteArray) (platform : Platform) :
    parse source platform = some (Headers.parse source platform) := by
  unfold parse Headers.parse
  apply step (find_eq source platform)
  cases hfind : Stored.find source platform with
  | error e => rfl
  | ok s => exact check_eq (found_of_find hfind)

/-! ## sections -/

theorem sectionHeader_eq {off : Nat} (h : off + 40 ≤ source.size) :
    sectionHeader (Bytes.drop source off) = some (SectionHeader.read source off) := by
  have hname : slice (Bytes.drop source off) 0 sectionNameSize =
      some (source.extract off (off + sectionNameSize)) := by
    rw [slice_eq (Nat.zero_le _), Bytes.extract_drop, Nat.add_zero]
    rw [Bytes.size_drop, sectionNameSize]
    omega
  unfold sectionHeader
  apply step hname
  iterate 5 apply step (le?_drop_eq (by omega))
  rfl

/-- Every section of the table is there. -/
theorem sectionAt_eq {h : Headers} (hf : h.Fits source) {index : Nat}
    (hindex : index < h.sectionCount) :
    ∃ s, h.sectionAt? source index = some s ∧ sectionAt h source index = some s := by
  have htable := hf.table
  have hfile := hf.file
  have himage := hf.image
  have hlimit := hf.imageSize_lt
  simp only [sectionHeaderSize] at htable
  refine ⟨SectionHeader.read source (h.sectionTable + index * 40), ?_, ?_⟩
  · unfold Headers.sectionAt?
    exact if_pos (by simp only [sectionHeaderSize]; omega)
  · unfold sectionAt
    simp only [sectionHeaderSize]
    apply step (mul_eq (by omega))
    apply step (add_eq (by omega))
    apply step (suffix_eq (by omega))
    rw [Nat.add_comm]
    exact sectionHeader_eq (by omega)

end EfiLoader.Pe.Guarded
