import EfiLoader.Proofs.Pe.Builder.File
import EfiLoader.Proofs.Pe.Extent

/-!
# EfiLoader.Proofs.Pe.Builder.Headers

What parsing finds in the file of an image that is made.

* `written` — the headers as the file has them, with the numbers cut to the
  widths of their fields;
* `Acceptable` — the images whose files have headers for a platform;
* `parse_file_eq_ok_iff` — parsing answers what is written, for these images only;
* `parse_file_of_regular` — the headers and sections of regular images are read
  back as they are described.
-/

namespace EfiLoader.Pe.Builder

open Bytes (Stands leNat)

variable {b : Builder} {s : NewSection} {i : Nat} {platform : Platform} {h : Headers}

/-! ## what is written -/

/-- The number of directories as declared. -/
def directoryTotal (b : Builder) : Nat :=
  (b.directoryCount.getD (UInt32.ofNat maxDirectories)).toNat

/-- Directory entry `index`, if so many are declared. -/
def directory? (b : Builder) (index : Nat) : Option Directory :=
  if index < b.directoryTotal then
    b.directories[index]?.map fun d => ⟨d.1.toNat, d.2.toNat⟩
  else
    none

/-- The section alignment in force. -/
def effectiveSectionAlignment (b : Builder) : Nat :=
  if b.sectionAlignment = 0 then max b.effectiveAlignment 4096 else b.sectionAlignment.toNat

/-- The headers that the file has.  Numbers that are too large for their fields
have lost their upper bits. -/
def written (b : Builder) : Headers where
  machine := b.machine
  width := b.width
  imageBase := UInt64.ofNat (b.imageBase.toNat % 256 ^ b.width.addressSize)
  entryPoint := b.entryPoint.toNat
  imageSize := b.imageSize.toNat
  headersSize := b.headersSize.toNat
  sectionCount := b.sections.length % 2 ^ 16
  sectionAlignment := b.effectiveSectionAlignment
  fileAlignment := b.effectiveAlignment
  subsystem := b.subsystem
  directoryCount := b.directoryTotal
  sectionTable := b.tableStart
  relocationDirectory := b.directory? relocationIndex
  resourceDirectory := b.directory? resourceIndex

/-- Images whose files are accepted on a platform. -/
@[mk_iff] structure Acceptable (b : Builder) (platform : Platform) : Prop where
  machine : b.machine = platform.machine
  width : b.width = platform.width
  loadable : b.characteristics &&& loadableBits ≠ 0
  relocatable : b.characteristics &&& strippedBit = 0
  littleEndian : b.characteristics &&& reversedBits = 0
  alignment : b.fileAlignment.toNat % 2 = 0
  directories : b.directoryTotal ≤ maxDirectories
  optionalSize : b.declaredOptionalSize = b.width.fixedSize + b.directoryTotal * directorySize
  sections : b.sections.length % 2 ^ 16 ≤ maxSections
  table : b.tableStart + b.sections.length % 2 ^ 16 * sectionHeaderSize ≤ b.headersSize.toNat
  headers : b.headersSize.toNat ≤ b.imageSize.toNat

instance (b : Builder) (platform : Platform) : Decidable (b.Acceptable platform) :=
  decidable_of_iff _ (acceptable_iff b platform).symm

/-! ## fields that are read -/

theorem declaredOptionalSize_lt (b : Builder) : b.declaredOptionalSize < 2 ^ 16 := by
  unfold declaredOptionalSize
  cases b.optionalSize with
  | some n => exact n.toNat_lt
  | none =>
    rw [fullOptionalSize]
    cases b.width
    · decide
    · decide

section
variable (hclear : b.Clear)
include hclear

theorem stub_file : Stands b.file 0 (Bytes.le 2 stubMagic) := by
  have hstart : 88 ≤ b.tableStart := b.optionalStart_le_tableStart
  refine hclear.stands b.stands_frame_stub ?_
  rw [Bytes.size_le, tableEnd]
  omega

/-- The stub points at the signature. -/
theorem offset_file : Declared.offset b.file = signatureOffset := by
  have hend : signatureField + (Bytes.le 4 signatureOffset).size ≤ b.tableEnd := by
    have hstart : optionalStart ≤ b.tableEnd :=
      Nat.le_trans b.optionalStart_le_tableStart (Nat.le_add_right _ _)
    rw [Bytes.size_le]
    exact Nat.le_trans (by decide) hstart
  exact (hclear.stands b.stands_frame_signatureField hend).leNat_eq

variable (hdirs : b.directories.length = maxDirectories)
include hdirs

/-- The number in a piece of the headers is read in its place. -/
theorem leNat_fixedPart (i off : Nat) {len n : Nat}
    (hpart : b.fixedParts[i]? = some (Bytes.le len n))
    (hoff : ((fixedSizes b.width).take i).sum = off)
    (hend : signatureOffset + off + len ≤ b.tableStart) :
    leNat b.file (signatureOffset + off) len = n % 256 ^ len := by
  have hstands := stands_fixedPart hpart
  rw [hoff] at hstands
  exact (hclear.stands_header hdirs hstands (by simpa using hend)).leNat_eq

theorem signed_file : Signed b.file := by
  have hstart : 88 ≤ b.tableStart := b.optionalStart_le_tableStart
  have hdirectories : 128 ≤ b.fullOptionalSize := Nat.le_add_left 128 _
  have hlarge : 184 ≤ b.file.size := by
    rw [size_file]
    refine Nat.le_trans ?_ (Nat.le_trans b.fullOptional_le_headersEnd b.headersEnd_le_fileSize)
    exact Nat.add_le_add (by decide : 56 ≤ optionalStart) hdirectories
  have hsignature : leNat b.file (signatureOffset + 0) 4 = signature % 256 ^ 4 :=
    leNat_fixedPart hclear hdirs 0 0 rfl rfl (Nat.le_trans (by decide) hstart)
  refine ⟨by omega, (leNat_eq_stubMagic_iff b.file).mp (stub_file hclear).leNat_eq, ?_, ?_⟩
  · rw [offset_file hclear]
    exact Nat.le_trans (by decide) hlarge
  · rw [offset_file hclear]
    exact hsignature

/-! ### the file header -/

theorem machine_file : leNat b.file (Declared.offset b.file + 4) 2 = b.machine.toNat := by
  rw [offset_file hclear]
  exact (leNat_fixedPart hclear hdirs 1 4 rfl rfl
    (Nat.le_trans (by decide) b.optionalStart_le_tableStart)).trans
      (Nat.mod_eq_of_lt b.machine.toNat_lt)

theorem sectionCount_file : Declared.sectionCount b.file = b.sections.length % 2 ^ 16 := by
  rw [Declared.sectionCount, offset_file hclear]
  exact leNat_fixedPart hclear hdirs 2 6 rfl rfl
    (Nat.le_trans (by decide) b.optionalStart_le_tableStart)

theorem optionalSize_file : Declared.optionalSize b.file = b.declaredOptionalSize := by
  rw [Declared.optionalSize, offset_file hclear]
  exact (leNat_fixedPart hclear hdirs 4 20 rfl rfl
    (Nat.le_trans (by decide) b.optionalStart_le_tableStart)).trans
      (Nat.mod_eq_of_lt b.declaredOptionalSize_lt)

theorem characteristics_file : Declared.characteristics b.file = b.characteristics.toNat := by
  rw [Declared.characteristics, offset_file hclear]
  exact (leNat_fixedPart hclear hdirs 5 22 rfl rfl
    (Nat.le_trans (by decide) b.optionalStart_le_tableStart)).trans
      (Nat.mod_eq_of_lt b.characteristics.toNat_lt)

theorem magic_file (hroom : 2 ≤ b.declaredOptionalSize) :
    Declared.magic b.file = b.width.magic := by
  have hlt : b.width.magic < 256 ^ 2 := by
    cases b.width
    · decide
    · decide
  rw [Declared.magic, offset_file hclear]
  exact (leNat_fixedPart hclear hdirs 6 24 rfl rfl
    (Nat.add_le_add_left hroom optionalStart)).trans (Nat.mod_eq_of_lt hlt)

theorem tableEnd_file :
    Declared.tableEnd b.file =
      b.tableStart + b.sections.length % 2 ^ 16 * sectionHeaderSize := by
  rw [Declared.tableEnd, offset_file hclear, optionalSize_file hclear hdirs,
    sectionCount_file hclear hdirs, Nat.mul_comm 40]
  rfl

/-! ### the optional header -/

variable (hfixed : b.width.fixedSize ≤ b.declaredOptionalSize)
include hfixed

theorem leNat_optional (i off : Nat) {len n : Nat}
    (hpart : b.fixedParts[i]? = some (Bytes.le len n))
    (hoff : ((fixedSizes b.width).take i).sum = optionalOffset + off)
    (hend : off + len ≤ b.width.fixedSize) :
    leNat b.file (Declared.offset b.file + 24 + off) len = n % 256 ^ len := by
  have hread := leNat_fixedPart hclear hdirs i (optionalOffset + off) hpart hoff (by
    rw [tableStart, optionalStart]
    omega)
  rwa [offset_file hclear, Nat.add_assoc]

theorem imageBase_file :
    Declared.imageBase b.file b.width = b.imageBase.toNat % 256 ^ b.width.addressSize := by
  have hread : leNat b.file (Declared.offset b.file + 24 + b.width.imageBaseOffset)
      b.width.addressSize = _ :=
    leNat_optional hclear hdirs hfixed 11 b.width.imageBaseOffset rfl
      (by cases b.width <;> rfl) (by cases b.width <;> decide)
  cases hw : b.width with
  | bits32 =>
    rw [hw] at hread
    exact hread
  | bits64 =>
    rw [hw] at hread
    exact hread

theorem entryPoint_file :
    leNat b.file (Declared.offset b.file + 24 + 16) 4 = b.entryPoint.toNat :=
  (leNat_optional hclear hdirs hfixed 9 16 rfl rfl (by cases b.width <;> decide)).trans
    (Nat.mod_eq_of_lt b.entryPoint.toNat_lt)

theorem sectionAlignment_file : Declared.sectionAlignment b.file = b.sectionAlignment.toNat :=
  (leNat_optional hclear hdirs hfixed 12 32 rfl (by cases b.width <;> rfl)
    (by cases b.width <;> decide)).trans (Nat.mod_eq_of_lt b.sectionAlignment.toNat_lt)

theorem fileAlignment_file : Declared.fileAlignment b.file = b.fileAlignment.toNat :=
  (leNat_optional hclear hdirs hfixed 13 36 rfl (by cases b.width <;> rfl)
    (by cases b.width <;> decide)).trans (Nat.mod_eq_of_lt b.fileAlignment.toNat_lt)

theorem imageSize_file : Declared.imageSize b.file = b.imageSize.toNat :=
  (leNat_optional hclear hdirs hfixed 15 56 rfl (by cases b.width <;> rfl)
    (by cases b.width <;> decide)).trans (Nat.mod_eq_of_lt b.imageSize.toNat_lt)

theorem headersSize_file : Declared.headersSize b.file = b.headersSize.toNat :=
  (leNat_optional hclear hdirs hfixed 16 60 rfl (by cases b.width <;> rfl)
    (by cases b.width <;> decide)).trans (Nat.mod_eq_of_lt b.headersSize.toNat_lt)

theorem subsystem_file :
    leNat b.file (Declared.offset b.file + 24 + 68) 2 = b.subsystem.toNat :=
  (leNat_optional hclear hdirs hfixed 18 68 rfl (by cases b.width <;> rfl)
    (by cases b.width <;> decide)).trans (Nat.mod_eq_of_lt b.subsystem.toNat_lt)

theorem directoryCount_file : Declared.directoryCount b.file b.width = b.directoryTotal := by
  have hread : leNat b.file (Declared.offset b.file + 24 + b.width.directoryCountOffset) 4 =
      b.directoryTotal :=
    (leNat_optional hclear hdirs hfixed 21 b.width.directoryCountOffset rfl
      (by cases b.width <;> rfl) (by cases b.width <;> decide)).trans
        (Nat.mod_eq_of_lt (UInt32.toNat_lt _))
  cases hw : b.width with
  | bits32 =>
    rw [hw] at hread
    exact hread
  | bits64 =>
    rw [hw] at hread
    exact hread

/-- Directories are read as they are described, if there is room for them. -/
theorem directory_file
    (hroom : b.width.fixedSize + b.directoryTotal * directorySize ≤ b.declaredOptionalSize)
    {index : Nat} (hindex : index < maxDirectories) :
    Declared.directory b.file b.width index = b.directory? index := by
  rw [Declared.directory, directory?, directoryCount_file hclear hdirs hfixed]
  by_cases hdeclared : index < b.directoryTotal
  · rw [if_pos hdeclared, if_pos hdeclared]
    have hd : b.directories[index]? = some b.directories[index] := List.getElem?_eq_getElem _
    have hentry : (index + 1) * directorySize ≤ b.directoryTotal * directorySize :=
      Nat.mul_le_mul_right _ hdeclared
    have hstands := hclear.stands_header hdirs (stands_directory hd) (by
      rw [ByteArray.size_append, Bytes.ofU32, Bytes.ofU32, Bytes.size_le, Bytes.size_le, tableStart,
        optionalStart]
      rw [Nat.succ_mul] at hentry
      simp only [directorySize] at hentry hroom ⊢
      omega)
    generalize b.directories[index] = d at hd hstands
    have hplace : signatureOffset + 24 + b.width.fixedSize + 8 * index =
        signatureOffset + (optionalOffset + b.width.fixedSize + index * directorySize) := by
      simp only [optionalOffset, directorySize]
      omega
    have hword : (Bytes.ofU32 d.1).size = 4 := Bytes.size_le 4 _
    have haddress := (hstands.trans (Bytes.stands_append_left _ _)).leNat_ofU32
    have hsize := (hstands.trans (Bytes.stands_append_right _ _)).leNat_ofU32
    rw [Nat.add_zero] at haddress
    rw [hword] at hsize
    rw [hd, offset_file hclear, ← fixedSize_eq, hplace]
    simp only [haddress, hsize, Option.map_some]
  · rw [if_neg hdeclared, if_neg hdeclared]

/-- What is declared in the file is what has been written. -/
theorem declared_file
    (hroom : b.width.fixedSize + b.directoryTotal * directorySize ≤ b.declaredOptionalSize) :
    declared b.file b.width = b.written := by
  have hmachine := machine_file hclear hdirs
  have hsubsystem := subsystem_file hclear hdirs hfixed
  have htable : Declared.offset b.file + 24 + b.declaredOptionalSize = b.tableStart := by
    rw [offset_file hclear]
    rfl
  have halign : (if b.fileAlignment.toNat = 0 then 0x200 else b.fileAlignment.toNat) =
      b.effectiveAlignment := by
    simp [effectiveAlignment, ← UInt32.toNat_inj]
  have hsection : (if b.sectionAlignment.toNat = 0 then max b.effectiveAlignment 4096
      else b.sectionAlignment.toNat) = b.effectiveSectionAlignment := by
    simp [effectiveSectionAlignment, ← UInt32.toNat_inj]
  simp only [declared, hmachine, hsubsystem, entryPoint_file hclear hdirs hfixed,
    imageBase_file hclear hdirs hfixed, sectionAlignment_file hclear hdirs hfixed,
    fileAlignment_file hclear hdirs hfixed, imageSize_file hclear hdirs hfixed,
    headersSize_file hclear hdirs hfixed, directoryCount_file hclear hdirs hfixed,
    sectionCount_file hclear hdirs, optionalSize_file hclear hdirs, htable,
    directory_file hclear hdirs hfixed hroom (by decide : 5 < maxDirectories),
    directory_file hclear hdirs hfixed hroom (by decide : 2 < maxDirectories),
    UInt16.ofNat_toNat, halign, hsection]
  rfl

/-! ## acceptance -/

theorem runnable_file_iff :
    Runnable b.file platform ↔
      b.machine = platform.machine ∧ b.characteristics &&& loadableBits ≠ 0 ∧
        b.characteristics &&& strippedBit = 0 ∧ b.characteristics &&& reversedBits = 0 ∧
        b.width = platform.width := by
  have hbits : ∀ mask : UInt16, b.characteristics &&& mask = 0 ↔
      b.characteristics.toNat &&& mask.toNat = 0 := fun mask => by
    rw [← UInt16.toNat_inj, UInt16.toNat_and]
    rfl
  have hwidth : b.width = platform.width ↔
      b.width.magic = 0x10B ∧ platform.width = .bits32 ∨
        b.width.magic = 0x20B ∧ platform.width = .bits64 := by
    rw [← ofMagic?_eq_some_iff, Width.ofMagic?_magic, Option.some.injEq]
  have hroom : 2 ≤ b.declaredOptionalSize := by
    refine Nat.le_trans ?_ hfixed
    cases b.width
    · decide
    · decide
  rw [runnable_iff, machine_file hclear hdirs, characteristics_file hclear hdirs,
    magic_file hclear hdirs hroom, ← hwidth, UInt16.toNat_inj, ne_eq, ne_eq, hbits, hbits, hbits]
  rfl

theorem consistent_file_iff :
    Consistent b.file b.width ↔
      b.fileAlignment.toNat % 2 = 0 ∧ b.directoryTotal ≤ maxDirectories ∧
        b.declaredOptionalSize = b.width.fixedSize + b.directoryTotal * directorySize ∧
        b.sections.length % 2 ^ 16 ≤ maxSections ∧
        b.tableStart + b.sections.length % 2 ^ 16 * sectionHeaderSize ≤ b.headersSize.toNat ∧
        b.headersSize.toNat ≤ b.imageSize.toNat := by
  have hsize : optionalStart + b.width.fixedSize ≤ b.file.size := by
    rw [size_file]
    refine Nat.le_trans ?_ (Nat.le_trans b.fullOptional_le_headersEnd b.headersEnd_le_fileSize)
    exact Nat.add_le_add_left (Nat.le_add_right _ _) _
  have hfile : b.headersSize.toNat ≤ b.file.size := by
    rw [size_file]
    exact Nat.le_trans b.headersSize_le_headersEnd b.headersEnd_le_fileSize
  rw [consistent_iff, fileAlignment_file hclear hdirs hfixed,
    directoryCount_file hclear hdirs hfixed, optionalSize_file hclear hdirs,
    sectionCount_file hclear hdirs, tableEnd_file hclear hdirs,
    headersSize_file hclear hdirs hfixed, imageSize_file hclear hdirs hfixed, offset_file hclear,
    ← fixedSize_eq, Nat.mul_comm 8]
  constructor
  · rintro ⟨-, heven, htotal, hoptional, hsections, htable, hheaders⟩
    exact ⟨heven, htotal, hoptional, hsections, htable, (Nat.le_min.mp hheaders).1⟩
  · rintro ⟨heven, htotal, hoptional, hsections, htable, hheaders⟩
    exact ⟨hsize, heven, htotal, hoptional, hsections, htable, Nat.le_min.mpr ⟨hheaders, hfile⟩⟩

omit hfixed in
/-- **What is written is parsed**: the file of an image is accepted on a
platform exactly if the image is made for it and its parts fit together, and the
headers are then those that have been written. -/
theorem parse_file_eq_ok_iff :
    Headers.parse b.file platform = .ok h ↔ b.Acceptable platform ∧ h = b.written := by
  have hsigned := signed_file hclear hdirs
  constructor
  · intro hp
    obtain ⟨hconsistent, hdeclared⟩ := declared_of_parse hp
    have hrunnable : Runnable b.file platform := by
      by_contra hnot
      obtain ⟨e, he, -⟩ := parse_of_not_runnable hsigned hnot
      rw [he] at hp
      cases hp
    -- the optional header has to be as long as that of the platform, which shows its magic number
    have hoptional := hconsistent.optionalSize
    rw [optionalSize_file hclear hdirs] at hoptional
    have hleast := le_fixedSize platform.width
    have hwidth : b.width = platform.width := by
      have hmagic := hrunnable.width
      rw [magic_file hclear hdirs (by omega), ← ofMagic?_eq_some_iff, Width.ofMagic?_magic]
        at hmagic
      exact Option.some.inj hmagic
    rw [← hwidth] at hconsistent hdeclared hoptional
    have hfixed : b.width.fixedSize ≤ b.declaredOptionalSize := by
      rw [hoptional, fixedSize_eq]
      exact Nat.le_add_right _ _
    obtain ⟨hmachine, hloadable, hrelocatable, horder, -⟩ :=
      (runnable_file_iff hclear hdirs hfixed).mp hrunnable
    obtain ⟨heven, htotal, hsize, hsections, htable, hheaders⟩ :=
      (consistent_file_iff hclear hdirs hfixed).mp hconsistent
    rw [declared_file hclear hdirs hfixed (Nat.le_of_eq hsize.symm)] at hdeclared
    exact ⟨⟨hmachine, hwidth, hloadable, hrelocatable, horder, heven, htotal, hsize, hsections,
      htable, hheaders⟩, hdeclared⟩
  · rintro ⟨ha, rfl⟩
    have hfixed : b.width.fixedSize ≤ b.declaredOptionalSize := by
      rw [ha.optionalSize]
      exact Nat.le_add_right _ _
    have hrunnable : Runnable b.file platform := (runnable_file_iff hclear hdirs hfixed).mpr
      ⟨ha.machine, ha.loadable, ha.relocatable, ha.littleEndian, ha.width⟩
    have hconsistent : Consistent b.file b.width := (consistent_file_iff hclear hdirs hfixed).mpr
      ⟨ha.alignment, ha.directories, ha.optionalSize, ha.sections, ha.table, ha.headers⟩
    refine (parse_eq_ok_iff hsigned hrunnable).mpr ?_
    rw [← ha.width, declared_file hclear hdirs hfixed (Nat.le_of_eq ha.optionalSize.symm)]
    exact ⟨hconsistent, rfl⟩

end

/-! ## section headers -/

/-- The name that the header of the section has. -/
def storedName (s : NewSection) : List UInt8 := s.nameField.data.toList.takeWhile (· != 0)

/-- The header of a section with this extent. -/
def sectionHeader (s : NewSection) (e : Extent) : SectionHeader where
  name := storedName s
  virtualSize := s.virtualSize.toNat
  virtualAddress := s.virtualAddress.toNat
  rawSize := e.size.toNat
  rawPointer := e.pointer.toNat
  flags := s.flags

/-- Names that fit their field are stored whole. -/
theorem storedName_eq (hsize : s.name.toUTF8.size ≤ sectionNameSize)
    (hnul : 0 ∉ sectionName s.name) : storedName s = sectionName s.name := by
  have hfield : s.nameField =
      s.name.toUTF8 ++ Bytes.zeros (sectionNameSize - s.name.toUTF8.size) := by
    rw [NewSection.nameField, Bytes.extract_of_le hsize]
  have hzeros : ∀ n, (Bytes.zeros n).data.toList.takeWhile (· != 0) = [] := fun n => by
    rw [Bytes.zeros, Bytes.data_replicate, Array.toList_replicate]
    cases n
    · rfl
    · rfl
  have hall : ∀ c ∈ sectionName s.name, (c != 0) = true := fun c hc => by
    rw [bne_iff_ne]
    rintro rfl
    exact hnul hc
  rw [storedName, hfield, ByteArray.data_append, Array.toList_append]
  change (sectionName s.name ++ _).takeWhile _ = _
  rw [List.takeWhile_append_of_pos hall, hzeros, List.append_nil]

/-- A section header is read where it stands. -/
theorem read_sectionBytes {source : ByteArray} {off : Nat} {e : Extent}
    (h : Stands source off (sectionBytes s e)) :
    SectionHeader.read source off = sectionHeader s e := by
  have hpart : ∀ k part, [s.nameField, Bytes.ofU32 s.virtualSize, Bytes.ofU32 s.virtualAddress,
      Bytes.ofU32 e.size, Bytes.ofU32 e.pointer, Bytes.zeros 12, Bytes.ofU32 s.flags][k]? =
        some part →
      Stands source (off + (([8, 4, 4, 4, 4, 12, 4].take k).sum)) part := fun k part hk => by
    have hstands := h.trans (Bytes.stands_concat hk)
    rw [List.map_take] at hstands
    simpa [Bytes.ofU32, sectionNameSize] using hstands
  have hname : source.extract off (off + sectionNameSize) = s.nameField := by
    simpa using (hpart 0 _ rfl).extract
  have hsize : Bytes.leNat source (off + 8) 4 = _ := (hpart 1 _ rfl).leNat_ofU32
  have haddress : Bytes.leNat source (off + 12) 4 = _ := (hpart 2 _ rfl).leNat_ofU32
  have hrawSize : Bytes.leNat source (off + 16) 4 = _ := (hpart 3 _ rfl).leNat_ofU32
  have hrawPointer : Bytes.leNat source (off + 20) 4 = _ := (hpart 4 _ rfl).leNat_ofU32
  have hflags : Bytes.leNat source (off + 36) 4 = _ := (hpart 6 _ rfl).leNat_ofU32
  simp only [SectionHeader.read, hname, hsize, haddress, hrawSize, hrawPointer, hflags,
    UInt32.ofNat_toNat]
  rfl

/-- The section headers of the file are those of the sections. -/
theorem sectionAt?_file (hclear : b.Clear) {e : Extent} (hs : b.sections[i]? = some s)
    (he : b.layout[i]? = some e) (htable : h.sectionTable = b.tableStart) :
    h.sectionAt? b.file i = some (sectionHeader s e) := by
  have hstands := hclear.stands_entry hs he
  have hroom := hstands.room
  rw [size_sectionBytes] at hroom
  rw [Headers.sectionAt?, htable, if_pos hroom, read_sectionBytes hstands]

/-! ## the theorem -/

/-- The headers of an image as it is described. -/
def headers (b : Builder) : Headers where
  machine := b.machine
  width := b.width
  imageBase := b.imageBase
  entryPoint := b.entryPoint.toNat
  imageSize := b.imageSize.toNat
  headersSize := b.headersSize.toNat
  sectionCount := b.sections.length
  sectionAlignment := b.effectiveSectionAlignment
  fileAlignment := b.effectiveAlignment
  subsystem := b.subsystem
  directoryCount := 16
  sectionTable := optionalStart + b.fullOptionalSize
  relocationDirectory := b.directories[5]?.map fun d => ⟨d.1.toNat, d.2.toNat⟩
  resourceDirectory := b.directories[2]?.map fun d => ⟨d.1.toNat, d.2.toNat⟩

/-- Images that are made for a platform, without fields that say anything else
than the image is, and with numbers and names that fit their fields. -/
structure Regular (b : Builder) (platform : Platform) : Prop where
  machine : b.machine = platform.machine
  width : b.width = platform.width
  loadable : b.characteristics &&& loadableBits ≠ 0
  relocatable : b.characteristics &&& strippedBit = 0
  littleEndian : b.characteristics &&& reversedBits = 0
  directoryCount : b.directoryCount = none
  optionalSize : b.optionalSize = none
  directories : b.directories.length = maxDirectories
  alignment : b.fileAlignment.toNat % 2 = 0
  imageBase : b.imageBase.toNat < 256 ^ b.width.addressSize
  sequential : b.Sequential
  sections : b.sections.length ≤ maxSections
  names : ∀ s ∈ b.sections, s.name.toUTF8.size ≤ sectionNameSize ∧ 0 ∉ sectionName s.name
  table : b.tableEnd ≤ b.headersSize.toNat
  headers : b.headersSize.toNat ≤ b.imageSize.toNat

namespace Regular

theorem sectionCount_eq (hb : b.Regular platform) :
    b.sections.length % 2 ^ 16 = b.sections.length :=
  Nat.mod_eq_of_lt (Nat.lt_of_le_of_lt hb.sections (by decide))

theorem directoryTotal_eq (hb : b.Regular platform) : b.directoryTotal = maxDirectories := by
  rw [directoryTotal, hb.directoryCount]
  rfl

theorem declaredOptionalSize_eq (hb : b.Regular platform) :
    b.declaredOptionalSize = b.fullOptionalSize := by
  rw [declaredOptionalSize, hb.optionalSize]

theorem acceptable (hb : b.Regular platform) : b.Acceptable platform where
  machine := hb.machine
  width := hb.width
  loadable := hb.loadable
  relocatable := hb.relocatable
  littleEndian := hb.littleEndian
  alignment := hb.alignment
  directories := Nat.le_of_eq hb.directoryTotal_eq
  optionalSize := by
    rw [hb.declaredOptionalSize_eq, hb.directoryTotal_eq]
    rfl
  sections := by
    rw [hb.sectionCount_eq]
    exact hb.sections
  table := by
    rw [hb.sectionCount_eq]
    exact hb.table
  headers := hb.headers

/-- What is written is what has been described. -/
theorem written_eq (hb : b.Regular platform) : b.written = b.headers := by
  have hbase : UInt64.ofNat (b.imageBase.toNat % 256 ^ b.width.addressSize) = b.imageBase := by
    rw [Nat.mod_eq_of_lt hb.imageBase, UInt64.ofNat_toNat]
  have htable : b.tableStart = optionalStart + b.fullOptionalSize := by
    rw [tableStart, hb.declaredOptionalSize_eq]
  have hdirectory : ∀ index < maxDirectories, b.directory? index =
      b.directories[index]?.map fun d => ⟨d.1.toNat, d.2.toNat⟩ := fun index hindex => by
    rw [directory?, hb.directoryTotal_eq, if_pos hindex]
  rw [written, hbase, hb.sectionCount_eq, hb.directoryTotal_eq, htable,
    hdirectory _ (by decide : relocationIndex < maxDirectories),
    hdirectory _ (by decide : resourceIndex < maxDirectories)]
  rfl

end Regular

/-- **Headers are read back**: parsing the file of a regular image answers its
headers, and for every section the name, the addresses and the flags that it has
been given and the extent that the layout assigns.  The bytes there begin with its
data. -/
theorem parse_file_of_regular (hb : b.Regular platform) :
    (Headers.parseNoted b.file platform).value = .ok b.headers ∧
      ∀ i s, b.sections[i]? = some s → ∃ e, b.layout[i]? = some e ∧
        b.headers.sectionAt? b.file i = some {
          name := sectionName s.name
          virtualSize := s.virtualSize.toNat
          virtualAddress := s.virtualAddress.toNat
          rawSize := e.size.toNat
          rawPointer := e.pointer.toNat
          flags := s.flags } ∧
        b.file.extract e.pointer.toNat (e.pointer.toNat + min e.size.toNat s.data.size) =
          s.data.extract 0 e.size.toNat := by
  have hclear := hb.sequential.clear
  have hparse : Headers.parse b.file platform = .ok b.headers :=
    (parse_file_eq_ok_iff hclear hb.directories).mpr ⟨hb.acceptable, hb.written_eq.symm⟩
  refine ⟨by rw [Headers.value_parseNoted, hparse], fun i s hs => ?_⟩
  have he := hb.sequential.layout_getElem? hs
  have htable : b.headers.sectionTable = b.tableStart := by
    rw [tableStart, hb.declaredOptionalSize_eq]
    rfl
  obtain ⟨hsize, hnul⟩ := hb.names s (List.mem_of_getElem? hs)
  refine ⟨_, he, ?_, ?_⟩
  · rw [sectionAt?_file hclear hs he htable, sectionHeader, storedName_eq hsize hnul]
  · have hcontent := size_placedContent (s, b.extent i s)
    by_cases hempty : (placedContent (s, b.extent i s)).2.size = 0
    · have hnone : s.data.extract 0 (b.extent i s).size.toNat = ByteArray.empty :=
        ByteArray.size_eq_zero_iff.mp hempty
      rw [hnone, ← hcontent, hempty, Nat.add_zero, ByteArray.extract_same]
    · have hextract := (hb.sequential.stands_content hs hempty).extract
      have hsame : (s.data.extract 0 (b.extent i s).size.toNat).size =
          min (b.extent i s).size.toNat s.data.size := hcontent
      rwa [hsame] at hextract

/-- A 32-bit image with the usual alignments and a directory of relocations, in
which the data of the second section is cut to two bytes. -/
def cutData : Builder where
  machine := 0x14C
  width := .bits32
  imageBase := 0x400000
  sectionAlignment := 0
  fileAlignment := 0
  directories := (List.replicate 16 (0, 0)).set 5 (0x2000, 12)
  sections := [.text 0x1000 0x20 [0xC3].toByteArray,
    { name := ".data", virtualAddress := 0x2000, virtualSize := 0x10
      data := [1, 2, 3].toByteArray, rawSize := some 2 }]

theorem regular_cutData : cutData.Regular ⟨0x14C, .bits32⟩ where
  machine := rfl
  width := rfl
  loadable := by decide
  relocatable := by decide
  littleEndian := by decide
  directoryCount := rfl
  optionalSize := rfl
  directories := rfl
  alignment := rfl
  imageBase := by decide
  sequential := .of_lt (by decide) (by decide)
  sections := by decide
  names := by decide
  table := by decide
  headers := by decide

/-- It is read back with the alignments that zeros stand for, and the second
section with the two bytes it has. -/
theorem parse_file_of_regular_cutData :
    (Headers.parseNoted cutData.file ⟨0x14C, .bits32⟩).value = .ok cutData.headers ∧
      cutData.headers.sectionAlignment = 4096 ∧ cutData.headers.fileAlignment = 512 ∧
      cutData.headers.relocationDirectory = some ⟨0x2000, 12⟩ ∧
      cutData.headers.sectionAt? cutData.file 1 =
        some ⟨sectionName ".data", 0x10, 0x2000, 2, 0x600, 0xC0000040⟩ ∧
      cutData.file.extract 0x600 0x602 = [1, 2].toByteArray := by
  obtain ⟨hparse, hsections⟩ := parse_file_of_regular regular_cutData
  obtain ⟨e, he, hheader, hdata⟩ := hsections 1 _ rfl
  have hextent : cutData.layout[1]? = some ⟨0x600, 2⟩ := by decide
  rw [hextent] at he
  cases he
  exact ⟨hparse, by decide, by decide, by decide, hheader, hdata⟩

end EfiLoader.Pe.Builder
