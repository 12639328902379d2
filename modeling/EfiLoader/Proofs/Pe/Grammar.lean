import EfiLoader.Pe.Headers
import EfiLoader.Proofs.Bytes
import EfiLoader.Proofs.Except
import Mathlib.Tactic.MkIffOfInductiveProp

/-!
# EfiLoader.Proofs.Pe.Grammar

Which files have headers, and what those headers say.  The grammar is stated
on the bytes of the file alone, with the offsets of the format written out:

* `Signed` — the stub leads to a signature that is followed by a file header;
* `Runnable` — the file header and the magic number fit the platform;
* `Consistent` — the sizes and counts of the optional header fit together;
* `declared` — the fields, each at its place in the format.

`status_parseNoted_eq` says that parsing is this grammar, with the status of
every refusal.  The three predicates are decidable, so the grammar can be run.
-/

namespace EfiLoader.Pe

/-! ## the grammar -/

namespace Declared

/-- The offset of the signature, from the stub. -/
def offset (source : ByteArray) : Nat := Bytes.leNat source 0x3C 4

/-- The bits that say what kind of image this is. -/
def characteristics (source : ByteArray) : Nat := Bytes.leNat source (offset source + 22) 2

/-- The magic number of the optional header. -/
def magic (source : ByteArray) : Nat := Bytes.leNat source (offset source + 24) 2

/-- The number of sections. -/
def sectionCount (source : ByteArray) : Nat := Bytes.leNat source (offset source + 6) 2

/-- The size of the optional header with its directories. -/
def optionalSize (source : ByteArray) : Nat := Bytes.leNat source (offset source + 20) 2

/-- The file alignment as it is stored. -/
def fileAlignment (source : ByteArray) : Nat := Bytes.leNat source (offset source + 24 + 36) 4

/-- The section alignment as it is stored. -/
def sectionAlignment (source : ByteArray) : Nat := Bytes.leNat source (offset source + 24 + 32) 4

/-- The size of the image in memory. -/
def imageSize (source : ByteArray) : Nat := Bytes.leNat source (offset source + 24 + 56) 4

/-- The size of all headers. -/
def headersSize (source : ByteArray) : Nat := Bytes.leNat source (offset source + 24 + 60) 4

/-- Bytes of the optional header in front of its directories. -/
def fixedSize : Width → Nat
  | .bits32 => 96
  | .bits64 => 112

/-- The address the image would like to have. -/
def imageBase (source : ByteArray) : Width → Nat
  | .bits32 => Bytes.leNat source (offset source + 24 + 28) 4
  | .bits64 => Bytes.leNat source (offset source + 24 + 24) 8

/-- The number of directories. -/
def directoryCount (source : ByteArray) : Width → Nat
  | .bits32 => Bytes.leNat source (offset source + 24 + 92) 4
  | .bits64 => Bytes.leNat source (offset source + 24 + 108) 4

/-- The end of the section table. -/
def tableEnd (source : ByteArray) : Nat :=
  offset source + 24 + optionalSize source + 40 * sectionCount source

/-- The directory with a number, if there are so many. -/
def directory (source : ByteArray) (w : Width) (index : Nat) : Option Directory :=
  if index < directoryCount source w then
    let entry := offset source + 24 + fixedSize w + 8 * index
    some ⟨Bytes.leNat source entry 4, Bytes.leNat source (entry + 4) 4⟩
  else
    none

end Declared

open Declared

/-- The stub leads to a signature, and a file header and the magic number of
an optional header follow it. -/
@[mk_iff] structure Signed (source : ByteArray) : Prop where
  stub : 64 ≤ source.size
  stubMagic : Bytes.byte source 0 = 0x4D ∧ Bytes.byte source 1 = 0x5A
  room : offset source + 26 ≤ source.size
  signature : Bytes.leNat source (offset source) 4 = 0x4550

/-- An image that is signed can run on the platform. -/
@[mk_iff] structure Runnable (source : ByteArray) (platform : Platform) : Prop where
  machine : Bytes.leNat source (offset source + 4) 2 = platform.machine.toNat
  loadable : characteristics source &&& 0x2002 ≠ 0
  relocatable : characteristics source &&& 0x0001 = 0
  littleEndian : characteristics source &&& 0x8080 = 0
  width : magic source = 0x10B ∧ platform.width = .bits32 ∨
    magic source = 0x20B ∧ platform.width = .bits64

/-- The sizes and counts in the headers of an image of width `w` fit together. -/
@[mk_iff] structure Consistent (source : ByteArray) (w : Width) : Prop where
  optional : offset source + 24 + fixedSize w ≤ source.size
  alignment : fileAlignment source % 2 = 0
  directories : directoryCount source w ≤ 16
  optionalSize : optionalSize source = fixedSize w + 8 * directoryCount source w
  sections : sectionCount source ≤ 96
  table : tableEnd source ≤ headersSize source
  headers : headersSize source ≤ min (imageSize source) source.size

instance (source : ByteArray) : Decidable (Signed source) :=
  decidable_of_iff _ (signed_iff source).symm

instance (source : ByteArray) (platform : Platform) : Decidable (Runnable source platform) :=
  decidable_of_iff _ (runnable_iff source platform).symm

instance (source : ByteArray) (w : Width) : Decidable (Consistent source w) :=
  decidable_of_iff _ (consistent_iff source w).symm

/-- The headers of an image of width `w`: every field is the little-endian
number at its place.  A file alignment of 0 stands for 0x200, and a section
alignment of 0 for a page or the file alignment, whichever is more. -/
def declared (source : ByteArray) (w : Width) : Headers :=
  let align := if fileAlignment source = 0 then 0x200 else fileAlignment source
  { machine := UInt16.ofNat (Bytes.leNat source (offset source + 4) 2)
    width := w
    imageBase := UInt64.ofNat (imageBase source w)
    entryPoint := Bytes.leNat source (offset source + 24 + 16) 4
    imageSize := imageSize source
    headersSize := headersSize source
    sectionCount := sectionCount source
    sectionAlignment :=
      if sectionAlignment source = 0 then max align 4096 else sectionAlignment source
    fileAlignment := align
    subsystem := UInt16.ofNat (Bytes.leNat source (offset source + 24 + 68) 2)
    directoryCount := directoryCount source w
    sectionTable := offset source + 24 + optionalSize source
    relocationDirectory := directory source w 5
    resourceDirectory := directory source w 2 }

/-! ## the signature -/

/-- The stub magic number, byte by byte. -/
theorem leNat_eq_stubMagic_iff (source : ByteArray) :
    Bytes.leNat source 0 2 = stubMagic ↔
      Bytes.byte source 0 = 0x4D ∧ Bytes.byte source 1 = 0x5A := by
  have h0 := (Bytes.byte source 0).toNat_lt
  have h1 := (Bytes.byte source 1).toNat_lt
  simp only [Bytes.leNat, stubMagic, ← UInt8.toNat_inj]
  simp
  omega

/-- A signature is found exactly in signed files. -/
theorem locate_eq_ok_iff {source : ByteArray} {p : Nat} :
    Stored.locate source = .ok p ↔ Signed source ∧ p = offset source := by
  simp only [Stored.locate, ite_throw_eq_ok_iff, Decidable.not_not, Nat.not_lt]
  rw [signed_iff, ← leNat_eq_stubMagic_iff]
  constructor
  · rintro ⟨hstub, hmagic, hroom, hsig, hp⟩
    cases hp
    exact ⟨⟨hstub, hmagic, hroom, hsig⟩, rfl⟩
  · rintro ⟨⟨hstub, hmagic, hroom, hsig⟩, rfl⟩
    exact ⟨hstub, hmagic, hroom, hsig, rfl⟩

/-- A file without a signature is damaged. -/
theorem foreign_of_locate_eq_error {source : ByteArray} {e : HeaderError}
    (h : Stored.locate source = .error e) : e.foreign = false := by
  simp only [Stored.locate, ite_throw_eq_error_iff] at h
  rcases h with ⟨_, rfl⟩ | ⟨_, ⟨_, rfl⟩ | ⟨_, ⟨_, rfl⟩ | ⟨_, ⟨_, rfl⟩ | ⟨_, h⟩⟩⟩⟩
  · rfl
  · rfl
  · rfl
  · rfl
  · cases h

/-! ## the platform -/

theorem toNat_ofNat_leNat (source : ByteArray) (off : Nat) :
    (UInt16.ofNat (Bytes.leNat source off 2)).toNat = Bytes.leNat source off 2 := by
  rw [UInt16.toNat_ofNat']
  exact Nat.mod_eq_of_lt (Bytes.leNat_lt source off 2)

/-- A stored 16-bit word is a given one if the numbers are equal. -/
theorem ofNat_leNat_eq_iff (source : ByteArray) (off : Nat) (n : UInt16) :
    UInt16.ofNat (Bytes.leNat source off 2) = n ↔ Bytes.leNat source off 2 = n.toNat := by
  rw [← UInt16.toNat_inj, toNat_ofNat_leNat]

/-- Bits of a stored 16-bit word are bits of the number. -/
theorem ofNat_leNat_and_eq_zero_iff (source : ByteArray) (off : Nat) (mask : UInt16) :
    UInt16.ofNat (Bytes.leNat source off 2) &&& mask = 0 ↔
      Bytes.leNat source off 2 &&& mask.toNat = 0 := by
  rw [← UInt16.toNat_inj, UInt16.toNat_and, toNat_ofNat_leNat]
  rfl

/-- The magic numbers of the two widths. -/
theorem ofMagic?_eq_some_iff (n : Nat) (w : Width) :
    Width.ofMagic? n = some w ↔ n = 0x10B ∧ w = .bits32 ∨ n = 0x20B ∧ w = .bits64 := by
  simp only [Width.ofMagic?, Width.magic]
  by_cases h32 : n = 0x10B
  · cases w <;> simp [h32]
  · by_cases h64 : n = 0x20B
    · cases w <;> simp [h64]
    · simp [h32, h64]

/-- The images that can run on a platform, once their signature is known. -/
theorem runnable_eq_ok_iff {source : ByteArray} {platform : Platform} {w : Width} :
    Stored.runnable source (offset source) platform = .ok w ↔
      Runnable source platform ∧ w = platform.width := by
  have hmagic := ofMagic?_eq_some_iff (Bytes.leNat source (offset source + optionalOffset) 2)
    platform.width
  simp only [Stored.runnable, ite_throw_eq_ok_iff, Decidable.not_not, ofNat_leNat_eq_iff,
    ofNat_leNat_and_eq_zero_iff]
  cases hfound : Width.ofMagic? (Bytes.leNat source (offset source + optionalOffset) 2) with
  | none =>
      constructor
      · rintro ⟨_, _, _, _, h⟩
        cases h
      · rintro ⟨h, _⟩
        have hsome := hmagic.mpr h.width
        rw [hfound] at hsome
        cases hsome
  | some width =>
      rw [hfound, Option.some.injEq] at hmagic
      simp only [ite_throw_eq_ok_iff, Decidable.not_not]
      constructor
      · rintro ⟨hmachine, hload, hstrip, horder, hwidth, h⟩
        cases h
        exact ⟨⟨hmachine, hload, hstrip, horder, hmagic.mp hwidth⟩, hwidth⟩
      · rintro ⟨h, rfl⟩
        have hwidth := hmagic.mpr h.width
        rw [hwidth]
        exact ⟨h.machine, h.loadable, h.relocatable, h.littleEndian, rfl, rfl⟩

/-- An image that cannot run on a platform may be sound all the same. -/
theorem foreign_of_runnable_eq_error {source : ByteArray} {p : Nat} {platform : Platform}
    {e : HeaderError} (h : Stored.runnable source p platform = .error e) : e.foreign = true := by
  simp only [Stored.runnable, ite_throw_eq_error_iff] at h
  rcases h with ⟨_, rfl⟩ | ⟨_, ⟨_, rfl⟩ | ⟨_, ⟨_, rfl⟩ | ⟨_, ⟨_, rfl⟩ | ⟨_, h⟩⟩⟩⟩
  · rfl
  · rfl
  · rfl
  · rfl
  · split at h
    · cases h
      rfl
    · rw [ite_throw_eq_error_iff] at h
      rcases h with ⟨_, rfl⟩ | ⟨_, h⟩
      · rfl
      · cases h

/-! ## sizes and counts -/

variable {source : ByteArray} {platform : Platform}

theorem fixedSize_eq (w : Width) : w.fixedSize = Declared.fixedSize w := by
  cases w <;> rfl

theorem directoryCount_read (w : Width) :
    (Stored.read source (offset source) w).directoryCount = directoryCount source w := by
  cases w <;> rfl

theorem imageBase_read (w : Width) :
    (Stored.read source (offset source) w).imageBase = UInt64.ofNat (imageBase source w) := by
  cases w <;> rfl

/-- The directories are read where the format has them. -/
theorem directory?_read (w : Width) (index : Nat) :
    (Stored.read source (offset source) w).directory? source index =
      directory source w index := by
  unfold Stored.directory? directory
  rw [directoryCount_read, Nat.mul_comm index]
  change (if _ then some (Directory.mk
    (Bytes.leNat source (offset source + 24 + w.fixedSize + 8 * index) 4)
    (Bytes.leNat source (offset source + 24 + w.fixedSize + 8 * index + 4) 4)) else none) = _
  rw [fixedSize_eq]

/-- The fields are found if the optional header lies in the file and has an
even file alignment. -/
theorem find_eq_ok_iff (hs : Signed source) (hr : Runnable source platform) {s : Stored} :
    Stored.find source platform = .ok s ↔
      offset source + 24 + fixedSize platform.width ≤ source.size ∧
        fileAlignment source % 2 = 0 ∧ s = Stored.read source (offset source) platform.width := by
  have hlocate := locate_eq_ok_iff.mpr ⟨hs, rfl⟩
  have hrunnable := runnable_eq_ok_iff.mpr ⟨hr, rfl⟩
  simp only [Stored.find, hlocate, hrunnable, ok_bind, ite_throw_eq_ok_iff, Decidable.not_not,
    Nat.not_lt, fixedSize_eq]
  constructor
  · rintro ⟨hsize, halign, h⟩
    cases h
    exact ⟨hsize, halign, rfl⟩
  · rintro ⟨hsize, halign, rfl⟩
    exact ⟨hsize, halign, rfl⟩

theorem sectionTableEnd_read (w : Width) :
    (Stored.read source (offset source) w).sectionTableEnd = tableEnd source := by
  change offset source + 24 + optionalSize source + sectionCount source * 40 = _
  rw [tableEnd, Nat.mul_comm]

/-- The fields of an image of width `w` pass the checks if its sizes and
counts fit together, and make the declared headers. -/
theorem check_read_eq_ok_iff (w : Width) {h : Headers}
    (hsize : offset source + 24 + fixedSize w ≤ source.size)
    (halign : fileAlignment source % 2 = 0) :
    (Stored.read source (offset source) w).check source = .ok h ↔
      Consistent source w ∧ h = declared source w := by
  simp only [Stored.check, ite_throw_eq_ok_iff, Decidable.not_not, Nat.not_lt,
    directoryCount_read, imageBase_read, directory?_read, sectionTableEnd_read]
  change directoryCount source w ≤ 16 ∧
    optionalSize source = w.fixedSize + directoryCount source w * 8 ∧
    sectionCount source ≤ 96 ∧ tableEnd source ≤ imageSize source ∧
    tableEnd source ≤ headersSize source ∧ headersSize source ≤ imageSize source ∧
    headersSize source ≤ source.size ∧ Except.ok (declared source w) = Except.ok h ↔ _
  rw [fixedSize_eq, Nat.mul_comm _ 8, Except.ok.injEq]
  constructor
  · rintro ⟨hdirs, hopt, hsects, _, htable, himage, hfile, rfl⟩
    exact ⟨⟨hsize, halign, hdirs, hopt, hsects, htable, Nat.le_min.mpr ⟨himage, hfile⟩⟩, rfl⟩
  · rintro ⟨⟨_, _, hdirs, hopt, hsects, htable, hheaders⟩, rfl⟩
    obtain ⟨himage, hfile⟩ := Nat.le_min.mp hheaders
    exact ⟨hdirs, hopt, hsects, Nat.le_trans htable himage, htable, himage, hfile, rfl⟩

/-- The headers of an image that can run are found if its sizes and counts
fit together, and are those that are declared. -/
theorem parse_eq_ok_iff (hs : Signed source) (hr : Runnable source platform) {h : Headers} :
    Headers.parse source platform = .ok h ↔
      Consistent source platform.width ∧ h = declared source platform.width := by
  rw [Headers.parse, bind_eq_ok_iff]
  constructor
  · rintro ⟨s, hfind, hcheck⟩
    obtain ⟨hsize, halign, rfl⟩ := (find_eq_ok_iff hs hr).mp hfind
    exact (check_read_eq_ok_iff _ hsize halign).mp hcheck
  · rintro ⟨hc, rfl⟩
    refine ⟨_, (find_eq_ok_iff hs hr).mpr ⟨hc.optional, hc.alignment, rfl⟩, ?_⟩
    exact (check_read_eq_ok_iff _ hc.optional hc.alignment).mpr ⟨hc, rfl⟩

/-- An image that can run but has no usable headers is damaged. -/
theorem foreign_of_parse_eq_error (hs : Signed source) (hr : Runnable source platform)
    {e : HeaderError} (h : Headers.parse source platform = .error e) : e.foreign = false := by
  have hlocate := locate_eq_ok_iff.mpr ⟨hs, rfl⟩
  have hrunnable := runnable_eq_ok_iff.mpr ⟨hr, rfl⟩
  rw [Headers.parse, bind_eq_error_iff] at h
  rcases h with h | ⟨s, _, h⟩
  · simp only [Stored.find, hlocate, hrunnable, ok_bind, ite_throw_eq_error_iff] at h
    rcases h with ⟨_, rfl⟩ | ⟨_, ⟨_, rfl⟩ | ⟨_, h⟩⟩
    · rfl
    · rfl
    · cases h
  · simp only [Stored.check, ite_throw_eq_error_iff] at h
    rcases h with ⟨_, rfl⟩ | ⟨_, ⟨_, rfl⟩ | ⟨_, ⟨_, rfl⟩ | ⟨_, ⟨_, rfl⟩ | ⟨_, ⟨_, rfl⟩ |
      ⟨_, ⟨_, rfl⟩ | ⟨_, ⟨_, rfl⟩ | ⟨_, h⟩⟩⟩⟩⟩⟩⟩
    · rfl
    · rfl
    · rfl
    · rfl
    · rfl
    · rfl
    · rfl
    · cases h

/-- A file that is not signed is damaged. -/
theorem parse_of_not_signed (platform : Platform) (hs : ¬ Signed source) :
    ∃ e, Headers.parse source platform = .error e ∧ e.foreign = false := by
  cases hlocate : Stored.locate source with
  | ok p => exact absurd (locate_eq_ok_iff.mp hlocate).1 hs
  | error e =>
      refine ⟨e, ?_, foreign_of_locate_eq_error hlocate⟩
      simp only [Headers.parse, Stored.find, hlocate, error_bind]

/-- A signed image that cannot run on the platform is for another one. -/
theorem parse_of_not_runnable (hs : Signed source) (hr : ¬ Runnable source platform) :
    ∃ e, Headers.parse source platform = .error e ∧ e.foreign = true := by
  have hlocate := locate_eq_ok_iff.mpr ⟨hs, rfl⟩
  cases hrunnable : Stored.runnable source (offset source) platform with
  | ok w => exact absurd (runnable_eq_ok_iff.mp hrunnable).1 hr
  | error e =>
      refine ⟨e, ?_, foreign_of_runnable_eq_error hrunnable⟩
      simp only [Headers.parse, Stored.find, hlocate, hrunnable, ok_bind, error_bind]

/-! ## the result -/

/-- **Grammar of images**: parsing answers the declared headers of a file
whose parts are all there and fit together.  Images for another platform are
told apart from damaged ones, and damage in front of the magic number of the
optional header comes first. -/
theorem status_parseNoted_eq (source : ByteArray) (platform : Platform) :
    (Headers.parseNoted source platform).value.mapError HeaderError.status =
      if ¬ Signed source then .error Status.loadError
      else if ¬ Runnable source platform then .error Status.unsupported
      else if ¬ Consistent source platform.width then .error Status.loadError
      else .ok (declared source platform.width) := by
  rw [Headers.value_parseNoted]
  by_cases hs : Signed source
  · rw [if_neg (not_not_intro hs)]
    by_cases hr : Runnable source platform
    · rw [if_neg (not_not_intro hr)]
      cases hp : Headers.parse source platform with
      | ok h =>
          obtain ⟨hc, rfl⟩ := (parse_eq_ok_iff hs hr).mp hp
          rw [if_neg (not_not_intro hc)]
          rfl
      | error e =>
          have hc : ¬ Consistent source platform.width := by
            intro hc
            rw [(parse_eq_ok_iff hs hr).mpr ⟨hc, rfl⟩] at hp
            cases hp
          rw [if_pos hc]
          have hstatus : e.status = Status.loadError := by
            simp [HeaderError.status, foreign_of_parse_eq_error hs hr hp]
          exact congrArg Except.error hstatus
    · obtain ⟨e, hp, hforeign⟩ := parse_of_not_runnable hs hr
      rw [if_pos hr, hp]
      have hstatus : e.status = Status.unsupported := by
        simp [HeaderError.status, hforeign]
      exact congrArg Except.error hstatus
  · obtain ⟨e, hp, hforeign⟩ := parse_of_not_signed platform hs
    rw [if_pos hs, hp]
    have hstatus : e.status = Status.loadError := by
      simp [HeaderError.status, hforeign]
    exact congrArg Except.error hstatus

end EfiLoader.Pe
