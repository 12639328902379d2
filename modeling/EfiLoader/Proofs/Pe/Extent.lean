import EfiLoader.Proofs.Pe.Headers
import EfiLoader.Proofs.Pe.Smallest

/-!
# EfiLoader.Proofs.Pe.Extent

How much of a file its headers are.  What parsing answers depends on the bytes
that the headers say they have, and on all of these being there:

* `parse_front_eq_ok_iff` — the first `n` bytes of a file parse to headers
  exactly if the file does and the headers end within them;
* `sectionAt?_front` — the section table is among those bytes;
* `parse_of_headers` — so files that begin alike have the same headers, and
  files that are cut off within the headers have none.
-/

namespace EfiLoader.Pe

/-! ## the first bytes of a file -/

variable {source : ByteArray} {platform : Platform} {w : Width} {n : Nat}

open Declared
open Bytes (byte_front leNat_front size_front)

/-- The stub is all that says where the signature is. -/
theorem offset_front (h : 64 ≤ n) : offset (source.extract 0 n) = offset source :=
  leNat_front (by omega)

/-- The signature and what follows it are found in the first bytes. -/
theorem signed_front_iff (hstub : 64 ≤ n) (hroom : offset source + 26 ≤ n) (hn : n ≤ source.size) :
    Signed (source.extract 0 n) ↔ Signed source := by
  have hfirst : Bytes.byte (source.extract 0 n) 0 = Bytes.byte source 0 := byte_front (by omega)
  have hsecond : Bytes.byte (source.extract 0 n) 1 = Bytes.byte source 1 := byte_front (by omega)
  have hsignature : Bytes.leNat (source.extract 0 n) (offset source) 4 =
      Bytes.leNat source (offset source) 4 := leNat_front (by omega)
  rw [signed_iff, signed_iff, size_front hn, offset_front hstub, hfirst, hsecond, hsignature]
  constructor
  · rintro ⟨-, hmagic, -, hsig⟩
    exact ⟨by omega, hmagic, by omega, hsig⟩
  · rintro ⟨-, hmagic, -, hsig⟩
    exact ⟨hstub, hmagic, hroom, hsig⟩

/-- So is what an image needs to run. -/
theorem runnable_front_iff (hstub : 64 ≤ n) (hroom : offset source + 26 ≤ n) :
    Runnable (source.extract 0 n) platform ↔ Runnable source platform := by
  have hnumber : ∀ k, k ≤ 24 → Bytes.leNat (source.extract 0 n) (offset source + k) 2 =
      Bytes.leNat source (offset source + k) 2 := fun k hk => leNat_front (by omega)
  simp only [runnable_iff, characteristics, magic, offset_front hstub, hnumber 4 (by omega),
    hnumber 22 (by omega), hnumber 24 (by omega)]

/-! ## fields in the first bytes -/

/-- Both optional headers are longer than the stub. -/
theorem le_fixedSize (w : Width) : 96 ≤ Declared.fixedSize w := by
  cases w <;> decide

/-- The fields in front of the directories are found. -/
theorem read_front (hreach : offset source + 24 + Declared.fixedSize w ≤ n) :
    Stored.read (source.extract 0 n) (offset source) w =
      Stored.read source (offset source) w := by
  cases w <;>
    simp only [Declared.fixedSize] at hreach <;>
    simp only [Stored.read, optionalOffset, Width.imageBaseOffset, Width.addressSize,
      Width.directoryCountOffset, Width.fixedSize, entryPointOffset, sectionAlignmentOffset,
      fileAlignmentOffset, imageSizeOffset, headersSizeOffset, subsystemOffset] <;>
    simp (disch := omega) only [leNat_front]

/-! ## headers in the first bytes -/

/-- Fields are found in signed files that can run. -/
theorem signed_of_find {s : Stored} (h : Stored.find source platform = .ok s) :
    Signed source ∧ Runnable source platform := by
  obtain ⟨p, hlocate, h⟩ := bind_eq_ok_iff.mp h
  obtain ⟨width, hrunnable, -⟩ := bind_eq_ok_iff.mp h
  obtain ⟨hsigned, rfl⟩ := locate_eq_ok_iff.mp hlocate
  exact ⟨hsigned, (runnable_eq_ok_iff.mp hrunnable).1⟩

/-- If the first bytes go on to the directories, all fields are found in them. -/
theorem find_front_eq_ok_iff {s : Stored} (hn : n ≤ source.size)
    (hreach : offset source + 24 + Declared.fixedSize platform.width ≤ n) :
    Stored.find (source.extract 0 n) platform = .ok s ↔ Stored.find source platform = .ok s := by
  have hfixed := le_fixedSize platform.width
  have hstub : 64 ≤ n := by omega
  have hsigned := signed_front_iff hstub (by omega) hn
  have hrunnable := @runnable_front_iff source platform n hstub (by omega)
  have hread := read_front hreach
  have halign : fileAlignment (source.extract 0 n) = fileAlignment source := by
    rw [fileAlignment, offset_front hstub]
    exact leNat_front (by omega)
  constructor
  · intro h
    obtain ⟨hs, hr⟩ := signed_of_find h
    obtain ⟨-, heven, hfields⟩ := (find_eq_ok_iff hs hr).mp h
    rw [offset_front hstub, hread] at hfields
    rw [halign] at heven
    exact (find_eq_ok_iff (hsigned.mp hs) (hrunnable.mp hr)).mpr ⟨by omega, heven, hfields⟩
  · intro h
    obtain ⟨hs, hr⟩ := signed_of_find h
    obtain ⟨-, heven, hfields⟩ := (find_eq_ok_iff hs hr).mp h
    rw [← hread] at hfields
    rw [← halign] at heven
    apply (find_eq_ok_iff (hsigned.mpr hs) (hrunnable.mpr hr)).mpr
    rw [offset_front hstub, size_front hn]
    exact ⟨hreach, heven, hfields⟩

/-- Directories are read where the optional header has them. -/
theorem directory?_front {s : Stored}
    (h : s.optional + s.width.fixedSize + s.directoryCount * directorySize ≤ n) (index : Nat) :
    s.directory? (source.extract 0 n) index = s.directory? source index := by
  unfold Stored.directory?
  split
  · next hindex =>
    have hentry : (index + 1) * directorySize ≤ s.directoryCount * directorySize :=
      Nat.mul_le_mul_right _ hindex
    simp only [directorySize] at h hentry ⊢
    rw [leNat_front (by omega), leNat_front (by omega)]
  · rfl

/-- The checks are passed if the headers end within the first bytes. -/
theorem check_front_eq_ok_iff {s : Stored} {h : Headers} (hn : n ≤ source.size) :
    s.check (source.extract 0 n) = .ok h ↔ s.check source = .ok h ∧ h.headersSize ≤ n := by
  have hend : s.sectionTable ≤ s.sectionTableEnd := Nat.le_add_right _ _
  simp only [Stored.check, ite_throw_eq_ok_iff, Decidable.not_not, Nat.not_lt, size_front hn]
  constructor
  · rintro ⟨hdirs, hopt, hsects, himage, htable, hheaders, hfile, heq⟩
    have hfit : s.optional + s.width.fixedSize + s.directoryCount * directorySize ≤ n := by
      rw [Stored.sectionTable, hopt] at hend
      omega
    cases heq
    simp only [directory?_front hfit]
    exact ⟨⟨hdirs, hopt, hsects, himage, htable, hheaders, Nat.le_trans hfile hn, rfl⟩, hfile⟩
  · rintro ⟨⟨hdirs, hopt, hsects, himage, htable, hheaders, -, heq⟩, hfile⟩
    cases heq
    have hfit : s.optional + s.width.fixedSize + s.directoryCount * directorySize ≤ n := by
      rw [Stored.sectionTable, hopt] at hend
      simp only at hfile
      omega
    simp only [directory?_front hfit]
    exact ⟨hdirs, hopt, hsects, himage, htable, hheaders, hfile, rfl⟩

/-- Headers reach beyond their fields. -/
theorem reach_of_check {s : Stored} {h : Headers} (hfind : Stored.find source platform = .ok s)
    (hcheck : s.check source = .ok h) :
    offset source + 24 + Declared.fixedSize platform.width ≤ h.headersSize := by
  obtain ⟨hs, hr⟩ := signed_of_find hfind
  obtain ⟨-, -, rfl⟩ := (find_eq_ok_iff hs hr).mp hfind
  simp only [Stored.check, ite_throw_eq_ok_iff, Decidable.not_not, Nat.not_lt] at hcheck
  obtain ⟨-, hopt, -, -, htable, -, -, heq⟩ := hcheck
  cases heq
  rw [sectionTableEnd_read, tableEnd] at htable
  change optionalSize source = platform.width.fixedSize + _ at hopt
  rw [fixedSize_eq] at hopt
  simp only
  omega

/-- **The first bytes of a file parse to headers** exactly if the file does and
the headers end within those bytes. -/
theorem parse_front_eq_ok_iff {h : Headers} (hn : n ≤ source.size) :
    Headers.parse (source.extract 0 n) platform = .ok h ↔
      Headers.parse source platform = .ok h ∧ h.headersSize ≤ n := by
  simp only [Headers.parse, bind_eq_ok_iff]
  constructor
  · rintro ⟨s, hfind, hcheck⟩
    have hreach := reach_of_check hfind hcheck
    have hstub : 64 ≤ n := by
      have hstub := (signed_of_find hfind).1.stub
      rwa [size_front hn] at hstub
    obtain ⟨hwhole, hfile⟩ := (check_front_eq_ok_iff hn).mp hcheck
    rw [offset_front hstub] at hreach
    exact ⟨⟨s, (find_front_eq_ok_iff hn (Nat.le_trans hreach hfile)).mp hfind, hwhole⟩, hfile⟩
  · rintro ⟨⟨s, hfind, hcheck⟩, hfile⟩
    have hreach := Nat.le_trans (reach_of_check hfind hcheck) hfile
    exact ⟨s, (find_front_eq_ok_iff hn hreach).mpr hfind,
      (check_front_eq_ok_iff hn).mpr ⟨hcheck, hfile⟩⟩

/-- So do they with the lines that are written. -/
theorem parseNoted_front {h : Headers} (hp : Headers.parse source platform = .ok h)
    (hfile : h.headersSize ≤ n) (hn : n ≤ source.size) :
    Headers.parseNoted (source.extract 0 n) platform = Headers.parseNoted source platform := by
  rw [Headers.parse, bind_eq_ok_iff] at hp
  obtain ⟨s, hfind, hcheck⟩ := hp
  have hreach := Nat.le_trans (reach_of_check hfind hcheck) hfile
  have hfind' := (find_front_eq_ok_iff hn hreach).mpr hfind
  have hcheck' := (check_front_eq_ok_iff hn).mpr ⟨hcheck, hfile⟩
  simp only [Headers.parseNoted, hfind, hfind', hcheck, hcheck']

/-- Files that are cut off within their headers are damaged. -/
theorem foreign_of_cut {h : Headers} (hp : Headers.parse source platform = .ok h)
    (hcut : n < h.headersSize) :
    ∃ e, Headers.parse (source.extract 0 n) platform = .error e ∧ e.foreign = false := by
  have hn : n ≤ source.size := by
    have := (fits_of_parse hp).file
    omega
  by_cases hs : Signed (source.extract 0 n)
  · have hstub : 64 ≤ n := by
      have := hs.stub
      rwa [size_front hn] at this
    have hroom : offset source + 26 ≤ n := by
      have := hs.room
      rwa [size_front hn, offset_front hstub] at this
    have hr : Runnable (source.extract 0 n) platform := by
      obtain ⟨s, hfind, -⟩ := bind_eq_ok_iff.mp hp
      exact (runnable_front_iff hstub hroom).mpr (signed_of_find hfind).2
    cases hparse : Headers.parse (source.extract 0 n) platform with
    | ok h' =>
        obtain ⟨hwhole, hfile⟩ := (parse_front_eq_ok_iff hn).mp hparse
        rw [hp] at hwhole
        cases hwhole
        omega
    | error e => exact ⟨e, rfl, foreign_of_parse_eq_error hs hr hparse⟩
  · exact parse_of_not_signed platform hs

/-! ## the section table -/

/-- A section header is read where it stands. -/
theorem sectionHeader_front {off : Nat} (h : off + sectionHeaderSize ≤ n) :
    SectionHeader.read (source.extract 0 n) off = SectionHeader.read source off := by
  simp only [sectionHeaderSize] at h
  have hname : (source.extract 0 n).extract off (off + sectionNameSize) =
      source.extract off (off + sectionNameSize) := by
    have hmin : min (off + sectionNameSize) n = off + sectionNameSize := by
      simp only [sectionNameSize]
      omega
    rw [ByteArray.extract_extract, Nat.zero_add, Nat.zero_add, hmin]
  simp (disch := omega) only [SectionHeader.read, hname, leNat_front]

/-- All section headers are among the bytes of the headers. -/
theorem sectionAt?_front {h : Headers} (hp : Headers.parse source platform = .ok h)
    (hfile : h.headersSize ≤ n) (hn : n ≤ source.size) {i : Nat} (hi : i < h.sectionCount) :
    ∃ s, h.sectionAt? source i = some s ∧ h.sectionAt? (source.extract 0 n) i = some s := by
  have htable := (fits_of_parse hp).table
  have hentry : (i + 1) * sectionHeaderSize ≤ h.sectionCount * sectionHeaderSize :=
    Nat.mul_le_mul_right _ hi
  have hend : h.sectionTable + i * sectionHeaderSize + sectionHeaderSize ≤ n := by
    rw [Nat.succ_mul] at hentry
    omega
  refine ⟨_, if_pos (Nat.le_trans hend hn), ?_⟩
  rw [Headers.sectionAt?, size_front hn, if_pos hend, sectionHeader_front hend]

/-! ## the result -/

/-- **The headers of a file are the bytes that they say they have.**  Another
file with these bytes in front has the same headers, with the same lines
written about them, and the same section headers; and a file in which one of
these bytes is missing is damaged. -/
theorem parse_of_headers {h : Headers}
    (hp : (Headers.parseNoted source platform).value = .ok h) :
    (∀ other : ByteArray, h.headersSize ≤ other.size →
      other.extract 0 h.headersSize = source.extract 0 h.headersSize →
        Headers.parseNoted other platform = Headers.parseNoted source platform ∧
        h.sectionHeaders other = h.sectionHeaders source ∧
        ∀ i < h.sectionCount, ∃ s, h.sectionAt? source i = some s ∧
          h.sectionAt? other i = some s) ∧
      ∀ k < h.headersSize,
        (Headers.parseNoted (source.extract 0 k) platform).value.mapError HeaderError.status =
          .error Status.loadError := by
  rw [Headers.value_parseNoted] at hp
  have hsource := (fits_of_parse hp).file
  constructor
  · intro other hother hsame
    have hother' : Headers.parse other platform = .ok h := by
      have hfront := (parse_front_eq_ok_iff hsource).mpr ⟨hp, Nat.le_refl _⟩
      rw [← hsame] at hfront
      exact ((parse_front_eq_ok_iff hother).mp hfront).1
    have hsections : ∀ i < h.sectionCount, ∃ s, h.sectionAt? source i = some s ∧
        h.sectionAt? other i = some s := by
      intro i hi
      obtain ⟨s, hs, hfront⟩ := sectionAt?_front hp (Nat.le_refl _) hsource hi
      obtain ⟨s', hs', hfront'⟩ := sectionAt?_front hother' (Nat.le_refl _) hother hi
      rw [hsame, hfront] at hfront'
      cases hfront'
      exact ⟨s, hs, hs'⟩
    refine ⟨?_, ?_, hsections⟩
    · rw [← parseNoted_front hother' (Nat.le_refl _) hother,
        ← parseNoted_front hp (Nat.le_refl _) hsource, hsame]
    · apply List.map_congr_left
      intro i hi
      obtain ⟨s, hs, hs'⟩ := hsections i (List.mem_range.mp hi)
      rw [hs, hs']
  · intro k hk
    obtain ⟨e, he, hforeign⟩ := foreign_of_cut hp hk
    rw [Headers.value_parseNoted, he]
    simp [HeaderError.status, hforeign]

/-- The smallest image goes on after its headers as it likes, and needs every
byte of them. -/
theorem parse_of_headers_smallest :
    (Headers.parseNoted smallestImage .native).value = .ok smallestHeaders ∧
      (Headers.parseNoted (smallestImage.extract 0 240 ++ [7].toByteArray) .native).value =
        .ok smallestHeaders ∧
      smallestHeaders.sectionHeaders (smallestImage.extract 0 240 ++ [7].toByteArray) =
        [some smallestSection] ∧
      (Headers.parseNoted (smallestImage.extract 0 239) .native).value.mapError
        HeaderError.status = .error Status.loadError := by
  have hp : (Headers.parseNoted smallestImage .native).value = .ok smallestHeaders := by
    rw [Headers.value_parseNoted, parse_smallestImage]
  obtain ⟨hother, hcut⟩ := parse_of_headers hp
  have hfile : 240 ≤ smallestImage.size := (fits_of_parse parse_smallestImage).file
  have hsize : (smallestImage.extract 0 240).size = 240 := by
    rw [ByteArray.size_extract]
    omega
  have hfits : smallestHeaders.headersSize ≤
      (smallestImage.extract 0 240 ++ [7].toByteArray).size := by
    rw [ByteArray.size_append, hsize]
    exact Nat.le_add_right _ _
  have hsame := ByteArray.extract_append_eq_left (b := [7].toByteArray) hsize.symm
  obtain ⟨hparse, hsections, -⟩ := hother _ hfits hsame
  rw [hparse, hsections]
  exact ⟨hp, hp, sectionHeaders_smallest, hcut 239 (by decide)⟩

end EfiLoader.Pe
