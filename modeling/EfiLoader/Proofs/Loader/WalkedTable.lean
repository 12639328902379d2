import EfiLoader.Proofs.Loader.Sections
import EfiLoader.Proofs.Pe.Rebase

/-!
# EfiLoader.Proofs.Loader.WalkedTable

The relocation table of an image is read from its file, not from its memory,
and the directory alone says where it ends:

* `Walks` — the fixups of an image are applied from a table;
* `assembled_of_walks` — the memory of the image is what that leaves;
* `extract_rawData` — the table is the content of the relocation section, and
  what follows it in the file if the directory is longer;
* `Walks.extract_placed` — the memory of the directory is the same content, and
  zeros.

`table_of_walks` puts them together.  If the directory is longer than the
content, bytes of another section can be walked (`walks_past_content`).
-/

namespace EfiLoader

open Pe

variable {h : Headers} {source : ByteArray} {base : Nat} {r : RelocationSection}
  {dir : Directory} {placed table bytes : ByteArray} {s : SectionHeader}

/-! ## the walk -/

/-- The fixups of an image that is loaded at `base` are applied from `table`. -/
structure Walks (h : Headers) (source : ByteArray) (base : Nat) (r : RelocationSection)
    (dir : Directory) (placed table : ByteArray) : Prop where
  entryPoint : h.entryPoint < h.imageSize
  /-- The sections are in place, and one of them carries relocations. -/
  placed : (placeSections h source (blankImage h source)).value = (.ok (some r), placed)
  directory : h.relocations? = some dir
  /-- The image is not at the base it wants. -/
  away : UInt64.ofNat base ≠ h.imageBase
  table : Fixup.table? source dir r = some table

/-- The memory of an image whose fixups are applied from a table. -/
def patched (h : Headers) (base : Nat) (placed table : ByteArray) : Except Status ByteArray :=
  match Fixup.interpret (UInt64.ofNat base - h.imageBase) table placed with
  | (.ok (), memory) => .ok memory
  | (.error status, _) => .error status

theorem Walks.fits (hw : Walks h source base r dir placed table) :
    r.rawPointer + dir.size ≤ source.size ∧
      table = source.extract r.rawPointer (r.rawPointer + dir.size) := by
  have htable := hw.table
  unfold Fixup.table? Bytes.slice? at htable
  split at htable
  · next hinside =>
    cases htable
    exact ⟨hinside, rfl⟩
  · cases htable

/-- The memory of the image depends on the placed sections and the table. -/
theorem assembled_of_walks (hw : Walks h source base r dir placed table) :
    assembled h source base = patched h base placed table := by
  obtain ⟨hinside, rfl⟩ := hw.fits
  have happly := Fixup.applyAll_of_table hw.directory hw.away hinside placed
  rw [assembled, if_neg (Nat.not_le.mpr hw.entryPoint), hw.placed]
  simp only [rebased, hw.directory]
  rw [patched, ← Fixup.tableOf, ← happly]
  rcases (Fixup.applyAll h source r (UInt64.ofNat base) placed).value with ⟨e | _, region⟩
  · rfl
  · rfl

/-! ## the relocation section -/

/-- The bytes of the file that a section has for its content. -/
def Pe.SectionHeader.rawData (s : SectionHeader) (source : ByteArray) : ByteArray :=
  source.extract s.rawPointer (s.rawPointer + s.rawSize)

/-- No other section of the image has a byte in common with this one. -/
def Pe.SectionHeader.Alone (s : SectionHeader) (h : Headers) (source : ByteArray) : Prop :=
  ∀ t ∈ h.sections source, t ≠ s → ∀ i, s.Covers i → ¬ t.Covers i

/-- Sections that end before another one starts leave it alone. -/
theorem alone_of_apart (hapart : ∀ t ∈ h.sections source, t ≠ s →
    t.virtualAddress + t.virtualSize ≤ s.virtualAddress ∨
      s.virtualAddress + s.virtualSize ≤ t.virtualAddress) : s.Alone h source := by
  intro t ht hne i ⟨hfrom, hto⟩ ⟨hfrom', hto'⟩
  have hcases := hapart t ht hne
  omega

theorem Walks.tableFits {platform : Platform} (hp : Headers.parse source platform = .ok h)
    (hw : Walks h source base r dir placed table) :
    TableFits h (min (blankImage h source).size h.imageSize) (h.sections source) := by
  apply Decidable.byContradiction
  intro hnot
  obtain ⟨e, memory, hvalue⟩ := value_placeSections_of_not_fits (fits_of_parse hp) hnot
  rw [hw.placed] at hvalue
  cases hvalue

/-- The sections that are in place are laid one over the other. -/
theorem Walks.overlay_eq {platform : Platform} (hp : Headers.parse source platform = .ok h)
    (hw : Walks h source base r dir placed table) :
    (overlay h source (blankImage h source)).relocations = some r ∧
      (overlay h source (blankImage h source)).region = placed := by
  have hvalue := value_placeSections_of_fits (fits_of_parse hp) (hw.tableFits hp)
  rw [hw.placed] at hvalue
  obtain ⟨hanswer, hregion⟩ := Prod.mk.inj hvalue
  exact ⟨(Except.ok.inj hanswer).symm, hregion.symm⟩

theorem Walks.size_placed {platform : Platform} (hp : Headers.parse source platform = .ok h)
    (hw : Walks h source base r dir placed table) : placed.size = h.imageSize := by
  rw [← (hw.overlay_eq hp).2, size_overlay, size_blankImage]

/-- The table is that of a section in the section table. -/
theorem Walks.exists_section {platform : Platform} (hp : Headers.parse source platform = .ok h)
    (hw : Walks h source base r dir placed table) :
    ∃ s ∈ h.sections source, s.CarriesRelocations h ∧ s.relocations = r := by
  have hfits := hw.tableFits hp
  have hfound := (relocations_foldl_next (by simpa using hfits.once) (fun _ => rfl) r).mp
    (hw.overlay_eq hp).1
  simp only [reduceCtorEq, false_or] at hfound
  obtain ⟨s, hs, hmatches, hr⟩ := hfound
  exact ⟨s, hs, (carriesRelocations_iff (hfits.each s hs)).mpr hmatches, hr⟩

/-- The directory that a section carries is the one that fixups look for. -/
theorem Pe.SectionHeader.CarriesRelocations.directory_eq (hc : s.CarriesRelocations h)
    (hdir : h.relocations? = some dir) :
    dir.virtualAddress = s.virtualAddress ∧ dir.size ≤ s.virtualSize := by
  obtain ⟨found, hfound, -, haddress, hend⟩ := hc.directory
  have hsame : found = dir := by
    have hentry := (relocations?_eq_some_iff.mp hdir).1
    exact Option.some.inj (hfound.symm.trans hentry)
  subst hsame
  exact ⟨haddress, by omega⟩

/-! ## bytes of the table -/

/-- What is read from the start of the content of a section is the content, and
what follows it in the file. -/
theorem extract_rawData (s : SectionHeader) (source : ByteArray) (n : Nat) :
    source.extract s.rawPointer (s.rawPointer + n) = (s.rawData source).extract 0 n ++
      source.extract (s.rawPointer + s.rawSize) (s.rawPointer + n) := by
  rw [SectionHeader.rawData, ByteArray.extract_extract]
  rcases Nat.le_total n s.rawSize with hshort | hlong
  · have hnothing : source.extract (s.rawPointer + s.rawSize) (s.rawPointer + n) =
        ByteArray.empty := ByteArray.extract_eq_empty_iff.mpr (by omega)
    rw [hnothing, ByteArray.append_empty, Nat.add_zero, Nat.min_eq_left (by omega)]
  · rw [Nat.add_zero, Nat.min_eq_right (by omega)]
    exact ByteArray.extract_eq_extract_append_extract _ (by omega) (by omega)

/-- A byte that a section alone covers is one of it. -/
theorem overlaidByte_of_covers {sections : List SectionHeader} {region : ByteArray} {i : Nat}
    (hs : s ∈ sections) (hcovers : s.Covers i) (hother : ∀ t ∈ sections, t ≠ s → ¬ t.Covers i) :
    overlaidByte source region sections i = s.byteAt source (i - s.virtualAddress) := by
  have hlast : (sections.filter fun t => t.Covers i).getLast? = some s := by
    have hmem : s ∈ sections.filter fun t => t.Covers i :=
      List.mem_filter.mpr ⟨hs, decide_eq_true hcovers⟩
    cases hfound : (sections.filter fun t => t.Covers i).getLast? with
    | none =>
      rw [List.getLast?_eq_none_iff.mp hfound] at hmem
      cases hmem
    | some t =>
      obtain ⟨ht, hin⟩ := List.mem_filter.mp (List.mem_of_getLast? hfound)
      have hsame : t = s := Decidable.byContradiction fun hne =>
        hother t ht hne (of_decide_eq_true hin)
      rw [hsame]
  rw [overlaidByte, hlast]

/-- The memory of the directory is the content of its section, and zeros. -/
theorem Walks.extract_placed {platform : Platform} (hp : Headers.parse source platform = .ok h)
    (hw : Walks h source base r dir placed table) (hs : s ∈ h.sections source)
    (hc : s.CarriesRelocations h) (hr : s.relocations = r) (halone : s.Alone h source)
    (hcontent : s.uninitialized = false) :
    placed.extract dir.virtualAddress (dir.virtualAddress + dir.size) =
      (s.rawData source).extract 0 dir.size ++ Bytes.zeros (dir.size - s.rawSize) := by
  have hfits := hw.tableFits hp
  have hend := (hfits.each s hs).inside (Nat.ne_of_gt hc.virtual)
  have hsize := hw.size_placed hp
  obtain ⟨haddress, hdirectory⟩ := hc.directory_eq hw.directory
  have hfile : s.rawPointer + dir.size ≤ source.size := by
    have hinside := hw.fits.1
    rw [← hr] at hinside
    exact hinside
  have hraw : ((s.rawData source).extract 0 dir.size).size = min dir.size s.rawSize := by
    rw [SectionHeader.rawData, ByteArray.size_extract, ByteArray.size_extract]
    omega
  apply Bytes.ext_byte
  · rw [ByteArray.size_append, hraw, Bytes.size_zeros, ByteArray.size_extract]
    omega
  intro o ho
  rw [ByteArray.size_extract] at ho
  have hcovers : s.Covers (dir.virtualAddress + o) := ⟨by omega, by omega⟩
  have hplaced : Bytes.byte placed (dir.virtualAddress + o) = s.byteAt source o := by
    rw [← (hw.overlay_eq hp).2, byte_overlay hfits,
      overlaidByte_of_covers hs hcovers fun t ht hne => halone t ht hne _ hcovers, haddress,
      Nat.add_sub_cancel_left]
  rw [Bytes.byte_extract (by omega), hplaced, SectionHeader.byteAt, hcontent]
  simp only [Bool.false_eq_true, if_false]
  by_cases hin : o < s.rawSize
  · rw [if_pos ⟨hin, by omega⟩, Bytes.byte_append_left (by omega), Bytes.byte_extract (by omega),
      SectionHeader.rawData, Bytes.byte_extract (by omega), Nat.zero_add]
  · have hzero : o = ((s.rawData source).extract 0 dir.size).size + (o - s.rawSize) := by omega
    rw [if_neg (fun hboth => hin hboth.1), hzero, Bytes.byte_append_right, Bytes.byte_zeros]

/-! ## both tables -/

/-- An image with a section that carries relocations is walked at any base but
the one it wants, unless its file ends within the table. -/
theorem walks_of_carries (hf : h.Fits source) (hentry : h.entryPoint < h.imageSize)
    (htable : TableFits h h.imageSize (h.sections source)) (hs : s ∈ h.sections source)
    (hc : s.CarriesRelocations h) (hdir : h.relocations? = some dir)
    (hbase : UInt64.ofNat base ≠ h.imageBase)
    (hinside : s.rawPointer + dir.size ≤ source.size) :
    Walks h source base s.relocations dir (overlay h source (blankImage h source)).region
      (Fixup.tableOf source s.relocations dir) where
  entryPoint := hentry
  placed := by
    have hlimit : min (blankImage h source).size h.imageSize = h.imageSize := by
      rw [size_blankImage, Nat.min_self]
    rw [← hlimit] at htable
    have hfound : (overlay h source (blankImage h source)).relocations = some s.relocations :=
      (relocations_foldl_next (by simpa using htable.once) (fun _ => rfl) _).mpr
        (.inr ⟨s, hs, (carriesRelocations_iff (htable.each s hs)).mp hc, rfl⟩)
    rw [value_placeSections_of_fits hf htable, hfound]
  directory := hdir
  away := hbase
  table := if_pos hinside

/-- **The table that is walked**: fixups are applied from the content of the
relocation section up to the size of the directory, and from what follows it in
the file if the directory is longer.  The memory of the directory has the same
content, then zeros, so it is the table if the directory is not longer. -/
theorem table_of_walks {platform : Platform} (hp : Headers.parse source platform = .ok h)
    (hw : Walks h source base r dir placed table) :
    assembled h source base = patched h base placed table ∧ table.size = dir.size ∧
      ∃ s ∈ h.sections source, s.CarriesRelocations h ∧ s.relocations = r ∧
        table = (s.rawData source).extract 0 dir.size ++
          source.extract (s.rawPointer + s.rawSize) (s.rawPointer + dir.size) ∧
        (dir.size ≤ s.rawSize → table = (s.rawData source).extract 0 dir.size) ∧
        (s.Alone h source → s.uninitialized = false →
          placed.extract dir.virtualAddress (dir.virtualAddress + dir.size) =
              (s.rawData source).extract 0 dir.size ++ Bytes.zeros (dir.size - s.rawSize) ∧
            (dir.size ≤ s.rawSize →
              placed.extract dir.virtualAddress (dir.virtualAddress + dir.size) = table)) := by
  obtain ⟨hinside, htable⟩ := hw.fits
  have hsize : table.size = dir.size := by
    rw [htable, ByteArray.size_extract]
    omega
  obtain ⟨s, hs, hc, rfl⟩ := hw.exists_section hp
  have hwhole : table = (s.rawData source).extract 0 dir.size ++
      source.extract (s.rawPointer + s.rawSize) (s.rawPointer + dir.size) :=
    htable.trans (extract_rawData s source dir.size)
  have hshort : dir.size ≤ s.rawSize → table = (s.rawData source).extract 0 dir.size := by
    intro hle
    have hnothing : source.extract (s.rawPointer + s.rawSize) (s.rawPointer + dir.size) =
        ByteArray.empty := ByteArray.extract_eq_empty_iff.mpr (by omega)
    rw [hwhole, hnothing, ByteArray.append_empty]
  refine ⟨assembled_of_walks hw, hsize, s, hs, hc, rfl, hwhole, hshort, ?_⟩
  intro halone hcontent
  have hplaced := hw.extract_placed hp hs hc rfl halone hcontent
  refine ⟨hplaced, fun hle => ?_⟩
  have hnone : Bytes.zeros (dir.size - s.rawSize) = ByteArray.empty := by
    rw [← ByteArray.size_eq_zero_iff, Bytes.size_zeros, Nat.sub_eq_zero_of_le hle]
  rw [hplaced, hshort hle, hnone, ByteArray.append_empty]

/-- The relocation section of the layered image, away from its base, has the
table in memory that is walked. -/
theorem table_of_walks_layered :
    Headers.parse layeredImage .native = .ok layeredHeaders ∧
      ∃ placed table, Walks layeredHeaders layeredImage 0x20000 ⟨400, 24, 400, 24⟩ ⟨400, 24⟩
          placed table ∧ placed.extract 400 (400 + 24) = table := by
  have htable : TableFits layeredHeaders layeredHeaders.imageSize
      (layeredHeaders.sections layeredImage) := by
    rw [sections_layered, tableFits_iff, name_relocations]
    decide
  let s : SectionHeader := ⟨[0x2E, 0x72, 0x65, 0x6C, 0x6F, 0x63], 24, 400, 24, 400, 0x42000040⟩
  have hs : s ∈ layeredHeaders.sections layeredImage := by
    rw [sections_layered]
    exact .tail _ (.tail _ (.head _))
  have hc : s.CarriesRelocations layeredHeaders :=
    ⟨name_relocations.symm, by decide, by decide, ⟨400, 24⟩, rfl, by decide, rfl, by decide⟩
  have hw : Walks layeredHeaders layeredImage 0x20000 s.relocations ⟨400, 24⟩ _
      (Fixup.tableOf layeredImage s.relocations ⟨400, 24⟩) :=
    walks_of_carries (fits_of_parse parse_layeredImage) (by decide) htable hs hc rfl (by decide)
      (by rw [Fixup.size_layeredImage]; decide)
  obtain ⟨-, -, t, ht, -, hr, -, -, hmemory⟩ := table_of_walks parse_layeredImage hw
  have hsame : t = s := by
    rw [sections_layered] at ht
    simp only [layeredSections, List.mem_cons, List.not_mem_nil, or_false] at ht
    obtain rfl | rfl | rfl := ht
    · cases hr
    · cases hr
    · rfl
  rw [hsame] at hmemory
  have halone : s.Alone layeredHeaders layeredImage := by
    apply alone_of_apart
    rw [sections_layered]
    decide
  exact ⟨parse_layeredImage, _, _, hw, (hmemory halone (by decide)).2 (by decide)⟩

/-! ## a directory that is too long -/

/-- The fields of an image whose relocation directory goes on after the content
of its section, each a width and a number. -/
def strayFields : List (Nat × Nat) :=
  -- the stub, the signature and the file header
  [(2, 0x5A4D), (58, 0), (4, 64), (4, 0x4550), (2, 0x8664), (2, 2), (12, 0), (2, 160), (2, 0x2002),
  -- the optional header with six directories, the last one for relocations
    (2, 0x20B), (14, 0), (4, 336), (4, 0), (8, 0x10000), (4, 16), (4, 16), (16, 0), (4, 512),
    (4, 328), (4, 0), (2, 10), (38, 0), (4, 6), (40, 0), (4, 384), (4, 24),
  -- the section headers: 12 bytes of data after a table of 12 bytes
    (8, 0x617461642E), (4, 16), (4, 336), (4, 12), (4, 340), (12, 0), (4, 0xC0000040),
    (8, 0x636F6C65722E), (4, 24), (4, 384), (4, 12), (4, 328), (12, 0), (4, 0x42000040),
  -- the table: a block without fields
    (4, 336), (4, 12), (2, 0), (2, 0),
  -- the data, which reads as a block with an address of 64 bits in the data
    (4, 336), (4, 12), (2, 0xA004), (2, 0)]

/-- The image with these fields. -/
def strayImage : ByteArray :=
  ⟨⟨strayFields.flatMap fun (width, n) => Bytes.leList width n⟩⟩

/-- Its headers. -/
def strayHeaders : Headers where
  machine := 0x8664
  width := .bits64
  imageBase := 0x10000
  entryPoint := 336
  imageSize := 512
  headersSize := 328
  sectionCount := 2
  sectionAlignment := 16
  fileAlignment := 16
  subsystem := 10
  directoryCount := 6
  sectionTable := 248
  relocationDirectory := some ⟨384, 24⟩
  resourceDirectory := some ⟨0, 0⟩

/-- Its data. -/
def strayData : SectionHeader := ⟨[0x2E, 0x64, 0x61, 0x74, 0x61], 16, 336, 12, 340, 0xC0000040⟩

/-- Its relocation section. -/
def strayTable : SectionHeader :=
  ⟨[0x2E, 0x72, 0x65, 0x6C, 0x6F, 0x63], 24, 384, 12, 328, 0x42000040⟩

theorem parse_strayImage : Headers.parse strayImage .native = .ok strayHeaders :=
  toOption_eq_some_iff.mp (by decide +kernel)

theorem sections_stray : strayHeaders.sections strayImage = [strayData, strayTable] := by
  decide +kernel

theorem alone_strayTable : strayTable.Alone strayHeaders strayImage := by
  apply alone_of_apart
  rw [sections_stray]
  decide

/-- The table that is walked. -/
def strayWalk : ByteArray := Fixup.tableOf strayImage strayTable.relocations ⟨384, 24⟩

/-- Its entry in the data, an address of 64 bits. -/
def strayEntry : Fixup.Site := ⟨336, 10, 4⟩

/-- The other entries have no field. -/
theorem listing_strayWalk :
    Fixup.listing strayWalk = ⟨[⟨336, 0, 0⟩, ⟨336, 0, 0⟩, strayEntry, ⟨336, 0, 0⟩], true⟩ := by
  decide +kernel

/-- Data that is walked moves the field that it names. -/
theorem patched_strayWalk {placed : ByteArray} (hsize : placed.size = 512) :
    ∃ bytes, patched strayHeaders 0x20000 placed strayWalk = .ok bytes ∧
      Bytes.leNat bytes 340 8 = (Bytes.leNat placed 340 8 + 0x10000) % 2 ^ 64 := by
  have hfits : ∀ e ∈ [⟨336, 0, 0⟩, ⟨336, 0, 0⟩, strayEntry, ⟨336, 0, 0⟩], e.Fits placed.size := by
    rw [hsize]
    decide
  have hdelta : UInt64.ofNat 0x20000 - strayHeaders.imageBase = 0x10000 := by decide
  have hfiller : ∀ memory, Fixup.Site.apply 0x10000 memory ⟨336, 0, 0⟩ = memory :=
    fun _ => Fixup.Site.apply_of_width rfl
  have hfield := @Fixup.Site.leNat_apply strayEntry 0x10000 placed
    (hfits strayEntry (.tail _ (.tail _ (.head _))))
  have htarget : strayEntry.target = 340 := rfl
  have hwidth : strayEntry.width = 8 := rfl
  have hnumber : (0x10000 : UInt64).toNat = 0x10000 := rfl
  have hmoved : ∀ old, strayEntry.moved 0x10000 old = (old + 0x10000) % 2 ^ 64 := by
    intro old
    simp only [strayEntry, Fixup.Site.moved, hnumber]
  rw [htarget, hwidth, hmoved] at hfield
  refine ⟨_, ?_, hfield⟩
  rw [patched, hdelta, Fixup.interpret, listing_strayWalk, Fixup.applySites_of_fits hfits]
  simp only [List.foldl_cons, List.foldl_nil, hfiller, if_true]

/-- A directory that is longer than the content of its section has bytes of the
next section walked, which are not in the memory of the directory.  What the
data says by chance moves a field of the data. -/
theorem walks_past_content :
    Headers.parse strayImage .native = .ok strayHeaders ∧
      strayTable ∈ strayHeaders.sections strayImage ∧
      strayTable.Alone strayHeaders strayImage ∧ strayTable.uninitialized = false ∧
      ∃ placed table bytes,
        Walks strayHeaders strayImage 0x20000 strayTable.relocations ⟨384, 24⟩ placed table ∧
        ¬ strayTable.rawPointer + 24 ≤ strayTable.rawPointer + strayTable.rawSize ∧
        table.extract 12 24 = strayData.rawData strayImage ∧
        placed.extract 384 (384 + 24) ≠ table ∧
        assembled strayHeaders strayImage 0x20000 = .ok bytes ∧
        Bytes.leNat bytes 340 8 = (Bytes.leNat placed 340 8 + 0x10000) % 2 ^ 64 := by
  have htable : TableFits strayHeaders strayHeaders.imageSize
      (strayHeaders.sections strayImage) := by
    rw [sections_stray, tableFits_iff, name_relocations]
    decide
  have hs : strayTable ∈ strayHeaders.sections strayImage := by
    rw [sections_stray]
    exact .tail _ (.head _)
  have hc : strayTable.CarriesRelocations strayHeaders :=
    ⟨name_relocations.symm, by decide, by decide, ⟨384, 24⟩, rfl, by decide, rfl, by decide⟩
  have hsize : strayImage.size = 352 := Bytes.size_flatMap_leList _
  have hw : Walks strayHeaders strayImage 0x20000 strayTable.relocations ⟨384, 24⟩ _ strayWalk :=
    walks_of_carries (fits_of_parse parse_strayImage) (by decide) htable hs hc rfl (by decide)
      (by rw [hsize]; decide)
  have hplaced := hw.extract_placed parse_strayImage hs hc rfl alone_strayTable (by decide)
  obtain ⟨bytes, hpatched, hfield⟩ := patched_strayWalk (hw.size_placed parse_strayImage)
  have hlong : strayTable.rawPointer + strayTable.rawSize < strayTable.rawPointer + 24 :=
    Nat.add_lt_add_left (by decide) _
  refine ⟨parse_strayImage, hs, alone_strayTable, by decide, _, _, bytes, hw, Nat.not_le.mpr hlong,
    by decide +kernel, ?_, (assembled_of_walks hw).trans hpatched, hfield⟩
  rw [hplaced]
  decide +kernel

end EfiLoader
