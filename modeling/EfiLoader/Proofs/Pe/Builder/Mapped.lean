import EfiLoader.Proofs.Loader.Sections
import EfiLoader.Proofs.Pe.Builder.Headers
import EfiLoader.Proofs.Pe.Overlay

/-!
# EfiLoader.Proofs.Pe.Builder.Mapped

The memory that an image is to have, and the memory that the loader makes of its
file.  One is written section by section from the description of the image, the
other from what the headers of the file say; both have the data of each section at
its address, with zeros up to its virtual size.

* `Mappable`, `Storable` — the images for which this is so;
* `byte_mapped`, `byte_overlaid` — a byte of either memory, as a byte of the data;
* `assembled_file` — so the loader makes the memory of the image, wherever it is.
-/

namespace EfiLoader.Pe

/-- Byte `j` of the image is one of the section. -/
def NewSection.Covers (s : NewSection) (j : Nat) : Prop :=
  s.virtualAddress.toNat ≤ j ∧ j < s.virtualAddress.toNat + s.virtualSize.toNat

/-! ## images without relocations -/

section
variable {h : Headers} {source : ByteArray}

theorem byte_overlay_blankImage (htable : TableFits h h.imageSize (h.sections source)) (j : Nat) :
    Bytes.byte (overlay h source (blankImage h source)).region j =
      overlaidByte source (blankImage h source) (h.sections source) j :=
  byte_overlay (by rwa [size_blankImage, Nat.min_self]) j

/-- Without relocations an image is assembled exactly if its sections fit, and its
memory has them as layers. -/
theorem assembled_eq_ok_iff_of_no_relocations (hf : h.Fits source) (hnone : h.relocations? = none)
    {base : Nat} {bytes : ByteArray} :
    assembled h source base = .ok bytes ↔
      h.entryPoint < h.imageSize ∧ TableFits h h.imageSize (h.sections source) ∧
        (overlay h source (blankImage h source)).region = bytes := by
  have hlimit : min (blankImage h source).size h.imageSize = h.imageSize := by
    rw [size_blankImage, Nat.min_self]
  rw [assembled]
  by_cases hentry : h.imageSize ≤ h.entryPoint
  · simp [hentry, Nat.not_lt.mpr hentry]
  rw [if_neg hentry, and_iff_right (Nat.lt_of_not_le hentry)]
  by_cases htable : TableFits h h.imageSize (h.sections source)
  · rw [value_placeSections_of_fits hf (by rwa [hlimit]), and_iff_right htable]
    dsimp only
    rw [rebased_of_no_relocations hnone, Except.ok.injEq]
  · obtain ⟨e, memory, hvalue⟩ :=
      value_placeSections_of_not_fits hf (by rwa [hlimit])
    simp [hvalue, htable]

end

namespace Builder

open Bytes (Stands Apart overwriteAll)

variable {b : Builder} {s t : NewSection} {i j k : Nat} {h : Headers}

/-! ## images that can be mapped -/

/-- Two sections have no byte in common. -/
def Disjoint (s t : NewSection) : Prop :=
  s.virtualAddress.toNat + s.virtualSize.toNat ≤ t.virtualAddress.toNat ∨
    t.virtualAddress.toNat + t.virtualSize.toNat ≤ s.virtualAddress.toNat

instance : DecidableRel Disjoint := fun _ _ => inferInstanceAs (Decidable (_ ∨ _))

/-- The sections lie side by side behind the headers, each with room for its data,
and nothing in the image depends on where it is. -/
@[mk_iff] structure Mappable (b : Builder) : Prop where
  rawSize : ∀ s ∈ b.sections, s.rawSize = none
  rawPointer : ∀ s ∈ b.sections, s.rawPointer = none
  nonempty : ∀ s ∈ b.sections, 0 < s.virtualSize.toNat
  headers : ∀ s ∈ b.sections, b.headersSize.toNat ≤ s.virtualAddress.toNat
  inside : ∀ s ∈ b.sections, s.virtualAddress.toNat + s.virtualSize.toNat ≤ b.imageSize.toNat
  disjoint : b.sections.Pairwise Disjoint
  data : ∀ s ∈ b.sections, s.data.size ≤ s.virtualSize.toNat
  uninitialized : ∀ s ∈ b.sections, s.flags &&& uninitializedBit ≠ 0 → s.data.size = 0
  /-- At most one section is called a relocation section. -/
  once : b.sections.countP (·.name = ".reloc") ≤ 1
  directories : b.directories.length = maxDirectories
  /-- The directory of base relocations is empty. -/
  relocations : (b.directories.getD relocationIndex (0, 0)).2 = 0
  entryPoint : b.entryPoint.toNat < b.imageSize.toNat

instance (b : Builder) : Decidable b.Mappable :=
  decidable_of_iff _ (mappable_iff b).symm

/-- The raw sizes and raw offsets of content fit the fields that they are stored in. -/
structure ContentFits (b : Builder) : Prop where
  rawSize_lt : ∀ s ∈ b.sections, roundUp s.data.size b.effectiveAlignment < 2 ^ 32
  start_lt : ∀ i s, b.sections[i]? = some s → s.rawBytes b.effectiveAlignment ≠ 0 →
    b.contentStart i < 2 ^ 32

/-- The section table can say what the sections are: their number and the places of
their content fit its fields, and at most one of the names in it is that of the
relocation section. -/
structure Storable (b : Builder) : Prop where
  sections : b.sections.length < 2 ^ 16
  content : b.ContentFits
  once : b.sections.countP (storedName · = relocationName) ≤ 1

/-- Only one section has an address. -/
theorem Mappable.index_eq_of_covers (hm : b.Mappable) (hs : b.sections[i]? = some s)
    (ht : b.sections[k]? = some t) (hsj : s.Covers j) (htj : t.Covers j) : i = k := by
  obtain ⟨hi, rfl⟩ := List.getElem?_eq_some_iff.mp hs
  obtain ⟨hk, rfl⟩ := List.getElem?_eq_some_iff.mp ht
  obtain ⟨hsj, hsj'⟩ := hsj
  obtain ⟨htj, htj'⟩ := htj
  have hdisjoint := List.pairwise_iff_getElem.mp hm.disjoint
  rcases Nat.lt_trichotomy i k with hik | hik | hki
  · have hbefore := hdisjoint i k hi hk hik
    rw [Disjoint] at hbefore
    omega
  · exact hik
  · have hbefore := hdisjoint k i hk hi hki
    rw [Disjoint] at hbefore
    omega

theorem Mappable.eq_of_covers (hm : b.Mappable) (hs : s ∈ b.sections) (ht : t ∈ b.sections)
    (hsj : s.Covers j) (htj : t.Covers j) : s = t := by
  obtain ⟨i, hi⟩ := List.mem_iff_getElem?.mp hs
  obtain ⟨k, hk⟩ := List.mem_iff_getElem?.mp ht
  obtain rfl := hm.index_eq_of_covers hi hk hsj htj
  exact Option.some.inj (hi.symm.trans hk)

/-! ## content -/

/-- All content fits if its sizes do and there is room behind the last one. -/
theorem ContentFits.of_lt
    (hsize : ∀ s ∈ b.sections, roundUp s.data.size b.effectiveAlignment < 2 ^ 32)
    (hend : b.contentStart b.sections.length < 2 ^ 32) : b.ContentFits where
  rawSize_lt := hsize
  start_lt := fun i _ hs _ =>
    have hi : i < b.sections.length := (List.getElem?_eq_some_iff.mp hs).1
    Nat.lt_of_le_of_lt (b.contentStart_mono (Nat.le_of_lt hi)) hend

theorem ContentFits.sequential (hc : b.ContentFits) (hm : b.Mappable) : b.Sequential where
  free := hm.rawPointer
  start_lt := hc.start_lt

theorem Storable.sequential (hst : b.Storable) (hm : b.Mappable) : b.Sequential :=
  hst.content.sequential hm

theorem rawBytes_eq (hc : b.ContentFits) (hm : b.Mappable) (hs : s ∈ b.sections) :
    (s.rawBytes b.effectiveAlignment).toNat = roundUp s.data.size b.effectiveAlignment := by
  rw [NewSection.rawBytes, hm.rawSize s hs]
  exact UInt32.toNat_ofNat_of_lt' (hc.rawSize_lt s hs)

/-- Content has room for all data. -/
theorem size_le_rawBytes (hc : b.ContentFits) (hm : b.Mappable) (hs : s ∈ b.sections) :
    s.data.size ≤ (s.rawBytes b.effectiveAlignment).toNat := by
  rw [rawBytes_eq hc hm hs]
  exact (PageBuffer.bounds_of_roundUp b.effectiveAlignment_pos s.data.size).2.1

/-- So all data stands in the file. -/
theorem stands_data (hc : b.ContentFits) (hm : b.Mappable) (hs : b.sections[i]? = some s)
    (hne : s.data.size ≠ 0) : Stands b.file (b.extent i s).pointer.toNat s.data := by
  have hle := size_le_rawBytes hc hm (List.mem_of_getElem? hs)
  have hwhole : s.data.extract 0 (b.extent i s).size.toNat = s.data := Bytes.extract_of_le hle
  have hcands := (hc.sequential hm).stands_content hs (by
    rw [size_placedContent, size_extent]
    simp only
    omega)
  rwa [hwhole] at hcands

theorem extract_data (hc : b.ContentFits) (hm : b.Mappable) (hs : b.sections[i]? = some s) :
    b.file.extract (b.extent i s).pointer.toNat ((b.extent i s).pointer.toNat + s.data.size) =
      s.data := by
  by_cases hempty : s.data.size = 0
  · have hnone : s.data = ByteArray.empty := ByteArray.size_eq_zero_iff.mp hempty
    rw [hempty, Nat.add_zero, ByteArray.extract_same, hnone]
  · exact (stands_data hc hm hs hempty).extract

/-- Byte `o` of the memory of a section is that of its data, and 0 behind it. -/
theorem byteAt_sectionHeader (hc : b.ContentFits) (hm : b.Mappable) (hs : b.sections[i]? = some s)
    (o : Nat) :
    (sectionHeader s (b.extent i s)).byteAt b.file o = Bytes.byte s.data o := by
  have hmem := List.mem_of_getElem? hs
  rw [SectionHeader.byteAt]
  by_cases hkind : (sectionHeader s (b.extent i s)).uninitialized
  · have hflags : s.flags &&& uninitializedBit ≠ 0 := by
      simpa [SectionHeader.uninitialized, sectionHeader] using hkind
    have hempty := hm.uninitialized s hmem hflags
    rw [if_pos hkind, Bytes.byte_of_le (by omega)]
  rw [if_neg hkind]
  have hraw : (sectionHeader s (b.extent i s)).rawSize =
      (s.rawBytes b.effectiveAlignment).toNat := rfl
  have hpointer : (sectionHeader s (b.extent i s)).rawPointer =
      (b.extent i s).pointer.toNat := rfl
  rw [hraw, hpointer]
  by_cases hdata : o < s.data.size
  · have hcands := stands_data hc hm hs (by omega)
    have hroom := hcands.room
    have hle := size_le_rawBytes hc hm hmem
    rw [if_pos (by omega), hcands.byte_eq o hdata]
  · rw [Bytes.byte_of_le (Nat.not_lt.mp hdata)]
    split
    · next hin =>
      exact (hc.sequential hm).byte_filling hm.directories hs (Nat.not_lt.mp hdata) hin.1
    · rfl

/-! ## the memory of the image -/

/-- The memory before the sections are in it. -/
def blank (b : Builder) : ByteArray :=
  Bytes.overwrite (Bytes.zeros b.imageSize.toNat) 0 (b.file.extract 0 b.headersSize.toNat)

@[simp] theorem size_blank (b : Builder) : b.blank.size = b.imageSize.toNat := by
  rw [blank, Bytes.size_overwrite, Bytes.size_zeros]

theorem byte_blank (hj : b.headersSize.toNat ≤ j) : Bytes.byte b.blank j = 0 := by
  rw [blank, Bytes.byte_overwrite, ByteArray.size_extract, if_neg (by omega), Bytes.byte_zeros]

/-- What is copied from the file, at the addresses of the sections. -/
def copies (b : Builder) : List (Nat × ByteArray) :=
  (b.sections.zip b.layout).map fun p => (p.1.virtualAddress.toNat,
    b.file.extract p.2.pointer.toNat (p.2.pointer.toNat + p.1.data.size))

theorem mapped_eq (b : Builder) : b.mapped = overwriteAll b.blank b.copies := by
  rw [overwriteAll, copies, List.foldl_map]
  rfl

/-- A copy is at the address of a section and no longer than its data. -/
theorem of_mem_copies {w : Nat × ByteArray} (hw : w ∈ b.copies) :
    ∃ s ∈ b.sections, w.1 = s.virtualAddress.toNat ∧ w.2.size ≤ s.data.size := by
  obtain ⟨p, hp, rfl⟩ := List.mem_map.mp hw
  refine ⟨p.1, (List.of_mem_zip hp).1, rfl, ?_⟩
  rw [ByteArray.size_extract]
  omega

/-- So copies are apart, whatever has been copied. -/
theorem Mappable.apart_copies (hm : b.Mappable) : b.copies.Pairwise Apart := by
  have hdisjoint : ((b.sections.zip b.layout).map Prod.fst).Pairwise Disjoint := by
    rw [List.map_fst_zip (Nat.le_of_eq b.length_layout.symm)]
    exact hm.disjoint
  rw [copies, List.pairwise_map]
  refine (List.pairwise_map.mp hdisjoint).imp_of_mem fun {p q} hp hq hpq => ?_
  have hp := hm.data p.1 (List.of_mem_zip hp).1
  have hq := hm.data q.1 (List.of_mem_zip hq).1
  rw [Apart, ByteArray.size_extract, ByteArray.size_extract]
  refine hpq.imp (fun h => ?_) fun h => ?_
  · omega
  · omega

@[simp] theorem size_mapped (b : Builder) : b.mapped.size = b.imageSize.toNat := by
  rw [mapped_eq, Bytes.size_overwriteAll, size_blank]

/-- What is copied for a section stands at its address. -/
theorem stands_copy (hm : b.Mappable) (hs : b.sections[i]? = some s) {e : Extent}
    (he : b.layout[i]? = some e) :
    Stands b.mapped s.virtualAddress.toNat
      (b.file.extract e.pointer.toNat (e.pointer.toNat + s.data.size)) := by
  have hmem := List.mem_of_getElem? hs
  have hinside := hm.inside s hmem
  have hroom := hm.data s hmem
  have hcopy : (s.virtualAddress.toNat,
      b.file.extract e.pointer.toNat (e.pointer.toNat + s.data.size)) ∈ b.copies :=
    List.mem_map.mpr ⟨(s, e), List.mem_of_getElem? (List.getElem?_zip_eq_some.mpr ⟨hs, he⟩), rfl⟩
  rw [mapped_eq]
  refine Bytes.stands_overwriteAll hm.apart_copies hcopy ?_
  rw [size_blank, ByteArray.size_extract]
  omega

/-- A byte of a section is that of its data, and 0 behind it. -/
theorem byte_mapped (hc : b.ContentFits) (hm : b.Mappable) (hs : b.sections[i]? = some s)
    (hcovers : s.Covers j) :
    Bytes.byte b.mapped j = Bytes.byte s.data (j - s.virtualAddress.toNat) := by
  by_cases hdata : j - s.virtualAddress.toNat < s.data.size
  · have hcopy := stands_copy hm hs ((hc.sequential hm).layout_getElem? hs)
    rw [extract_data hc hm hs] at hcopy
    rw [← hcopy.byte_eq _ hdata, Nat.add_sub_cancel' hcovers.1]
  · have hmem := List.mem_of_getElem? hs
    have hheaders := Nat.le_trans (hm.headers s hmem) hcovers.1
    rw [mapped_eq, Bytes.byte_of_le (Nat.not_lt.mp hdata), Bytes.byte_overwriteAll,
      byte_blank hheaders]
    intro w hw
    obtain ⟨t, ht, haddress, hsize⟩ := of_mem_copies hw
    have hroom := hm.data t ht
    by_contra hin
    obtain rfl := hm.eq_of_covers hmem ht hcovers ⟨by omega, by omega⟩
    omega

/-- Any other byte is as it was before. -/
theorem byte_mapped_of_not_covers (hm : b.Mappable) (hnone : ∀ s ∈ b.sections, ¬ s.Covers j) :
    Bytes.byte b.mapped j = Bytes.byte b.blank j := by
  rw [mapped_eq, Bytes.byte_overwriteAll]
  intro w hw
  obtain ⟨t, ht, haddress, hsize⟩ := of_mem_copies hw
  have hroom := hm.data t ht
  have houtside := hnone t ht
  rw [NewSection.Covers] at houtside
  omega

/-- The memory of a section is its data with zeros up to the virtual size. -/
theorem extract_mapped (hc : b.ContentFits) (hm : b.Mappable) (hs : b.sections[i]? = some s) :
    b.mapped.extract s.virtualAddress.toNat (s.virtualAddress.toNat + s.virtualSize.toNat) =
      s.data ++ Bytes.zeros (s.virtualSize.toNat - s.data.size) := by
  have hmem := List.mem_of_getElem? hs
  have hinside := hm.inside s hmem
  have hroom := hm.data s hmem
  have hsize := b.size_mapped
  refine Bytes.ext_byte ?_ fun j hj => ?_
  · rw [ByteArray.size_extract, ByteArray.size_append, Bytes.size_zeros]
    omega
  rw [ByteArray.size_extract] at hj
  have hcovers : s.Covers (s.virtualAddress.toNat + j) := ⟨by omega, by omega⟩
  rw [Bytes.byte_extract (by omega), byte_mapped hc hm hs hcovers, Nat.add_sub_cancel_left]
  by_cases hdata : j < s.data.size
  · rw [Bytes.byte_append_left hdata]
  · have hrest := Bytes.byte_append_right s.data
      (Bytes.zeros (s.virtualSize.toNat - s.data.size)) (j - s.data.size)
    rw [Nat.add_sub_cancel' (Nat.not_lt.mp hdata), Bytes.byte_zeros] at hrest
    rw [hrest, Bytes.byte_of_le (Nat.not_lt.mp hdata)]

/-- The memory begins with the headers of the file. -/
theorem headers_mapped (hm : b.Mappable)
    (hheaders : b.headersSize.toNat ≤ b.imageSize.toNat) :
    b.mapped.extract 0 b.headersSize.toNat = b.file.extract 0 b.headersSize.toNat := by
  have hmapped : b.headersSize.toNat ≤ b.mapped.size := by
    rwa [size_mapped]
  have hfile : b.headersSize.toNat ≤ b.file.size := by
    rw [size_file]
    exact Nat.le_trans b.headersSize_le_headersEnd b.headersEnd_le_fileSize
  have hsize := Bytes.size_front hmapped
  have hfront := Bytes.size_front hfile
  refine Bytes.ext_byte (by rw [hsize, hfront]) fun j hj => ?_
  rw [hsize] at hj
  rw [Bytes.byte_front hj, byte_mapped_of_not_covers hm, blank,
    Bytes.byte_overwrite_zero (by rw [Bytes.size_zeros]; omega), hfront, if_pos hj]
  intro s hs hcovers
  exact Nat.not_le.mpr hj (Nat.le_trans (hm.headers s hs) hcovers.1)

/-! ## the memory that the loader makes -/

/-- The sections that the headers have are those of the image. -/
theorem sections_written (hclear : b.Clear) (hlength : b.sections.length < 2 ^ 16) :
    b.written.sections b.file = List.zipWith sectionHeader b.sections b.layout := by
  have hcount : b.written.sectionCount = b.sections.length := Nat.mod_eq_of_lt hlength
  apply List.ext_getElem
  · rw [Headers.sections, List.length_map, List.length_range, hcount, List.length_zipWith,
      length_layout, Nat.min_self]
  · intro i hi hi'
    rw [List.length_zipWith] at hi'
    have hs : b.sections[i]? = some b.sections[i] := List.getElem?_eq_getElem (by omega)
    have he : b.layout[i]? = some b.layout[i] := List.getElem?_eq_getElem (by omega)
    rw [List.getElem_zipWith, ← read_sectionBytes (hclear.stands_entry hs he)]
    simp only [Headers.sections, List.getElem_map, List.getElem_range]
    rfl

theorem mem_sections_written_iff (hst : b.Storable) (hm : b.Mappable) {x : SectionHeader} :
    x ∈ b.written.sections b.file ↔
      ∃ i s, b.sections[i]? = some s ∧ x = sectionHeader s (b.extent i s) := by
  rw [sections_written (hst.sequential hm).clear hst.sections, List.mem_iff_getElem?]
  constructor
  · rintro ⟨i, hi⟩
    obtain ⟨s, e, hs, he, rfl⟩ := List.getElem?_zipWith_eq_some.mp hi
    rw [(hst.sequential hm).layout_getElem? hs] at he
    exact ⟨i, s, hs, by rw [Option.some.inj he]⟩
  · rintro ⟨i, s, hs, rfl⟩
    exact ⟨i, List.getElem?_zipWith_eq_some.mpr
      ⟨s, _, hs, (hst.sequential hm).layout_getElem? hs, rfl⟩⟩

/-- The section table fits the image. -/
theorem tableFits_written (hst : b.Storable) (hm : b.Mappable) :
    TableFits b.written b.imageSize.toNat (b.written.sections b.file) where
  once := by
    have hnames : (b.written.sections b.file).countP (·.name = relocationName) =
        b.sections.countP (storedName · = relocationName) := by
      rw [sections_written (hst.sequential hm).clear hst.sections,
        ← List.map_uncurry_zip_eq_zipWith, List.countP_map]
      conv => rhs; rw [← List.map_fst_zip (Nat.le_of_eq b.length_layout.symm), List.countP_map]
      rfl
    rw [hnames]
    exact hst.once
  each := by
    intro x hx
    obtain ⟨i, s, hs, rfl⟩ := (mem_sections_written_iff hst hm).mp hx
    have hmem := List.mem_of_getElem? hs
    have hpos := hm.nonempty s hmem
    refine ⟨fun h0 => absurd h0 (Nat.ne_of_gt hpos), fun _ => hm.inside s hmem, fun _ _ => ?_⟩
    by_cases hzero : s.rawBytes b.effectiveAlignment = 0
    · left
      rw [sectionHeader, size_extent, hzero]
      rfl
    · right
      change b.headersSize.toNat ≤ (b.extent i s).pointer.toNat
      rw [(hst.sequential hm).pointer_extent hs hzero]
      exact Nat.le_trans b.headersSize_le_headersEnd (b.headersEnd_le_contentStart i)

/-- A byte of the image with its sections is one of the memory it is to have. -/
theorem byte_overlaid (hst : b.Storable) (hm : b.Mappable) (j : Nat) :
    overlaidByte b.file b.blank (b.written.sections b.file) j = Bytes.byte b.mapped j := by
  rw [overlaidByte]
  cases hlast : ((b.written.sections b.file).filter fun x => x.Covers j).getLast? with
  | none =>
    rw [List.getLast?_eq_none_iff, List.filter_eq_nil_iff] at hlast
    refine (byte_mapped_of_not_covers hm fun s hs hcovers => ?_).symm
    obtain ⟨i, hi⟩ := List.mem_iff_getElem?.mp hs
    have hheader : (sectionHeader s (b.extent i s)).Covers j := hcovers
    exact hlast _ ((mem_sections_written_iff hst hm).mpr ⟨i, s, hi, rfl⟩)
      (decide_eq_true hheader)
  | some x =>
    have hx := List.mem_filter.mp (List.mem_of_getLast? hlast)
    obtain ⟨i, s, hs, rfl⟩ := (mem_sections_written_iff hst hm).mp hx.1
    have hheader : (sectionHeader s (b.extent i s)).Covers j := of_decide_eq_true hx.2
    rw [byte_mapped hst.content hm hs hheader]
    exact byteAt_sectionHeader hst.content hm hs _

/-- Nothing in the image depends on where it is. -/
theorem relocations?_written (hm : b.Mappable) : b.written.relocations? = none := by
  rw [Headers.relocations?, Option.filter_eq_none_iff]
  intro dir hdir
  change b.directory? relocationIndex = some dir at hdir
  rw [directory?] at hdir
  split at hdir
  · obtain ⟨d, hd, rfl⟩ := Option.map_eq_some_iff.mp hdir
    have hempty := hm.relocations
    rw [List.getD_eq_getElem?_getD, hd, Option.getD_some] at hempty
    simp [hempty]
  · cases hdir

/-- **The loader makes the memory of the image**, wherever the image is. -/
theorem assembled_file (hst : b.Storable) (hm : b.Mappable)
    (hp : Headers.parse b.file .native = .ok b.written) (base : Nat) :
    assembled b.written b.file base = .ok b.mapped := by
  have htable := tableFits_written hst hm
  refine (assembled_eq_ok_iff_of_no_relocations (fits_of_parse hp)
    (relocations?_written hm)).mpr ⟨hm.entryPoint, htable, ?_⟩
  have hblank : blankImage b.written b.file = b.blank := rfl
  refine Bytes.ext_byte
    (by rw [size_overlay, hblank, size_blank, size_mapped]) fun j _ => ?_
  rw [byte_overlay_blankImage htable, hblank, byte_overlaid hst hm]

end Builder

end EfiLoader.Pe
