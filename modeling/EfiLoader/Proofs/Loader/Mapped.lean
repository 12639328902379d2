import EfiLoader.Proofs.Loader.Image
import EfiLoader.Proofs.Pe.Builder.Mapped
import EfiLoader.Proofs.Pe.Search

/-!
# EfiLoader.Proofs.Loader.Mapped

Loading the file of an image that is made gives the memory that the image is to
have (`placeImage_file`), and its sections are found there by their names.
-/

namespace EfiLoader

open Pe

variable {φ : Type} {fw : Firmware φ} {m : Machine φ}

/-! ## granted pages -/

theorem PageBuffer.slack_le (alignment : Nat) : slack alignment ≤ alignment := by
  unfold slack
  split
  · exact Nat.zero_le _
  · exact Nat.sub_le _ _

/-- The bytes that an image asks for can be counted in little more than 32 bits. -/
theorem Pe.Headers.Fits.size_lt {h : Headers} {source : ByteArray} (hf : h.Fits source) :
    h.imageSize + PageBuffer.slack h.sectionAlignment < 2 ^ 33 := by
  have himage := hf.imageSize_lt
  have halignment := hf.alignment_lt
  have hslack := PageBuffer.slack_le h.sectionAlignment
  omega

/-- The pages that are asked for to load an image. -/
def Pe.Headers.pages (h : Headers) : Nat :=
  pagesHolding (h.imageSize + PageBuffer.slack h.sectionAlignment)

/-- A firmware in the state `f` hands out proper pages for an image. -/
def Firmware.Grants (fw : Firmware φ) (f : φ) (h : Headers) : Prop :=
  ∃ address g, fw.allocatePages loaderCode h.pages f = (.ok address, g) ∧
    PageAllocation.Proper ⟨address, h.pages, loaderCode⟩

/-- An image for which there are pages gets its memory. -/
theorem Firmware.Grants.exists_buffer {h : Headers} {source : ByteArray}
    (hgrants : fw.Grants m.firmware h) (hf : h.Fits source) :
    ∃ buffer m', Attempt.ends (PageBuffer.allocate fw h.imageSize h.sectionAlignment loaderCode) m =
      (.ok buffer, m') := by
  obtain ⟨address, g, hallocate, hproper⟩ := hgrants
  have hcount : h.imageSize + PageBuffer.slack h.sectionAlignment < addressLimit :=
    Nat.lt_trans hf.size_lt (by decide)
  have hpages : PageBuffer.pagesNeeded? h.imageSize h.sectionAlignment = some h.pages :=
    if_pos hcount
  obtain ⟨base, hbase⟩ :=
    PageBuffer.exists_alignedBase? hproper hf.imageSize_pos hf.alignment_pos hpages
  exact ⟨_, _, PageBuffer.ends_allocate_eq_ok_iff.mpr
    ⟨⟨Nat.ne_of_gt hf.imageSize_pos, Nat.ne_of_gt hf.alignment_pos⟩, h.pages, address, base, g,
      hpages, hallocate, hbase, rfl, rfl⟩⟩

/-- One place of the bench has proper pages for any image. -/
theorem Bench.grants_placing {h : Headers} {source : ByteArray} (hf : h.Fits source) :
    (placing 0x100000000).Grants PageBuffer.usedBench.firmware h := by
  have hsize := hf.size_lt
  refine ⟨_, _, rfl, ⟨0x100000, rfl⟩, ?_⟩
  simp only [Headers.pages, pagesHolding, pageSize, addressLimit]
  omega

namespace Pe.Builder

variable {b : Builder} {s : NewSection} {i : Nat}

/-! ## sections by name -/

/-- A section with a stored name of its own. -/
def Alone (b : Builder) (i : Nat) (s : NewSection) : Prop :=
  ∀ j t, b.sections[j]? = some t → j ≠ i → storedName t ≠ storedName s

/-- The section is found in the memory of the image. -/
theorem embeddedSection_mapped (hst : b.Storable) (hm : b.Mappable)
    (hp : Headers.parse b.file .native = .ok b.written)
    (happlication : b.subsystem = efiApplication) (hs : b.sections[i]? = some s)
    (hsize : s.name.toUTF8.size ≤ sectionNameSize)
    (hnul : 0 ∉ sectionName s.name) (halone : b.Alone i s) :
    (embeddedSection b.mapped (sectionName s.name)).value =
      .ok (some (s.data ++ Bytes.zeros (s.virtualSize.toNat - s.data.size))) := by
  have hmem := List.mem_of_getElem? hs
  have hfits := fits_of_parse hp
  have hmapped : b.written.headersSize ≤ b.mapped.size := b.size_mapped ▸ hfits.image
  obtain ⟨hparse, hsections⟩ := sections_of_headers hp hmapped (headers_mapped hm hfits.image)
  have hlayout := (hst.sequential hm).layout_getElem? hs
  have hheader : (b.written.sections b.mapped)[i]? = some (sectionHeader s (b.extent i s)) := by
    rw [hsections, sections_written (hst.sequential hm).clear hst.sections]
    exact List.getElem?_zipWith_eq_some.mpr ⟨s, _, hs, hlayout, rfl⟩
  have hothers : ∀ j x, (b.written.sections b.mapped)[j]? = some x → j ≠ i →
      x.name ≠ (sectionHeader s (b.extent i s)).name := by
    intro j x hx hj
    rw [hsections, sections_written (hst.sequential hm).clear hst.sections] at hx
    obtain ⟨t, e, ht, -, rfl⟩ := List.getElem?_zipWith_eq_some.mp hx
    exact halone j t ht hj
  have hbytes : bytesAt? b.mapped s.virtualAddress.toNat s.virtualSize.toNat =
      some (s.data ++ Bytes.zeros (s.virtualSize.toNat - s.data.size)) := by
    have hinside := hm.inside s hmem
    rw [← size_mapped] at hinside
    rw [bytesAt?, Range.checked?, if_pos s.virtualSize.toNat_lt, Range.inside?, if_pos hinside,
      Option.map_some, Range.slice, extract_mapped hst.content hm hs]
  rw [value_embeddedSection hparse, ← storedName_eq hsize hnul]
  exact search_of_alone happlication (fits_of_parse hparse) hheader hothers hbytes

/-! ## the theorem -/

/-- **Loading a made image**: an image that is accepted and whose sections lie side
by side, with numbers that fit their fields, is loaded wherever there are pages for
it, and its memory is the one that the image is to have.  In the memory of an
application, a section with a name of its own is found by that name, with zeros
behind its data. -/
theorem placeImage_file {h : Headers}
    (haccepted : (Headers.parseNoted b.file .native).value = .ok h) (hm : b.Mappable)
    (hst : b.Storable) (hgrants : fw.Grants m.firmware h) :
    ∃ buffer m', Attempt.ends (placeImage fw h b.file) m = (.ok buffer, m') ∧
      m'.shared.memory.read buffer.base b.imageSize.toNat = b.mapped ∧
      (b.subsystem = efiApplication → ∀ i s, b.sections[i]? = some s →
        s.name.toUTF8.size ≤ sectionNameSize → 0 ∉ sectionName s.name → b.Alone i s →
        (embeddedSection (m'.shared.memory.read buffer.base b.imageSize.toNat)
            (sectionName s.name)).value =
          .ok (some (s.data ++ Bytes.zeros (s.virtualSize.toNat - s.data.size)))) := by
  rw [Headers.value_parseNoted] at haccepted
  have hclear := (hst.sequential hm).clear
  obtain ⟨-, rfl⟩ := (parse_file_eq_ok_iff hclear hm.directories).mp haccepted
  obtain ⟨buffer, m₁, hallocate⟩ := hgrants.exists_buffer (fits_of_parse haccepted)
  have hends := ends_placeImage_eq_ok_iff.mpr
    ⟨m₁, b.mapped, hallocate, assembled_file hst hm haccepted buffer.base, rfl⟩
  have hread := Memory.read_write m₁.shared.memory buffer.base b.mapped
  rw [size_mapped] at hread
  refine ⟨buffer, _, hends, hread, fun happlication i s hs hsize hnul halone => ?_⟩
  rw [hread]
  exact embeddedSection_mapped hst hm haccepted happlication hs hsize hnul halone

/-! ## loading a program -/

/-- Code at 0x1000, and data that ends in zeros at 0x2000. -/
def program : Builder :=
  { sections := [.text 0x1000 1 [0xC3].toByteArray, .ofData 0x2000 4 [1, 2].toByteArray] }

theorem mappable_program : program.Mappable := by decide

theorem storable_program : program.Storable where
  sections := by decide
  content := .of_lt (by decide) (by decide)
  once := by decide

theorem parse_program : Headers.parse program.file .native = .ok program.written :=
  (parse_file_eq_ok_iff (storable_program.sequential mappable_program).clear rfl).mpr
    ⟨by decide, rfl⟩

theorem alone_program : program.Alone 1 (.ofData 0x2000 4 [1, 2].toByteArray) := by
  intro j t ht hj
  match j with
  | 0 =>
    cases ht
    decide
  | 1 => exact absurd rfl hj
  | j + 2 => cases ht

/-- It is loaded as it is to be, and its data is found by name. -/
theorem placeImage_file_program :
    ∃ buffer m', Attempt.ends (placeImage (Bench.placing 0x100000000) program.written program.file)
        PageBuffer.usedBench = (.ok buffer, m') ∧
      m'.shared.memory.read buffer.base 0x3000 = program.mapped ∧
      (embeddedSection program.mapped (sectionName ".data")).value =
        .ok (some [1, 2, 0, 0].toByteArray) := by
  have haccepted : (Headers.parseNoted program.file .native).value = .ok program.written := by
    rw [Headers.value_parseNoted, parse_program]
  obtain ⟨buffer, m', hends, hread, hfound⟩ := placeImage_file haccepted mappable_program
    storable_program (Bench.grants_placing (fits_of_parse parse_program))
  have hdata := hfound rfl 1 _ rfl (by decide) (by decide) alone_program
  have hfilled : [1, 2].toByteArray ++ Bytes.zeros 2 = [1, 2, 0, 0].toByteArray := by
    decide +kernel
  rw [hread] at hdata
  rw [← hfilled]
  exact ⟨buffer, m', hends, hread, hdata⟩

/-! ## images that do not fit their fields -/

/-- An image whose file is accepted and whose sections lie side by side is not loaded
as the memory that it is to have, although there are pages for it. -/
def Misloads (b : Builder) : Prop :=
  (Headers.parseNoted b.file .native).value = .ok b.written ∧ b.Mappable ∧
    (Bench.placing 0x100000000).Grants PageBuffer.usedBench.firmware b.written ∧
    ¬ ∃ buffer m', Attempt.ends (placeImage (Bench.placing 0x100000000) b.written b.file)
        PageBuffer.usedBench = (.ok buffer, m') ∧
      m'.shared.memory.read buffer.base b.imageSize.toNat = b.mapped

/-- The sections that the file has do not fit the image, or one of the bytes that
they give it is not the one it is to have. -/
theorem misloads_of_wrong (hclear : b.Clear) (hm : b.Mappable) (ha : b.Acceptable .native)
    (hwrong : TableFits b.written b.imageSize.toNat (b.written.sections b.file) →
      ∃ j, overlaidByte b.file b.blank (b.written.sections b.file) j ≠ Bytes.byte b.mapped j) :
    b.Misloads := by
  have hparse : Headers.parse b.file .native = .ok b.written :=
    (parse_file_eq_ok_iff hclear hm.directories).mpr ⟨ha, rfl⟩
  have hfits := fits_of_parse hparse
  refine ⟨by rw [Headers.value_parseNoted, hparse], hm, Bench.grants_placing hfits, ?_⟩
  rintro ⟨buffer, m', hends, hread⟩
  obtain ⟨m₁, bytes, -, hassembled, rfl⟩ := ends_placeImage_eq_ok_iff.mp hends
  have hsize : bytes.size = b.imageSize.toNat := size_assembled hassembled
  have hbytes := Memory.read_write m₁.shared.memory buffer.base bytes
  rw [hsize] at hbytes
  obtain ⟨-, htable, hregion⟩ := (assembled_eq_ok_iff_of_no_relocations hfits
    (relocations?_written hm)).mp hassembled
  obtain ⟨j, hj⟩ := hwrong htable
  have hmapped : bytes = b.mapped := hbytes.symm.trans hread
  rw [← hmapped, ← hregion, byte_overlay_blankImage htable] at hj
  exact hj rfl

/-- Sections that are not counted are not loaded. -/
theorem misloads_of_uncounted (hc : b.ContentFits) (hm : b.Mappable) (ha : b.Acceptable .native)
    (hcount : b.sections.length % 2 ^ 16 = 0) (hs : b.sections[i]? = some s)
    (hdata : Bytes.byte s.data 0 ≠ 0) : b.Misloads := by
  have hmem := List.mem_of_getElem? hs
  refine misloads_of_wrong (hc.sequential hm).clear hm ha fun _ => ⟨s.virtualAddress.toNat, ?_⟩
  have hnone : b.written.sections b.file = [] := by
    rw [Headers.sections]
    change (List.range (b.sections.length % 2 ^ 16)).map _ = []
    rw [hcount]
    rfl
  have hcovers : s.Covers s.virtualAddress.toNat :=
    ⟨Nat.le_refl _, Nat.lt_add_of_pos_right (hm.nonempty s hmem)⟩
  have hloaded : overlaidByte b.file b.blank [] s.virtualAddress.toNat = 0 :=
    byte_blank (hm.headers s hmem)
  rw [hnone, hloaded, byte_mapped hc hm hs hcovers, Nat.sub_self]
  exact hdata.symm

/-- A section whose raw size is lost is loaded as zeros, where the memory of the
image has the start of the file. -/
theorem misloads_of_lost (hclear : b.Clear) (hm : b.Mappable) (ha : b.Acceptable .native)
    (hlength : b.sections.length < 2 ^ 16) (hs : b.sections[i]? = some s)
    (hextent : b.layout[i]? = some ⟨0, 0⟩) (hdata : 0 < s.data.size) : b.Misloads := by
  have hmem := List.mem_of_getElem? hs
  refine misloads_of_wrong hclear hm ha fun _ => ⟨s.virtualAddress.toNat, ?_⟩
  have hloaded : overlaidByte b.file b.blank (b.written.sections b.file)
      s.virtualAddress.toNat = 0 := by
    rw [overlaidByte]
    split
    · exact byte_blank (hm.headers s hmem)
    · next x hlast =>
      have hx := List.mem_filter.mp (List.mem_of_getLast? hlast)
      have hcovers : x.Covers s.virtualAddress.toNat := of_decide_eq_true hx.2
      rw [sections_written hclear hlength, List.mem_iff_getElem?] at hx
      obtain ⟨k, hk⟩ := hx.1
      obtain ⟨t, e, ht, he, rfl⟩ := List.getElem?_zipWith_eq_some.mp hk
      obtain rfl := hm.index_eq_of_covers hs ht
        ⟨Nat.le_refl _, Nat.lt_add_of_pos_right (hm.nonempty s hmem)⟩ hcovers
      rw [hextent] at he
      obtain rfl := Option.some.inj he
      simp [SectionHeader.byteAt, sectionHeader]
  have hmapped : Bytes.byte b.mapped s.virtualAddress.toNat = 0x4D := by
    have hstub := stub_file hclear
    have hroom := hstub.room
    rw [Bytes.size_le] at hroom
    have hcopy := stands_copy hm hs hextent
    have hfirst : Bytes.byte b.mapped (s.virtualAddress.toNat + 0) =
        Bytes.byte (b.file.extract 0 (0 + s.data.size)) 0 := hcopy.byte_eq 0 (by
      rw [ByteArray.size_extract, UInt32.toNat_zero]
      omega)
    rw [Nat.add_zero, Bytes.byte_extract (by omega)] at hfirst
    rw [hfirst]
    exact hstub.byte_eq 0 (by decide)
  rw [hloaded, hmapped]
  decide

/-- Two sections whose names are stored as that of the relocation section. -/
def twoRelocations : Builder :=
  { sections := [
      { name := ".reloc", virtualAddress := 0x1000, virtualSize := 1, data := [0x41].toByteArray },
      { name := ".reloc\x00a", virtualAddress := 0x2000, virtualSize := 1
        data := [0x42].toByteArray }] }

theorem misloads_twoRelocations : twoRelocations.Misloads := by
  have hclear : twoRelocations.Clear :=
    (Sequential.of_lt (by decide) (by decide)).clear
  refine misloads_of_wrong hclear (by decide) (by decide) fun htable => ?_
  rw [sections_written hclear (by decide)] at htable
  exact absurd htable.once (by decide +kernel)

/-- A section so far behind that 32 bits do not hold where its content starts. -/
def distant : Builder :=
  { fileAlignment := 0x80000100, headersSize := 0x80000101, imageSize := 0x80000103
    sections := [.ofData 0x80000101 2 [0x41].toByteArray] }

theorem misloads_distant : distant.Misloads := by
  have hclear : distant.Clear := by
    unfold Clear
    decide
  refine misloads_of_wrong hclear (by decide) (by decide) fun htable => ?_
  rw [sections_written hclear (by decide)] at htable
  exact absurd htable (by decide)

/-- Section `i` of a row of bytes, of which the first is given. -/
def rowSection (i : Nat) : NewSection :=
  { name := "", virtualAddress := UInt32.ofNat (0x400 + i), virtualSize := 1
    data := if i = 0 then [0x41].toByteArray else ByteArray.empty }

theorem toNat_rowSection {i : Nat} (hi : i < 65536) :
    (rowSection i).virtualAddress.toNat = 0x400 + i :=
  UInt32.toNat_ofNat_of_lt' (Nat.lt_trans (Nat.add_lt_add_left hi _) (by decide))

theorem size_rowSection (i : Nat) : (rowSection i).data.size ≤ 1 := by
  rw [rowSection]
  split
  · exact Nat.le_refl 1
  · exact Nat.zero_le 1

/-- Such sections side by side. -/
def row (n : Nat) : List NewSection := (List.range n).map rowSection

/-- An image with them. -/
def crowded (n : Nat) : Builder := { imageSize := 0x10400, sections := row n }

theorem length_row (n : Nat) : (row n).length = n := by
  rw [row, List.length_map, List.length_range]

theorem forall_row {n : Nat} {P : NewSection → Prop} (h : ∀ i < n, P (rowSection i)) :
    ∀ s ∈ row n, P s := by
  rw [row, List.forall_mem_map]
  exact fun i hi => h i (List.mem_range.mp hi)

theorem pairwise_row {n : Nat} (hn : n ≤ 65536) : (row n).Pairwise Disjoint := by
  rw [row, List.pairwise_map]
  refine List.pairwise_lt_range.imp_of_mem fun hi hj hij => Or.inl ?_
  rw [toNat_rowSection (Nat.lt_of_lt_of_le (List.mem_range.mp hi) hn),
    toNat_rowSection (Nat.lt_of_lt_of_le (List.mem_range.mp hj) hn)]
  exact Nat.add_le_add_left hij _

theorem contentSum_row (n : Nat) : contentSum 0x200 (row n) ≤ n * 0x200 := by
  have hraw : ∀ s ∈ row n, (s.rawBytes 0x200).toNat ≤ 0x200 := forall_row fun i _ => by
    have hsize := size_rowSection i
    change (UInt32.ofNat (roundUp (rowSection i).data.size 0x200)).toNat ≤ 0x200
    rw [UInt32.toNat_ofNat', roundUp]
    omega
  have hsum := contentSum_le hraw
  rwa [length_row] at hsum

theorem length_crowded (n : Nat) : (crowded n).sections.length = n := length_row n

theorem getElem?_crowded {n i : Nat} (hi : i < n) :
    (crowded n).sections[i]? = some (rowSection i) := by
  change ((List.range n).map rowSection)[i]? = _
  rw [List.getElem?_map, List.getElem?_range hi]
  rfl

section
variable {n : Nat} (hn : n ≤ 65536)
include hn

theorem mappable_crowded : (crowded n).Mappable where
  rawSize := forall_row fun _ _ => rfl
  rawPointer := forall_row fun _ _ => rfl
  nonempty := forall_row fun _ _ => Nat.one_pos
  headers := forall_row fun i hi => by
    rw [toNat_rowSection (Nat.lt_of_lt_of_le hi hn)]
    exact Nat.le_add_right _ _
  inside := forall_row fun i hi => by
    rw [toNat_rowSection (Nat.lt_of_lt_of_le hi hn)]
    change 0x400 + i + 1 ≤ 0x10400
    omega
  disjoint := pairwise_row hn
  data := forall_row fun i _ => size_rowSection i
  uninitialized := forall_row fun _ _ hflag =>
    have hclear : (0xC0000040 : UInt32) &&& uninitializedBit = 0 := by decide
    absurd hclear hflag
  once := by
    have hname : decide ("" = ".reloc") ≠ true := by decide
    have hnone : (crowded n).sections.countP (·.name = ".reloc") = 0 :=
      List.countP_eq_zero.mpr (forall_row fun _ _ => hname)
    rw [hnone]
    exact Nat.zero_le 1
  directories := rfl
  relocations := rfl
  entryPoint := by
    change 0x1000 < 0x10400
    decide

theorem contentFits_crowded : (crowded n).ContentFits := by
  have halignment : (crowded n).effectiveAlignment = 0x200 := rfl
  refine .of_lt (forall_row fun i _ => ?_) ?_
  · have hsize := size_rowSection i
    rw [halignment, roundUp]
    omega
  · have hsum := contentSum_row n
    have hend : (crowded n).headersEnd ≤ 0x290000 := by
      have htable : (crowded n).tableStart = 328 := rfl
      have hdirectories : optionalStart + (crowded n).fullOptionalSize = 328 := rfl
      have hdeclared : (crowded n).headersSize.toNat = 0x400 := rfl
      rw [headersEnd, htable, hdirectories, hdeclared, length_crowded, sectionHeaderSize]
      omega
    rw [contentStart, halignment, List.take_length, roundUp]
    change _ + contentSum 0x200 (row n) < _
    omega
end

theorem acceptable_crowded : (crowded 65536).Acceptable .native where
  machine := rfl
  width := rfl
  loadable := by decide
  relocatable := by decide
  littleEndian := by decide
  alignment := by decide
  directories := by decide
  optionalSize := by decide
  sections := by
    rw [length_crowded]
    decide
  table := by
    rw [length_crowded]
    decide
  headers := by decide

theorem misloads_crowded : (crowded 65536).Misloads := by
  have hcount : (crowded 65536).sections.length % 2 ^ 16 = 0 := by
    rw [length_crowded]
    rfl
  have hfirst : (crowded 65536).sections[0]? = some (rowSection 0) :=
    getElem?_crowded (by decide)
  exact misloads_of_uncounted (contentFits_crowded (Nat.le_refl _))
    (mappable_crowded (Nat.le_refl _)) acceptable_crowded hcount hfirst (by decide)

/-- Data so long that 32 bits do not hold the raw size that it is filled up to. -/
def bulky : Builder :=
  { fileAlignment := 0x80000000, imageSize := 0x80000402
    sections := [
      .ofData 0x400 0x80000001 (Bytes.zeros 0x80000001),
      .ofData 0x80000401 1 [0x41].toByteArray] }

theorem layout_bulky : bulky.layout = [⟨0, 0⟩, ⟨0x80000000, 0x80000000⟩] := by
  have hlost : UInt32.ofNat (roundUp 0x80000001 0x80000000) = 0 := by decide
  have hkept : UInt32.ofNat (roundUp [0x41].toByteArray.size 0x80000000) = 0x80000000 := by decide
  have hstart : roundUp bulky.headersEnd bulky.effectiveAlignment = 0x80000000 := by decide
  have halign : bulky.effectiveAlignment = 0x80000000 := by decide
  rw [layout, hstart, halign]
  simp only [bulky, NewSection.ofData, layoutFrom, Option.getD_none, Bytes.size_zeros, hlost,
    hkept]
  rfl

theorem mappable_bulky : bulky.Mappable where
  rawSize := by decide
  rawPointer := by decide
  nonempty := by decide
  headers := by decide
  inside := by decide
  disjoint := by decide
  data := by
    simp only [bulky, NewSection.ofData, List.forall_mem_cons, Bytes.size_zeros]
    decide
  uninitialized := by decide
  once := by decide
  directories := rfl
  relocations := rfl
  entryPoint := by decide

theorem sections_bulky :
    bulky.sections = [.ofData 0x400 0x80000001 (Bytes.zeros 0x80000001),
      .ofData 0x80000401 1 [0x41].toByteArray] :=
  rfl

theorem clear_bulky : bulky.Clear := by
  have hend : bulky.tableEnd ≤ 0x80000000 := by decide
  rw [Clear, contents, layout_bulky, sections_bulky, List.zip_cons_cons, List.zip_cons_cons,
    List.zip_nil_left, List.map_cons, List.map_cons, List.map_nil, List.forall_mem_cons,
    List.forall_mem_cons]
  refine ⟨Or.inl ?_, Or.inr hend, List.forall_mem_nil _⟩
  rw [size_placedContent]
  simp only [placedContent, UInt32.toNat_zero, Nat.zero_add]
  exact Nat.zero_min _

theorem misloads_bulky : bulky.Misloads := by
  have hfirst : bulky.layout[0]? = some ⟨0, 0⟩ := by
    rw [layout_bulky]
    rfl
  refine misloads_of_lost clear_bulky mappable_bulky (by decide) (by decide) rfl hfirst ?_
  rw [NewSection.ofData, Bytes.size_zeros]
  decide

/-- **What fields lose**: images whose files are accepted are not loaded as they are
to be if two names are cut to that of the relocation section, or if the number of
sections, a raw offset or a raw size loses its upper bits. -/
theorem lost_fields_misload :
    twoRelocations.Misloads ∧ (crowded 65536).Misloads ∧ distant.Misloads ∧ bulky.Misloads :=
  ⟨misloads_twoRelocations, misloads_crowded, misloads_distant, misloads_bulky⟩

end Pe.Builder

end EfiLoader
