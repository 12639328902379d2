import EfiLoader.Proofs.Pe.Headers
import EfiLoader.Proofs.Pe.Placement

/-!
# EfiLoader.Proofs.Pe.Overlay

The memory of an image after its sections have been placed, byte by byte.
Sections are layers: a byte is that of the last section in the table that
covers it, and a byte that no section covers stays as it was.

* `TableFits` — the section tables that are accepted;
* `overlaidByte` — what a byte of the memory is in the end;
* `CarriesRelocations` — the section that is found to have the relocations.

Placing one section is a function of the placement so far
(`ends_place_eq_ok_iff`), so placing a table is a fold over its sections
(`ends_placeAll_eq_ok_iff`), and the rest of the module is about that fold.
-/

namespace EfiLoader.Pe

open Placing (ends)

variable {h : Headers} {source : ByteArray} {limit : Nat} {s : SectionHeader} {p : Placement}

/-! ## the section table -/

/-- The sections of an image in the order of the table. -/
def Headers.sections (h : Headers) (source : ByteArray) : List SectionHeader :=
  (List.range h.sectionCount).map fun index =>
    SectionHeader.read source (h.sectionTable + index * sectionHeaderSize)

/-- The whole section table is in the file. -/
theorem sectionHeaders_eq (hf : h.Fits source) :
    h.sectionHeaders source = (h.sections source).map some := by
  unfold Headers.sectionHeaders Headers.sections
  rw [List.map_map]
  apply List.map_congr_left
  intro index hindex
  have htable := hf.table
  have hfile := hf.file
  have hentry : (index + 1) * sectionHeaderSize ≤ h.sectionCount * sectionHeaderSize :=
    Nat.mul_le_mul_right _ (List.mem_range.mp hindex)
  rw [Nat.succ_mul] at hentry
  have hinside : h.sectionTable + index * sectionHeaderSize + sectionHeaderSize ≤ source.size := by
    omega
  simp [Headers.sectionAt?, hinside]

/-! ## accepted tables -/

/-- A section that an image with `limit` bytes can have: it is empty and can be
discarded, or it lies in the image and its content does not come from the
headers. -/
@[mk_iff] structure SectionHeader.FitsImage (s : SectionHeader) (h : Headers) (limit : Nat) :
    Prop where
  empty : s.virtualSize = 0 → s.discardable = true
  inside : s.virtualSize ≠ 0 → s.virtualAddress + s.virtualSize ≤ limit
  content : s.virtualSize ≠ 0 → s.uninitialized = false →
    s.rawSize = 0 ∨ h.headersSize ≤ s.rawPointer

/-- A section table that an image with `limit` bytes can have. -/
@[mk_iff] structure TableFits (h : Headers) (limit : Nat) (sections : List SectionHeader) :
    Prop where
  /-- At most one section has the name of the relocation section. -/
  once : sections.countP (·.name = relocationName) ≤ 1
  each : ∀ s ∈ sections, s.FitsImage h limit

instance : Decidable (s.FitsImage h limit) :=
  decidable_of_iff _ (s.fitsImage_iff h limit).symm

instance (sections : List SectionHeader) : Decidable (TableFits h limit sections) :=
  decidable_of_iff _ (tableFits_iff h limit sections).symm

/-! ## bytes of the memory -/

/-- Byte `i` of the image is one of the section. -/
def SectionHeader.Covers (s : SectionHeader) (i : Nat) : Prop :=
  s.virtualAddress ≤ i ∧ i < s.virtualAddress + s.virtualSize

instance (s : SectionHeader) (i : Nat) : Decidable (s.Covers i) :=
  inferInstanceAs (Decidable (_ ∧ _))

/-- Byte `o` of the memory of a section: from the file as far as the content
goes, and 0 after it. -/
def SectionHeader.byteAt (s : SectionHeader) (source : ByteArray) (o : Nat) : UInt8 :=
  if s.uninitialized then 0
  else if o < s.rawSize ∧ s.rawPointer + o < source.size then
    Bytes.byte source (s.rawPointer + o)
  else 0

/-- Byte `i` of the memory `region` after sections have been placed in it: that
of the last one in the table that covers it. -/
def overlaidByte (source region : ByteArray) (sections : List SectionHeader) (i : Nat) : UInt8 :=
  match (sections.filter fun s => s.Covers i).getLast? with
  | none => Bytes.byte region i
  | some s => s.byteAt source (i - s.virtualAddress)

/-- A section has content and starts where the relocation directory does, which
is not empty and ends in it. -/
structure SectionHeader.CarriesRelocations (s : SectionHeader) (h : Headers) : Prop where
  name : s.name = relocationName
  raw : 0 < s.rawSize
  virtual : 0 < s.virtualSize
  directory : ∃ dir, h.relocationDirectory = some dir ∧ dir.size ≠ 0 ∧
    dir.virtualAddress = s.virtualAddress ∧
    dir.virtualAddress + dir.size ≤ s.virtualAddress + s.virtualSize

/-! ## one section -/

/-- The placement in which the name of one more section has been looked at. -/
def Placement.noting (p : Placement) (h : Headers) (limit : Nat) (s : SectionHeader) :
    Placement :=
  { p with
    sawRelocations := p.sawRelocations || s.name = relocationName
    relocations := if s.name = relocationName ∧ s.MatchesDirectory h limit then
      some s.relocations else p.relocations }

/-- The placement with one more section. -/
def Placement.next (h : Headers) (source : ByteArray) (limit : Nat) (p : Placement)
    (s : SectionHeader) : Placement :=
  if s.virtualSize = 0 then p.noting h limit s else (p.noting h limit s).put h source s

@[simp] theorem sawRelocations_next :
    (p.next h source limit s).sawRelocations = (p.sawRelocations || s.name = relocationName) := by
  unfold Placement.next
  split <;> rfl

@[simp] theorem relocations_next :
    (p.next h source limit s).relocations =
      if s.name = relocationName ∧ s.MatchesDirectory h limit then some s.relocations
      else p.relocations := by
  unfold Placement.next
  split <;> rfl

theorem region_next :
    (p.next h source limit s).region = if s.virtualSize = 0 then p.region
      else Bytes.overwrite p.region s.virtualAddress (s.content source) := by
  unfold Placement.next
  split <;> rfl

theorem size_next : (p.next h source limit s).region.size = p.region.size := by
  rw [region_next]
  split
  · rfl
  · exact Bytes.size_overwrite _ _ _

/-- A section is noted unless there has been another of its name. -/
theorem ends_noteRelocations_of_new (hnew : s.name = relocationName → p.sawRelocations = false) :
    ends (noteRelocations h limit s) p = (.ok (), p.noting h limit s) := by
  rw [ends_noteRelocations]
  by_cases hname : s.name = relocationName
  · by_cases hmatch : s.MatchesDirectory h limit
    · simp [Placement.noting, hname, hmatch, hnew hname]
    · simp [Placement.noting, hname, hmatch, hnew hname]
  · simp [Placement.noting, hname]

theorem ends_noteRelocations_of_seen (hname : s.name = relocationName)
    (hsaw : p.sawRelocations = true) :
    ends (noteRelocations h limit s) p = (.error .duplicateRelocations, p) := by
  rw [ends_noteRelocations, if_pos hname, if_pos hsaw]

theorem fitsImage_iff_of_empty (hempty : s.virtualSize = 0) :
    s.FitsImage h limit ↔ s.discardable = true := by
  constructor
  · intro hfits
    exact hfits.empty hempty
  · intro hdiscardable
    exact ⟨fun _ => hdiscardable, fun hne => absurd hempty hne, fun hne => absurd hempty hne⟩

theorem fitsImage_iff_of_ne (hne : s.virtualSize ≠ 0) :
    s.FitsImage h limit ↔
      s.virtualAddress + s.virtualSize ≤ limit ∧ s.overlapsHeaders h = false := by
  have hheaders : s.overlapsHeaders h = false ↔
      (s.uninitialized = false → s.rawSize = 0 ∨ h.headersSize ≤ s.rawPointer) := by
    cases hkind : s.uninitialized with
    | true => simp [SectionHeader.overlapsHeaders, hkind]
    | false => simp [SectionHeader.overlapsHeaders, hkind, Decidable.or_iff_not_imp_left]
  rw [hheaders]
  constructor
  · intro hfits
    exact ⟨hfits.inside hne, hfits.content hne⟩
  · intro hfits
    exact ⟨fun hempty => absurd hempty hne, fun _ => hfits.1, fun _ => hfits.2⟩

/-- A section is placed exactly if it fits and is not a second relocation
section. -/
theorem ends_place_eq_ok_iff {q : Placement} :
    ends (place h source limit s) p = (.ok (), q) ↔
      (s.name = relocationName → p.sawRelocations = false) ∧ s.FitsImage h limit ∧
        p.next h source limit s = q := by
  rw [ends_place]
  by_cases hnew : s.name = relocationName → p.sawRelocations = false
  · rw [ends_noteRelocations_of_new hnew, and_iff_right hnew]
    by_cases hempty : s.virtualSize = 0
    · cases hdiscardable : s.discardable with
      | true => simp [fitsImage_iff_of_empty, Placement.next, hempty, hdiscardable]
      | false => simp [fitsImage_iff_of_empty, hempty, hdiscardable]
    · by_cases hinside : s.virtualAddress + s.virtualSize ≤ limit
      · have hover : ¬ limit < s.virtualAddress + s.virtualSize := Nat.not_lt.mpr hinside
        cases hheaders : s.overlapsHeaders h with
        | true => simp [fitsImage_iff_of_ne, hempty, hover, hheaders]
        | false =>
            simp [fitsImage_iff_of_ne, Placement.next, hempty, hinside, hover, hheaders]
      · have hover : limit < s.virtualAddress + s.virtualSize := Nat.not_le.mp hinside
        simp [fitsImage_iff_of_ne, hempty, hinside, hover]
  · obtain ⟨hname, hsaw⟩ := Classical.not_imp.mp hnew
    have hseen : p.sawRelocations = true := by simpa using hsaw
    rw [ends_noteRelocations_of_seen hname hseen]
    simp [hname, hseen]

/-! ## all sections -/

variable {sections : List SectionHeader}

/-- Sections are placed exactly if each of them fits and at most one, with
those before them, is a relocation section. -/
theorem ends_placeAll_eq_ok_iff {q : Placement} :
    ends (placeAll h source limit (sections.map some)) p = (.ok (), q) ↔
      p.sawRelocations.toNat + sections.countP (·.name = relocationName) ≤ 1 ∧
        (∀ s ∈ sections, s.FitsImage h limit) ∧
        sections.foldl (Placement.next h source limit) p = q := by
  induction sections generalizing p with
  | nil =>
      have hends : ends (placeAll h source limit []) p = (.ok (), p) := rfl
      have hsaw := p.sawRelocations.toNat_le
      simp [hends, hsaw]
  | cons s rest ih =>
      rw [List.map_cons, ends_placeAll_some]
      by_cases hplaced : (s.name = relocationName → p.sawRelocations = false) ∧ s.FitsImage h limit
      · have hplace : ends (place h source limit s) p = (.ok (), p.next h source limit s) :=
          ends_place_eq_ok_iff.mpr ⟨hplaced.1, hplaced.2, rfl⟩
        have hcount : (p.next h source limit s).sawRelocations.toNat =
            p.sawRelocations.toNat + if s.name = relocationName then 1 else 0 := by
          by_cases hname : s.name = relocationName
          · simp [hname, hplaced.1 hname]
          · simp [hname]
        rw [hplace]
        simp only
        rw [ih, hcount, List.countP_cons]
        simp [hplaced.2, Nat.add_assoc, Nat.add_comm]
      · rcases hrun : ends (place h source limit s) p with ⟨e | _, q'⟩
        · simp only [Prod.mk.injEq, reduceCtorEq, false_and, false_iff]
          intro ⟨honce, heach, _⟩
          refine hplaced ⟨fun hname => ?_, heach s List.mem_cons_self⟩
          rw [List.countP_cons, if_pos (by simpa using hname)] at honce
          exact Bool.toNat_eq_zero.mp (by omega)
        · have hok := ends_place_eq_ok_iff.mp hrun
          exact absurd ⟨hok.1, hok.2.1⟩ hplaced

theorem size_foldl_next (sections : List SectionHeader) :
    (sections.foldl (Placement.next h source limit) p).region.size = p.region.size := by
  induction sections generalizing p with
  | nil => rfl
  | cons s rest ih => rw [List.foldl_cons, ih, size_next]

/-! ## bytes -/

theorem size_content (s : SectionHeader) (source : ByteArray) :
    (s.content source).size = s.virtualSize := by
  unfold SectionHeader.content SectionHeader.present
  split
  · exact Bytes.size_zeros _
  · simp only [ByteArray.size_append, ByteArray.size_extract, Bytes.size_zeros]
    omega

/-- The content of a section stands in front of zeros. -/
theorem byte_content (s : SectionHeader) (source : ByteArray) {o : Nat} (ho : o < s.virtualSize) :
    Bytes.byte (s.content source) o = s.byteAt source o := by
  unfold SectionHeader.content SectionHeader.byteAt
  by_cases hkind : s.uninitialized
  · simp [hkind, Bytes.byte_zeros]
  · simp only [hkind, Bool.false_eq_true, if_false]
    have hpresent : o < s.present source ↔ o < s.rawSize ∧ s.rawPointer + o < source.size := by
      unfold SectionHeader.present
      omega
    have hsize : (source.extract s.rawPointer (s.rawPointer + s.present source)).size =
        s.present source := by
      rw [ByteArray.size_extract]
      unfold SectionHeader.present
      omega
    by_cases hfile : o < s.present source
    · rw [if_pos (hpresent.mp hfile), Bytes.byte_append_left (by omega),
        Bytes.byte_extract (by omega)]
    · have hzero : o = (source.extract s.rawPointer (s.rawPointer + s.present source)).size +
          (o - s.present source) := by omega
      rw [if_neg (fun hin => hfile (hpresent.mpr hin)), hzero, Bytes.byte_append_right,
        Bytes.byte_zeros]

/-- A section that is placed is laid over what was there. -/
theorem byte_next (hfits : s.FitsImage h limit) (hlimit : limit ≤ p.region.size) (i : Nat) :
    Bytes.byte (p.next h source limit s).region i =
      if s.Covers i then s.byteAt source (i - s.virtualAddress) else Bytes.byte p.region i := by
  rw [region_next]
  by_cases hempty : s.virtualSize = 0
  · have hcovers : ¬ s.Covers i := fun hin => by
      obtain ⟨hfrom, hto⟩ := hin
      omega
    rw [if_pos hempty, if_neg hcovers]
  · have hinside := hfits.inside hempty
    rw [if_neg hempty, Bytes.byte_overwrite, size_content]
    by_cases hcovers : s.Covers i
    · obtain ⟨hfrom, hto⟩ := hcovers
      rw [if_pos (by omega), if_pos ⟨hfrom, hto⟩, byte_content s source (by omega)]
    · have houtside : ¬ (s.virtualAddress ≤ i ∧ i < s.virtualAddress + s.virtualSize ∧
          i < p.region.size) := fun hin => hcovers ⟨hin.1, hin.2.1⟩
      rw [if_neg houtside, if_neg hcovers]

/-- The last section that covers a byte decides what it is. -/
theorem byte_foldl_next (heach : ∀ s ∈ sections, s.FitsImage h limit)
    (hlimit : limit ≤ p.region.size) (i : Nat) :
    Bytes.byte (sections.foldl (Placement.next h source limit) p).region i =
      overlaidByte source p.region sections i := by
  induction sections generalizing p with
  | nil => rfl
  | cons s rest ih =>
      have hnext : Bytes.byte (p.next h source limit s).region i =
          if s.Covers i then s.byteAt source (i - s.virtualAddress)
          else Bytes.byte p.region i := byte_next (heach s List.mem_cons_self) hlimit i
      rw [List.foldl_cons, ih (fun t ht => heach t (List.mem_cons_of_mem s ht))
        (by rwa [size_next])]
      unfold overlaidByte
      rw [hnext]
      by_cases hcovers : s.Covers i
      · rw [List.filter_cons_of_pos (by simpa using hcovers), List.getLast?_cons]
        cases (rest.filter fun t => t.Covers i).getLast? with
        | none => simp [hcovers]
        | some t => simp
      · rw [List.filter_cons_of_neg (by simpa using hcovers), if_neg hcovers]

/-! ## the relocation section -/

/-- Sections that fit match the relocation directory if they carry it. -/
theorem carriesRelocations_iff (hfits : s.FitsImage h limit) :
    s.CarriesRelocations h ↔ s.name = relocationName ∧ s.MatchesDirectory h limit := by
  have hholds : s.holdsDirectory h = true ↔ ∃ dir, h.relocationDirectory = some dir ∧
      dir.size ≠ 0 ∧ dir.virtualAddress = s.virtualAddress ∧
        dir.virtualAddress + dir.size ≤ s.virtualAddress + s.virtualSize := by
    simp only [← and_assoc, ← relocations?_eq_some_iff]
    unfold SectionHeader.holdsDirectory
    cases h.relocations? with
    | none => simp
    | some dir => simp [and_assoc]
  constructor
  · intro hcarries
    have hvirtual := Nat.ne_of_gt hcarries.virtual
    exact ⟨hcarries.name, Nat.ne_of_gt hcarries.raw, hvirtual, hfits.inside hvirtual,
      hholds.mpr hcarries.directory⟩
  · intro ⟨hname, hraw, hvirtual, _, hdirectory⟩
    exact ⟨hname, Nat.pos_of_ne_zero hraw, Nat.pos_of_ne_zero hvirtual, hholds.mp hdirectory⟩

/-- The relocation section is the one that matches the directory, as there is
no second one to take its place. -/
theorem relocations_foldl_next
    (honce : p.sawRelocations.toNat + sections.countP (·.name = relocationName) ≤ 1)
    (hnone : p.sawRelocations = false → p.relocations = none) (r : RelocationSection) :
    (sections.foldl (Placement.next h source limit) p).relocations = some r ↔
      p.relocations = some r ∨ ∃ s ∈ sections,
        (s.name = relocationName ∧ s.MatchesDirectory h limit) ∧ s.relocations = r := by
  induction sections generalizing p with
  | nil => simp
  | cons s rest ih =>
      have hnext : (p.next h source limit s).sawRelocations = false →
          (p.next h source limit s).relocations = none := by
        intro hunseen
        simp only [sawRelocations_next, Bool.or_eq_false_iff, decide_eq_false_iff_not] at hunseen
        simp [hunseen.2, hnone hunseen.1]
      rw [List.countP_cons] at honce
      have honce' : (p.next h source limit s).sawRelocations.toNat +
          rest.countP (·.name = relocationName) ≤ 1 := by
        rw [sawRelocations_next]
        by_cases hname : s.name = relocationName
        · rw [if_pos (decide_eq_true hname)] at honce
          rw [decide_eq_true hname, Bool.or_true, Bool.toNat_true]
          omega
        · rw [if_neg (by simpa using hname)] at honce
          rw [decide_eq_false hname, Bool.or_false]
          exact honce
      have hrest := ih honce' hnext
      rw [List.foldl_cons, hrest, relocations_next]
      by_cases hcarries : s.name = relocationName ∧ s.MatchesDirectory h limit
      · have hunseen : p.sawRelocations = false := by
          rw [if_pos (by simpa using hcarries.1)] at honce
          exact Bool.toNat_eq_zero.mp (by omega)
        simp [hcarries, hnone hunseen]
      · simp [hcarries]

/-! ## the result -/

/-- The image with its sections, one laid over the other. -/
def overlay (h : Headers) (source region : ByteArray) : Placement :=
  (h.sections source).foldl (Placement.next h source (min region.size h.imageSize)) { region }

theorem size_overlay (h : Headers) (source region : ByteArray) :
    (overlay h source region).region.size = region.size :=
  size_foldl_next _

theorem byte_overlay {region : ByteArray}
    (htable : TableFits h (min region.size h.imageSize) (h.sections source)) (i : Nat) :
    Bytes.byte (overlay h source region).region i =
      overlaidByte source region (h.sections source) i :=
  byte_foldl_next htable.each (Nat.min_le_left _ _) i

theorem value_placeSections_of_fits (hf : h.Fits source) {region : ByteArray}
    (htable : TableFits h (min region.size h.imageSize) (h.sections source)) :
    (placeSections h source region).value =
      (.ok (overlay h source region).relocations, (overlay h source region).region) := by
  have hends : ends (placeAll h source (min region.size h.imageSize)
      ((h.sections source).map some)) { region } = (.ok (), overlay h source region) :=
    ends_placeAll_eq_ok_iff.mpr ⟨by simpa using htable.once, htable.each, rfl⟩
  rw [value_placeSections, sectionHeaders_eq hf, hends]

theorem value_placeSections_of_not_fits (hf : h.Fits source) {region : ByteArray}
    (htable : ¬ TableFits h (min region.size h.imageSize) (h.sections source)) :
    ∃ e memory, (placeSections h source region).value = (.error e, memory) := by
  rw [value_placeSections, sectionHeaders_eq hf]
  cases hends : ends (placeAll h source (min region.size h.imageSize)
      ((h.sections source).map some)) { region } with
  | mk answer q =>
      cases answer with
      | error e => exact ⟨e, q.region, rfl⟩
      | ok =>
          have hok := ends_placeAll_eq_ok_iff.mp hends
          exact absurd ⟨by simpa using hok.1, hok.2.1⟩ htable

/-- **Sections as layers**: sections are placed exactly if their table fits the
image.  Every byte of the memory is then that of the last section that covers
it, and the relocation section is the one that carries the directory. -/
theorem placeSections_overlays {platform : Platform}
    (hp : Headers.parse source platform = .ok h) (region : ByteArray) :
    (TableFits h (min region.size h.imageSize) (h.sections source) →
      ∃ found memory, (placeSections h source region).value = (.ok found, memory) ∧
        memory.size = region.size ∧
        (∀ i < region.size,
          Bytes.byte memory i = overlaidByte source region (h.sections source) i) ∧
        ∀ r, found = some r ↔ ∃ s ∈ h.sections source, s.CarriesRelocations h ∧
          r = ⟨s.virtualAddress, s.virtualSize, s.rawPointer, s.rawSize⟩) ∧
    (¬ TableFits h (min region.size h.imageSize) (h.sections source) →
      ∃ e memory, (placeSections h source region).value = (.error e, memory) ∧
        Fault.status e = Status.loadError) := by
  have hf := fits_of_parse hp
  constructor
  · intro htable
    have hsize : (overlay h source region).region.size = region.size := size_foldl_next _
    have hbytes : ∀ i, Bytes.byte (overlay h source region).region i =
        overlaidByte source region (h.sections source) i :=
      byte_foldl_next htable.each (Nat.min_le_left _ _)
    have hfound : ∀ r, (overlay h source region).relocations = some r ↔
        ∃ s ∈ h.sections source, s.CarriesRelocations h ∧ r = s.relocations := by
      intro r
      have hfold := @relocations_foldl_next h source (min region.size h.imageSize) { region }
        (h.sections source) (by simpa using htable.once) (fun _ => rfl) r
      simp only [reduceCtorEq, false_or] at hfold
      rw [overlay, hfold]
      constructor
      · intro ⟨s, hs, hcarries, hr⟩
        exact ⟨s, hs, (carriesRelocations_iff (htable.each s hs)).mpr hcarries, hr.symm⟩
      · intro ⟨s, hs, hcarries, hr⟩
        exact ⟨s, hs, (carriesRelocations_iff (htable.each s hs)).mp hcarries, hr.symm⟩
    exact ⟨_, _, value_placeSections_of_fits hf htable, hsize, fun i _ => hbytes i, hfound⟩
  · intro htable
    obtain ⟨e, memory, hvalue⟩ := value_placeSections_of_not_fits hf htable
    exact ⟨e, memory, hvalue, rfl⟩

/-- The fields of an image in which memory is laid over data, each a width and
a number. -/
def layeredFields : List (Nat × Nat) :=
  -- the stub, the signature and the file header
  [(2, 0x5A4D), (58, 0), (4, 64), (4, 0x4550), (2, 0x8664), (2, 3), (12, 0), (2, 160), (2, 0x2002),
  -- the optional header with six directories, the last one for relocations
    (2, 0x20B), (14, 0), (4, 368), (4, 0), (8, 0x10000), (4, 16), (4, 16), (16, 0), (4, 512),
    (4, 368), (4, 0), (2, 10), (38, 0), (4, 6), (40, 0), (4, 400), (4, 24),
  -- the section headers: 32 bytes of data, 8 of them under memory, and a table
    (8, 0x617461642E), (4, 32), (4, 368), (4, 32), (4, 368), (12, 0), (4, 0xC0000040),
    (8, 0x7373622E), (4, 8), (4, 380), (4, 0), (4, 0), (12, 0), (4, 0xC0000080),
    (8, 0x636F6C65722E), (4, 24), (4, 400), (4, 24), (4, 400), (12, 0), (4, 0x42000040),
  -- the data
    (8, 0x0000000000010170), (8, 0x1122334455667788), (8, 0x99AABBCCDDEEFF00), (8, 1),
  -- the table: an address of 64 bits, then one of 32 bits and the upper half of another
    (4, 368), (4, 12), (2, 0xA000), (2, 0), (4, 384), (4, 12), (2, 0x3000), (2, 0x1004)]

/-- The image with these fields. -/
def layeredImage : ByteArray :=
  ⟨⟨layeredFields.flatMap fun (width, n) => Bytes.leList width n⟩⟩

/-- Its headers. -/
def layeredHeaders : Headers where
  machine := 0x8664
  width := .bits64
  imageBase := 0x10000
  entryPoint := 368
  imageSize := 512
  headersSize := 368
  sectionCount := 3
  sectionAlignment := 16
  fileAlignment := 16
  subsystem := 10
  directoryCount := 6
  sectionTable := 248
  relocationDirectory := some ⟨400, 24⟩
  resourceDirectory := some ⟨0, 0⟩

theorem parse_layeredImage : Headers.parse layeredImage .native = .ok layeredHeaders :=
  toOption_eq_some_iff.mp (by decide +kernel)

/-- Its sections. -/
def layeredSections : List SectionHeader :=
  [⟨[0x2E, 0x64, 0x61, 0x74, 0x61], 32, 368, 32, 368, 0xC0000040⟩,
    ⟨[0x2E, 0x62, 0x73, 0x73], 8, 380, 0, 0, 0xC0000080⟩,
    ⟨[0x2E, 0x72, 0x65, 0x6C, 0x6F, 0x63], 24, 400, 24, 400, 0x42000040⟩]

theorem sections_layered : layeredHeaders.sections layeredImage = layeredSections := by
  decide +kernel

theorem name_relocations : relocationName = [0x2E, 0x72, 0x65, 0x6C, 0x6F, 0x63] := by
  decide

/-- In the layered image a byte of the data stays under no memory, another one
does not, and the relocation section is found. -/
theorem placeSections_overlays_layered :
    Headers.parse layeredImage .native = .ok layeredHeaders ∧
      ∃ found memory, (placeSections layeredHeaders layeredImage (Bytes.zeros 512)).value =
          (.ok found, memory) ∧ memory.size = 512 ∧
        Bytes.byte memory 376 = 0x88 ∧ Bytes.byte memory 380 = 0 ∧
        found = some ⟨400, 24, 400, 24⟩ := by
  have htable : TableFits layeredHeaders 512 layeredSections := by
    rw [tableFits_iff, name_relocations]
    decide
  have hoverlays := placeSections_overlays parse_layeredImage (Bytes.zeros 512)
  have hlimit : min 512 layeredHeaders.imageSize = 512 := rfl
  simp only [sections_layered, Bytes.size_zeros, hlimit] at hoverlays
  obtain ⟨found, memory, hvalue, hsize, hbytes, hfound⟩ := hoverlays.1 htable
  refine ⟨parse_layeredImage, found, memory, hvalue, hsize, ?_, ?_, ?_⟩
  · rw [hbytes 376 (by omega)]
    decide +kernel
  · rw [hbytes 380 (by omega)]
    decide
  · rw [hfound]
    refine ⟨_, .tail _ (.tail _ (.head _)), ⟨name_relocations.symm, by decide, by decide, ?_⟩, rfl⟩
    exact ⟨⟨400, 24⟩, rfl, by decide, rfl, by decide⟩

end EfiLoader.Pe
