import EfiLoader.Proofs.Pe.Guarded.Headers
import EfiLoader.Proofs.Pe.Placement

/-!
# EfiLoader.Proofs.Pe.Guarded.Placement

Sections, placed in guarded steps.  A section that is cut off or lies outside
the image is an error of the file; that the ranges which are copied from and
written to lie inside their buffers is not checked again by the loader, and
follows from what has been checked before.

* `placeSections_eq` — no section stops the placement;
* `noted_placeSections` — what it answers of the relocation section has 32 bits.
-/

namespace EfiLoader.Pe.Guarded

open EfiLoader.Guarded
open Placing (ends)

/-! ## placing in guarded steps -/

/-- Whether a section is the one that the relocation directory points into. -/
def holdsDirectory (h : Headers) (s : SectionHeader) : Option Bool :=
  match h.relocations? with
  | none => some false
  | some dir => do
    let last ← add dir.virtualAddress dir.size
    let stop ← add s.virtualAddress s.virtualSize
    return dir.virtualAddress == s.virtualAddress && decide (last ≤ stop)

/-- Look at the name of a section of an image with `limit` bytes. -/
def noteRelocations (h : Headers) (limit : Nat) (s : SectionHeader) (p : Placement) :
    Option (Except PlacementError Unit × Placement) := do
  if s.name = relocationName then
    if p.sawRelocations then
      return (.error .duplicateRelocations, p)
    let stop ← add s.virtualAddress s.virtualSize
    let holds ← holdsDirectory h s
    if s.rawSize ≠ 0 ∧ s.virtualSize ≠ 0 ∧ stop ≤ limit ∧ holds then
      return (.ok (), { p with sawRelocations := true, relocations := some s.relocations })
    return (.ok (), { p with sawRelocations := true })
  return (.ok (), p)

/-- Copy the content of a section to the start of its memory. -/
def copyContent (source : ByteArray) (s : SectionHeader) (memory : ByteArray) :
    Option ByteArray := do
  if s.present source = 0 then
    return memory
  let last ← add s.rawPointer (s.present source)
  copy memory 0 (s.present source) (← slice source s.rawPointer last)

/-- Fill the memory of a section of the image in `region`. -/
def fillSection (source : ByteArray) (s : SectionHeader) (region : ByteArray) :
    Option ByteArray := do
  let stop ← add s.virtualAddress s.virtualSize
  if s.uninitialized then
    clear region s.virtualAddress stop
  else
    let memory ← copyContent source s (← slice region s.virtualAddress stop)
    copy region s.virtualAddress stop (← clear memory (s.present source) memory.size)

/-- Whether the address of the entry point lies in a section. -/
def holdsEntry (h : Headers) (s : SectionHeader) : Option Bool := do
  let stop ← add s.virtualAddress s.virtualSize
  return decide (s.virtualAddress ≤ h.entryPoint) && decide (h.entryPoint < stop)

/-- Place one section of an image with `limit` bytes. -/
def place (h : Headers) (source : ByteArray) (limit : Nat) (s : SectionHeader) (p : Placement) :
    Option (Except PlacementError Unit × Placement) := do
  let stop ← add s.virtualAddress s.virtualSize
  match ← noteRelocations h limit s p with
  | (.error e, p) => return (.error e, p)
  | (.ok (), p) =>
    if s.discardable ∧ s.virtualSize = 0 then
      return (.ok (), p)
    if s.virtualSize = 0 then
      return (.error (.emptyExtent s.nameText), p)
    if limit < stop then
      return (.error (.outside s.nameText s.virtualAddress s.virtualSize), p)
    if s.overlapsHeaders h then
      return (.error (.insideHeaders s.nameText), p)
    let region ← fillSection source s p.region
    let holds ← holdsEntry h s
    return (.ok (), { p with region, foundEntry := p.foundEntry || holds })

/-- Place the sections with the given numbers one after the other. -/
def placeAll (h : Headers) (source : ByteArray) (limit : Nat) :
    List Nat → Placement → Option (Except PlacementError Unit × Placement)
  | [], p => some (.ok (), p)
  | index :: rest, p => do
    match ← place h source limit (← sectionAt h source index) p with
    | (.error e, p) => return (.error e, p)
    | (.ok (), p) => placeAll h source limit rest p

/-- Place the sections of an image into `region`. -/
def placeSections (h : Headers) (source region : ByteArray) :
    Option (Except PlacementError (Option RelocationSection) × ByteArray) := do
  let limit := min region.size h.imageSize
  match ← placeAll h source limit (List.range h.sectionCount) { region } with
  | (.error e, p) => return (.error e, p.region)
  | (.ok (), p) => return (.ok p.relocations, p.region)

/-! ## no step stops -/

/-- The numbers of a section have 32 bits. -/
structure Narrow (s : SectionHeader) : Prop where
  virtualSize : s.virtualSize < 2 ^ 32
  virtualAddress : s.virtualAddress < 2 ^ 32
  rawSize : s.rawSize < 2 ^ 32
  rawPointer : s.rawPointer < 2 ^ 32

variable {h : Headers} {source : ByteArray} {limit : Nat} {s : SectionHeader} {p : Placement}

theorem narrow_of_sectionAt? {index : Nat} (hs : h.sectionAt? source index = some s) :
    Narrow s := by
  unfold Headers.sectionAt? at hs
  dsimp only at hs
  split at hs
  · cases hs
    exact ⟨Bytes.leNat_lt source _ 4, Bytes.leNat_lt source _ 4, Bytes.leNat_lt source _ 4,
      Bytes.leNat_lt source _ 4⟩
  · cases hs

theorem holdsDirectory_eq (hf : h.Fits source) (hs : Narrow s) :
    holdsDirectory h s = some (s.holdsDirectory h) := by
  have haddress := hs.virtualAddress
  have hsize := hs.virtualSize
  unfold holdsDirectory SectionHeader.holdsDirectory
  cases hdir : h.relocations? with
  | none => rfl
  | some dir =>
    have hdirectory := hf.directory dir (Option.eq_some_of_filter_eq_some hdir)
    apply step (add_eq (by omega))
    apply step (add_eq (by omega))
    rfl

theorem noteRelocations_eq (hf : h.Fits source) (hs : Narrow s) :
    noteRelocations h limit s p = some (ends (Pe.noteRelocations h limit s) p) := by
  have haddress := hs.virtualAddress
  have hsize := hs.virtualSize
  rw [ends_noteRelocations]
  unfold noteRelocations
  by_cases hname : s.name = relocationName
  · rw [if_pos hname, if_pos hname]
    by_cases hsaw : p.sawRelocations
    · rw [if_pos hsaw, if_pos hsaw]
      rfl
    rw [if_neg hsaw, if_neg hsaw]
    apply step (add_eq (by omega))
    apply step (holdsDirectory_eq hf hs)
    by_cases hmatch : s.MatchesDirectory h limit
    · rw [if_pos hmatch, if_pos (by exact hmatch)]
      rfl
    · rw [if_neg hmatch, if_neg (by exact hmatch)]
      rfl
  · rw [if_neg hname, if_neg hname]
    rfl

/-- The content of a section fits into its memory and ends in the file. -/
theorem present_le (s : SectionHeader) (source : ByteArray) :
    s.present source ≤ s.virtualSize ∧
      s.rawPointer + s.present source ≤ max s.rawPointer source.size := by
  unfold SectionHeader.present
  omega

theorem copyContent_eq (hs : Narrow s) {memory : ByteArray}
    (hmemory : memory.size = s.virtualSize) :
    copyContent source s memory = some (Bytes.overwrite memory 0
      (source.extract s.rawPointer (s.rawPointer + s.present source))) := by
  have hpointer := hs.rawPointer
  have hsize := hs.virtualSize
  obtain ⟨hpresent, hlast⟩ := present_le s source
  unfold copyContent
  by_cases hzero : s.present source = 0
  · rw [if_pos hzero, hzero, Nat.add_zero, ByteArray.extract_same, Bytes.overwrite_empty]
    rfl
  · rw [if_neg hzero]
    apply step (add_eq (by omega))
    apply step (slice_eq (Nat.le_add_right _ _) (by omega))
    apply copy_eq (Nat.zero_le _) (by omega)
    rw [ByteArray.size_extract]
    omega

theorem fillSection_eq (hs : Narrow s) {region : ByteArray}
    (hstop : s.virtualAddress + s.virtualSize ≤ region.size) :
    fillSection source s region =
      some (Bytes.overwrite region s.virtualAddress (s.content source)) := by
  have haddress := hs.virtualAddress
  have hsize := hs.virtualSize
  obtain ⟨hpresent, _⟩ := present_le s source
  have hcontent : (source.extract s.rawPointer (s.rawPointer + s.present source)).size =
      s.present source := by
    rw [ByteArray.size_extract]
    unfold SectionHeader.present
    omega
  unfold fillSection SectionHeader.content
  apply step (add_eq (by omega))
  by_cases hclear : s.uninitialized
  · rw [if_pos hclear, if_pos hclear, clear_eq (Nat.le_add_right _ _) hstop,
      Nat.add_sub_cancel_left]
  rw [if_neg hclear, if_neg hclear]
  apply step (slice_eq (Nat.le_add_right _ _) hstop)
  have hmemory : (region.extract s.virtualAddress (s.virtualAddress + s.virtualSize)).size =
      s.virtualSize := by
    rw [ByteArray.size_extract]
    omega
  apply step (copyContent_eq hs hmemory)
  rw [Bytes.size_overwrite, hmemory]
  apply step (clear_eq hpresent (Nat.le_of_eq (by rw [Bytes.size_overwrite, hmemory])))
  have hfills : (source.extract s.rawPointer (s.rawPointer + s.present source)).size +
      (Bytes.zeros (s.virtualSize - s.present source)).size =
        (region.extract s.virtualAddress (s.virtualAddress + s.virtualSize)).size := by
    rw [hcontent, Bytes.size_zeros, hmemory]
    omega
  have hwhole := Bytes.overwrite_overwrite_zero hfills
  rw [hcontent] at hwhole
  rw [hwhole]
  apply copy_eq (Nat.le_add_right _ _) hstop
  rw [ByteArray.size_append, hcontent, Bytes.size_zeros]
  omega

theorem holdsEntry_eq (hs : Narrow s) : holdsEntry h s = some (s.holdsEntry h) := by
  have haddress := hs.virtualAddress
  have hsize := hs.virtualSize
  unfold holdsEntry
  apply step (add_eq (by omega))
  rfl

theorem place_eq (hf : h.Fits source) (hs : Narrow s) (hlimit : limit ≤ p.region.size) :
    place h source limit s p = some (ends (Pe.place h source limit s) p) := by
  have haddress := hs.virtualAddress
  have hsize := hs.virtualSize
  have hregion : (ends (Pe.noteRelocations h limit s) p).2.region = p.region :=
    region_noteRelocations
  rw [ends_place]
  unfold place
  apply step (add_eq (by omega))
  apply step (noteRelocations_eq hf hs)
  generalize ends (Pe.noteRelocations h limit s) p = noted at hregion ⊢
  rcases noted with ⟨e | _, q⟩
  · rfl
  dsimp only at hregion ⊢
  by_cases hskip : s.discardable ∧ s.virtualSize = 0
  · rw [if_pos hskip, if_pos hskip]
    rfl
  rw [if_neg hskip, if_neg hskip]
  by_cases hempty : s.virtualSize = 0
  · rw [if_pos hempty, if_pos hempty]
    rfl
  rw [if_neg hempty, if_neg hempty]
  by_cases houtside : limit < s.virtualAddress + s.virtualSize
  · rw [if_pos houtside, if_pos houtside]
    rfl
  rw [if_neg houtside, if_neg houtside]
  by_cases hheaders : s.overlapsHeaders h
  · rw [if_pos hheaders, if_pos hheaders]
    rfl
  rw [if_neg hheaders, if_neg hheaders]
  apply step (fillSection_eq hs (by rw [hregion]; omega))
  apply step (holdsEntry_eq hs)
  rfl

theorem placeAll_eq (hf : h.Fits source) (indices : List Nat)
    (hindices : ∀ i ∈ indices, i < h.sectionCount) (hlimit : limit ≤ p.region.size) :
    placeAll h source limit indices p =
      some (ends (Pe.placeAll h source limit (indices.map (h.sectionAt? source))) p) := by
  induction indices generalizing p with
  | nil => rfl
  | cons index rest ih =>
    obtain ⟨s, hs, hguarded⟩ := sectionAt_eq hf (hindices index List.mem_cons_self)
    have hplace := place_eq hf (narrow_of_sectionAt? hs) hlimit
    have hsize : (ends (Pe.place h source limit s) p).2.region.size = p.region.size := size_place
    rw [List.map_cons, hs, ends_placeAll_some]
    unfold placeAll
    apply step hguarded
    apply step hplace
    generalize ends (Pe.place h source limit s) p = placed at hsize ⊢
    rcases placed with ⟨e | _, q⟩
    · rfl
    · exact ih (fun i hi => hindices i (List.mem_cons_of_mem _ hi)) (by dsimp only at hsize; omega)

/-- **Sections are placed without a stop**: every section header is there, and
every range that is copied from or written to lies inside its buffer. -/
theorem placeSections_eq (hf : h.Fits source) (region : ByteArray) :
    placeSections h source region = some (Pe.placeSections h source region).value := by
  have hall := placeAll_eq (p := { region }) hf (List.range h.sectionCount)
    (fun i hi => List.mem_range.mp hi) (Nat.min_le_left region.size h.imageSize)
  rw [value_placeSections]
  unfold placeSections
  apply step hall
  rw [Headers.sectionHeaders]
  rcases ends (Pe.placeAll h source (min region.size h.imageSize)
    ((List.range h.sectionCount).map (h.sectionAt? source))) { region } with ⟨e | _, q⟩
  · rfl
  · rfl

/-! ## the relocation section -/

/-- What is noted of a relocation section are numbers of 32 bits. -/
def Noted (relocations : Option RelocationSection) : Prop :=
  ∀ r, relocations = some r → r.rawPointer < 2 ^ 32

theorem noted_noteRelocations (hs : Narrow s) (hp : Noted p.relocations) :
    Noted (ends (Pe.noteRelocations h limit s) p).2.relocations := by
  rw [ends_noteRelocations]
  split
  · split
    · exact hp
    · split
      · intro r hr
        cases hr
        exact hs.rawPointer
      · exact hp
  · exact hp

theorem noted_place (hs : Narrow s) (hp : Noted p.relocations) :
    Noted (ends (Pe.place h source limit s) p).2.relocations := by
  have hnote : Noted (ends (Pe.noteRelocations h limit s) p).2.relocations :=
    noted_noteRelocations hs hp
  rw [ends_place]
  generalize ends (Pe.noteRelocations h limit s) p = noted at hnote ⊢
  rcases noted with ⟨e | _, q⟩
  · exact hnote
  dsimp only
  split
  · exact hnote
  split
  · exact hnote
  split
  · exact hnote
  split
  · exact hnote
  · exact hnote

theorem noted_placeAll (indices : List Nat) (hp : Noted p.relocations) :
    Noted (ends (Pe.placeAll h source limit
      (indices.map (h.sectionAt? source))) p).2.relocations := by
  induction indices generalizing p with
  | nil => exact hp
  | cons index rest ih =>
    rw [List.map_cons]
    cases hs : h.sectionAt? source index with
    | none => exact hp
    | some s =>
      have hplace : Noted (ends (Pe.place h source limit s) p).2.relocations :=
        noted_place (narrow_of_sectionAt? hs) hp
      rw [ends_placeAll_some]
      generalize ends (Pe.place h source limit s) p = placed at hplace ⊢
      rcases placed with ⟨e | _, q⟩
      · exact hplace
      · exact ih hplace

/-- The relocation section that a placement answers has a place of 32 bits. -/
theorem noted_placeSections {region placed : ByteArray} {r : RelocationSection}
    (hplaced : (Pe.placeSections h source region).value = (.ok (some r), placed)) :
    r.rawPointer < 2 ^ 32 := by
  have hnoted : Noted (ends (Pe.placeAll h source (min region.size h.imageSize)
      ((List.range h.sectionCount).map (h.sectionAt? source))) { region }).2.relocations :=
    noted_placeAll _ fun r hr => nomatch hr
  rw [value_placeSections, Headers.sectionHeaders] at hplaced
  generalize ends (Pe.placeAll h source (min region.size h.imageSize)
    ((List.range h.sectionCount).map (h.sectionAt? source))) { region } = ended at hnoted hplaced
  rcases ended with ⟨e | _, q⟩
  · cases hplaced
  · dsimp only at hplaced
    rw [Prod.mk.injEq, Except.ok.injEq] at hplaced
    exact hnoted r hplaced.1

end EfiLoader.Pe.Guarded
