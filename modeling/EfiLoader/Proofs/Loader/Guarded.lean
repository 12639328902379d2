import EfiLoader.Proofs.Loader.Sections
import EfiLoader.Proofs.Pe.Guarded.Fixup
import EfiLoader.Proofs.Pe.Smallest

/-!
# EfiLoader.Proofs.Loader.Guarded

Loading an image in guarded steps, from the first byte of the file to the last
field of the memory.  No file stops any of it (`loads_without_stop`): what the
parser has accepted is enough for every range and every sum that comes after.
-/

namespace EfiLoader.Guarded

open Log Pe

/-! ## loading in guarded steps -/

/-- The number of pages to ask for. -/
def pagesNeeded (size alignment : Nat) : Option Nat := do
  if (← rem pageSize alignment) = 0 then
    return pagesHolding size
  let total ← add size (← sub alignment 1)
  return pagesHolding total

/-- The memory of an image before its sections are placed. -/
def blankImage (h : Headers) (source : ByteArray) : Option ByteArray := do
  copy (Bytes.zeros h.imageSize) 0 h.headersSize (← slice source 0 h.headersSize)

/-- Change the fields of an image at `base` that depend on its base. -/
def rebased (h : Headers) (source : ByteArray) (base : Nat) (section? : Option RelocationSection)
    (placed : ByteArray) : Option (Except Status ByteArray) := do
  match section?, h.relocations? with
  | some s, some _ =>
    match ← Pe.Guarded.applyAll h source s (UInt64.ofNat base) placed with
    | (.error e, _) => return .error (Fault.status e)
    | (.ok (), region) => return .ok region
  | _, _ => return .ok placed

/-- The memory of an image at `base`, or the status that loading it ends with. -/
def assembled (h : Headers) (source : ByteArray) (base : Nat) :
    Option (Except Status ByteArray) := do
  let blank ← blankImage h source
  if h.imageSize ≤ h.entryPoint then
    return .error Status.loadError
  match ← Pe.Guarded.placeSections h source blank with
  | (.error e, _) => return .error (Fault.status e)
  | (.ok section?, placed) => rebased h source base section? placed

/-! ## no step stops -/

variable {h : Headers} {source : ByteArray}

theorem pagesNeeded_eq (hf : h.Fits source) :
    ∃ n, pagesNeeded h.imageSize h.sectionAlignment = some n ∧
      PageBuffer.pagesNeeded? h.imageSize h.sectionAlignment = some n := by
  have hsize := hf.imageSize_lt
  have halignment := hf.alignment_lt
  have hpos := hf.alignment_pos
  unfold pagesNeeded PageBuffer.pagesNeeded? PageBuffer.slack
  by_cases hdivides : pageSize % h.sectionAlignment = 0
  · refine ⟨pagesHolding h.imageSize, ?_, ?_⟩
    · apply step (rem_eq (by omega))
      rw [if_pos hdivides]
      rfl
    · rw [if_pos hdivides, if_pos (by simp only [addressLimit]; omega), Nat.add_zero]
  · refine ⟨pagesHolding (h.imageSize + (h.sectionAlignment - 1)), ?_, ?_⟩
    · apply step (rem_eq (by omega))
      rw [if_neg hdivides]
      apply step (sub_eq hpos)
      apply step (add_eq (by omega))
      rfl
    · rw [if_neg hdivides, if_pos (by simp only [addressLimit]; omega)]

theorem blankImage_eq (hf : h.Fits source) :
    blankImage h source = some (EfiLoader.blankImage h source) := by
  have hfile := hf.file
  have himage := hf.image
  unfold blankImage EfiLoader.blankImage
  apply step (slice_eq (Nat.zero_le _) hfile)
  apply copy_eq (Nat.zero_le _)
  · rw [Bytes.size_zeros]
    exact himage
  · rw [ByteArray.size_extract]
    omega

theorem rebased_eq (hf : h.Fits source) {base : Nat} {section? : Option RelocationSection}
    (hs : ∀ s, section? = some s → s.rawPointer < 2 ^ 32) (placed : ByteArray) :
    rebased h source base section? placed =
      some (EfiLoader.rebased h source base section? placed) := by
  unfold rebased EfiLoader.rebased
  cases section? with
  | none => rfl
  | some s =>
    cases h.relocations? with
    | none => rfl
    | some dir =>
      apply step (Pe.Guarded.applyAll_eq hf (hs s rfl) _)
      dsimp only
      rcases (Fixup.applyAll h source s (UInt64.ofNat base) placed).value with ⟨e | _, _⟩
      · rfl
      · rfl

theorem assembled_eq (hf : h.Fits source) (base : Nat) :
    assembled h source base = some (EfiLoader.assembled h source base) := by
  unfold assembled EfiLoader.assembled
  apply step (blankImage_eq hf)
  by_cases hentry : h.imageSize ≤ h.entryPoint
  · rw [if_pos hentry, if_pos hentry]
    rfl
  rw [if_neg hentry, if_neg hentry]
  apply step (Pe.Guarded.placeSections_eq hf _)
  cases hplaced : (placeSections h source (EfiLoader.blankImage h source)).value with
  | mk answer placed =>
    cases answer with
    | error e => rfl
    | ok section? =>
      apply rebased_eq hf
      rintro s rfl
      exact Pe.Guarded.noted_placeSections hplaced

/-- **No image stops the loader**: with every range, every field and every sum
guarded, parsing answers for every file what it answers without the guards.  For
headers that are accepted

* every section of the table is there;
* memory is asked for with a size and an alignment that are not zero, and the
  number of pages can be counted;
* the sections are placed, and the relocations of the section that this finds
  are applied, as they are without the guards;
* so is the memory of the image at any base. -/
theorem loads_without_stop (source : ByteArray) (platform : Platform) :
    Pe.Guarded.parse source platform = some (Headers.parse source platform) ∧
    ∀ h, Headers.parse source platform = .ok h →
      (∀ index < h.sectionCount, ∃ s, h.sectionAt? source index = some s ∧
        Pe.Guarded.sectionAt h source index = some s) ∧
      (0 < h.imageSize ∧ 0 < h.sectionAlignment ∧
        ∃ n, pagesNeeded h.imageSize h.sectionAlignment = some n ∧
          PageBuffer.pagesNeeded? h.imageSize h.sectionAlignment = some n) ∧
      blankImage h source = some (EfiLoader.blankImage h source) ∧
      (∀ region, Pe.Guarded.placeSections h source region =
          some (placeSections h source region).value ∧
        ∀ s placed, (placeSections h source region).value = (.ok (some s), placed) →
          ∀ base, Pe.Guarded.applyAll h source s base placed =
            some (Fixup.applyAll h source s base placed).value) ∧
      ∀ base (φ : Type) (m : Machine φ), assembled h source base =
        some (Attempt.ends (imageMemory h source base) m).1 := by
  constructor
  · exact Pe.Guarded.parse_eq source platform
  intro h hp
  have hf := fits_of_parse hp
  refine ⟨fun index hindex => Pe.Guarded.sectionAt_eq hf hindex,
    ⟨hf.imageSize_pos, hf.alignment_pos, pagesNeeded_eq hf⟩, blankImage_eq hf, ?_, ?_⟩
  · intro region
    constructor
    · exact Pe.Guarded.placeSections_eq hf region
    · intro s placed hplaced base
      exact Pe.Guarded.applyAll_eq hf (Pe.Guarded.noted_placeSections hplaced) base
  · intro base φ m
    rw [ends_imageMemory]
    exact assembled_eq hf base

/-- The smallest image is assembled. -/
theorem loads_without_stop_smallest :
    Headers.parse smallestImage .native = .ok smallestHeaders ∧
      assembled smallestHeaders smallestImage 0x10000 =
        some (Attempt.ends (imageMemory smallestHeaders smallestImage 0x10000)
          (⟨(), { memory := .filled 0 }⟩ : Machine Unit)).1 := by
  obtain ⟨_, hloads⟩ := loads_without_stop smallestImage .native
  obtain ⟨_, _, _, _, hassembled⟩ := hloads smallestHeaders parse_smallestImage
  exact ⟨parse_smallestImage, hassembled 0x10000 Unit ⟨(), { memory := .filled 0 }⟩⟩

end EfiLoader.Guarded
