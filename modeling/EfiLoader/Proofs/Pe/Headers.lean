import EfiLoader.Proofs.Pe.Grammar

/-!
# EfiLoader.Proofs.Pe.Headers

What the rest of the loader relies on when headers have been accepted: the
section table lies inside the headers, the headers inside the file and the
image, and every number has the width of its field.
-/

namespace EfiLoader.Pe

/-- The parts of an image fit together. -/
structure Headers.Fits (h : Headers) (source : ByteArray) : Prop where
  table : h.sectionTable + h.sectionCount * sectionHeaderSize ≤ h.headersSize
  image : h.headersSize ≤ h.imageSize
  file : h.headersSize ≤ source.size
  imageSize_pos : 0 < h.imageSize
  imageSize_lt : h.imageSize < 2 ^ 32
  alignment_pos : 0 < h.sectionAlignment
  alignment_lt : h.sectionAlignment < 2 ^ 32
  directory : ∀ d, h.relocationDirectory = some d → d.virtualAddress < 2 ^ 32 ∧ d.size < 2 ^ 32

variable {source : ByteArray} {platform : Platform} {h : Headers}

/-- Headers are accepted as they are declared, and only if they are consistent. -/
theorem declared_of_parse (hp : Headers.parse source platform = .ok h) :
    Consistent source platform.width ∧ h = declared source platform.width := by
  by_cases hs : Signed source
  · by_cases hr : Runnable source platform
    · exact (parse_eq_ok_iff hs hr).mp hp
    · obtain ⟨e, he, _⟩ := parse_of_not_runnable hs hr
      rw [he] at hp
      cases hp
  · obtain ⟨e, he, _⟩ := parse_of_not_signed platform hs
    rw [he] at hp
    cases hp

open Declared in
theorem directory_lt {w : Width} {index : Nat} {d : Directory}
    (hd : directory source w index = some d) : d.virtualAddress < 2 ^ 32 ∧ d.size < 2 ^ 32 := by
  unfold directory at hd
  split at hd
  · cases hd
    exact ⟨Bytes.leNat_lt source _ 4, Bytes.leNat_lt source _ 4⟩
  · cases hd

open Declared in
theorem sectionAlignment_declared (source : ByteArray) (w : Width) :
    0 < (declared source w).sectionAlignment ∧
      (declared source w).sectionAlignment < 2 ^ 32 := by
  have hfile : fileAlignment source < 2 ^ 32 := Bytes.leNat_lt source _ 4
  have hsection : sectionAlignment source < 2 ^ 32 := Bytes.leNat_lt source _ 4
  simp only [declared]
  split
  · split
    · omega
    · omega
  · omega

open Declared in
/-- The parts of an image with accepted headers fit together. -/
theorem fits_of_parse (hp : Headers.parse source platform = .ok h) : h.Fits source := by
  obtain ⟨hc, rfl⟩ := declared_of_parse hp
  have htable : offset source + 24 + optionalSize source + 40 * sectionCount source ≤
      headersSize source := hc.table
  obtain ⟨himage, hfile⟩ := Nat.le_min.mp hc.headers
  obtain ⟨hpos, hlt⟩ := sectionAlignment_declared source platform.width
  exact {
    table := by
      rw [Nat.mul_comm]
      exact htable
    image := himage
    file := hfile
    imageSize_pos := by
      change 0 < imageSize source
      omega
    imageSize_lt := Bytes.leNat_lt source _ 4
    alignment_pos := hpos
    alignment_lt := hlt
    directory := fun _ hd => directory_lt hd }

/-- Headers that are accepted are not those of an empty file. -/
theorem size_ne_zero_of_parse (hp : Headers.parse source platform = .ok h) : source.size ≠ 0 := by
  have htable : Declared.offset source + 24 + Declared.optionalSize source +
      40 * Declared.sectionCount source ≤ Declared.headersSize source :=
    (declared_of_parse hp).1.table
  have hfile : h.headersSize ≤ source.size := (fits_of_parse hp).file
  obtain ⟨-, rfl⟩ := declared_of_parse hp
  change Declared.headersSize source ≤ source.size at hfile
  omega

/-- A directory of relocations counts if it is not empty. -/
theorem relocations?_eq_some_iff {dir : Directory} :
    h.relocations? = some dir ↔ h.relocationDirectory = some dir ∧ dir.size ≠ 0 := by
  simp [Headers.relocations?, Option.filter_eq_some_iff]

end EfiLoader.Pe
