import EfiLoader.Loader.Sections
import EfiLoader.Proofs.Loader.Ends
import EfiLoader.Proofs.Pe.Fixup
import EfiLoader.Proofs.Pe.Placement
import EfiLoader.Proofs.Pe.Smallest

/-!
# EfiLoader.Proofs.Loader.Sections

The memory of an image, as a function of its file and its base alone.  The
loader computes it without a look at the firmware or at what is shared, so what
the memory held before does not matter.
-/

namespace EfiLoader

open Log Pe

variable {φ : Type} {h : Headers} {source : ByteArray}

/-- The memory of an image at `base`, when its sections are in place and the
relocation section is known. -/
def rebased (h : Headers) (source : ByteArray) (base : Nat) (section? : Option RelocationSection)
    (placed : ByteArray) : Except Status ByteArray :=
  match section?, h.relocations? with
  | some s, some _ =>
    match (Fixup.applyAll h source s (UInt64.ofNat base) placed).value with
    | (.error e, _) => .error (Fault.status e)
    | (.ok (), region) => .ok region
  | _, _ => .ok placed

/-- The memory of an image at `base`, or the status that loading it ends with. -/
def assembled (h : Headers) (source : ByteArray) (base : Nat) : Except Status ByteArray :=
  if h.imageSize ≤ h.entryPoint then
    .error Status.loadError
  else
    match (placeSections h source (blankImage h source)).value with
    | (.error e, _) => .error (Fault.status e)
    | (.ok section?, placed) => rebased h source base section? placed

theorem size_blankImage (h : Headers) (source : ByteArray) :
    (blankImage h source).size = h.imageSize := by
  rw [blankImage, Bytes.size_overwrite, Bytes.size_zeros]

/-- Without a directory of relocations no field depends on the base. -/
theorem rebased_of_no_relocations (hnone : h.relocations? = none) (base : Nat)
    (section? : Option RelocationSection) (placed : ByteArray) :
    rebased h source base section? placed = .ok placed := by
  unfold rebased
  rw [hnone]
  cases section? with
  | none => rfl
  | some s => rfl

theorem ends_rebase (base : Nat) (section? : Option RelocationSection) (placed : ByteArray)
    (m : Machine φ) :
    Attempt.ends (rebase h source section? base placed) m =
      (rebased h source base section? placed, m) := by
  unfold rebase rebased
  cases hdir : h.relocations? with
  | none =>
    cases section? with
    | none =>
      dsimp only
      split
      · rfl
      · rfl
    | some s =>
      dsimp only
      split
      · rfl
      · rfl
  | some dir =>
    cases section? with
    | none => rfl
    | some s =>
      dsimp only
      rw [Attempt.ends_bind, Attempt.ends_logged]
      rcases (Fixup.applyAll h source s (UInt64.ofNat base) placed).value with ⟨e | _, region⟩
      · dsimp only
        rw [Attempt.ends_bind, Attempt.ends_noting, Attempt.ends_settle]
        rfl
      · dsimp only
        rw [Attempt.ends_bind, Attempt.ends_noting, Attempt.ends_settle]
        rfl

/-- The memory of an image depends on its file and its base alone. -/
theorem ends_imageMemory (base : Nat) (m : Machine φ) :
    Attempt.ends (imageMemory h source base) m = (assembled h source base, m) := by
  unfold imageMemory assembled
  by_cases hentry : h.imageSize ≤ h.entryPoint
  · rw [if_pos hentry, if_pos hentry]
    rfl
  rw [if_neg hentry, if_neg hentry, Attempt.ends_bind, Attempt.ends_logged]
  rcases (placeSections h source (blankImage h source)).value with ⟨e | section?, placed⟩
  · dsimp only
    rw [Attempt.ends_bind, Attempt.ends_settle]
    rfl
  · dsimp only
    rw [Attempt.ends_bind, Attempt.ends_settle]
    exact ends_rebase base section? placed m

theorem size_rebased {base : Nat} {section? : Option RelocationSection}
    {placed bytes : ByteArray} (hr : rebased h source base section? placed = .ok bytes) :
    bytes.size = placed.size := by
  unfold rebased at hr
  cases section? with
  | none =>
    cases hr
    rfl
  | some s =>
    cases hdir : h.relocations? with
    | none =>
      rw [hdir] at hr
      cases hr
      rfl
    | some dir =>
      rw [hdir] at hr
      have hsize := Fixup.size_applyAll h source s (UInt64.ofNat base) placed
      dsimp only at hr
      generalize (Fixup.applyAll h source s (UInt64.ofNat base) placed).value = applied at hr hsize
      rcases applied with ⟨e | _, region⟩
      · cases hr
      · cases hr
        exact hsize

/-- The memory of an image has the size that the headers say. -/
theorem size_assembled {base : Nat} {bytes : ByteArray}
    (ha : assembled h source base = .ok bytes) : bytes.size = h.imageSize := by
  have hplaced := size_placeSections h source (blankImage h source)
  have hblank := size_blankImage h source
  unfold assembled at ha
  split at ha
  · cases ha
  generalize (placeSections h source (blankImage h source)).value = placed at ha hplaced
  rcases placed with ⟨e | section?, region⟩
  · cases ha
  · rw [size_rebased ha, ← hblank]
    exact hplaced

/-- What can be wrong with an image that has its pages at `base`: its entry
point, one of its sections, or a field that depends on the base. -/
inductive Broken (h : Headers) (source : ByteArray) (base : Nat) : Status → Prop
  | entryPoint : h.imageSize ≤ h.entryPoint → Broken h source base Status.loadError
  | sections {e : PlacementError} {region : ByteArray} : h.entryPoint < h.imageSize →
      (placeSections h source (blankImage h source)).value = (.error e, region) →
      Broken h source base (Fault.status e)
  | fixups {r : RelocationSection} {dir : Directory} {placed region : ByteArray}
      {e : Fixup.Error} : h.entryPoint < h.imageSize →
      (placeSections h source (blankImage h source)).value = (.ok (some r), placed) →
      h.relocations? = some dir →
      (Fixup.applyAll h source r (UInt64.ofNat base) placed).value = (.error e, region) →
      Broken h source base (Fault.status e)

/-- Nothing else keeps an image from being assembled. -/
theorem assembled_eq_error_iff {base : Nat} {status : Status} :
    assembled h source base = .error status ↔ Broken h source base status := by
  constructor
  · intro ha
    unfold assembled at ha
    by_cases hentry : h.imageSize ≤ h.entryPoint
    · rw [if_pos hentry] at ha
      cases ha
      exact .entryPoint hentry
    rw [if_neg hentry] at ha
    have hinside := Nat.not_le.mp hentry
    rcases hplaced : (placeSections h source (blankImage h source)).value
      with ⟨e | section?, placed⟩
    · rw [hplaced] at ha
      cases ha
      exact .sections hinside hplaced
    rw [hplaced] at ha
    dsimp only at ha
    unfold rebased at ha
    split at ha
    · next r dir hdir =>
      rcases happlied : (Fixup.applyAll h source r (UInt64.ofNat base) placed).value
        with ⟨e | _, region⟩
      · rw [happlied] at ha
        cases ha
        exact .fixups hinside hplaced hdir happlied
      · rw [happlied] at ha
        cases ha
    · cases ha
  · intro hbroken
    cases hbroken with
    | entryPoint hentry => rw [assembled, if_pos hentry]
    | sections hinside hplaced => rw [assembled, if_neg (Nat.not_le.mpr hinside), hplaced]
    | fixups hinside hplaced hdir happlied =>
        rw [assembled, if_neg (Nat.not_le.mpr hinside), hplaced]
        simp only [rebased, hdir, happlied]

end EfiLoader
