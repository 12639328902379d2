import EfiLoader.Loader.Pages
import EfiLoader.Pe.Fixup
import EfiLoader.Pe.Placement

/-!
# EfiLoader.Loader.Sections

Images in memory: the headers, the sections at their addresses, and the
fields that depend on where the image has ended up.
-/

namespace EfiLoader

open Log Text Pe

/-- The memory of an image before its sections are placed: the headers, then
zeros. -/
def blankImage (h : Headers) (source : ByteArray) : ByteArray :=
  Bytes.overwrite (Bytes.zeros h.imageSize) 0 (source.extract 0 h.headersSize)

/-- Change the fields of an image at `base` that depend on its base. -/
def rebase (h : Headers) (source : ByteArray) (section? : Option RelocationSection) (base : Nat)
    (region : ByteArray) : Attempt φ ByteArray := do
  match section?, h.relocations? with
  | some s, some _ =>
    let (r, region) ← Fixup.applyAll h source s (UInt64.ofNat base) region
    (Attempt.settle r).noting fun status =>
      Component.loader.error s!"PE: Relocation failed: {status.text}"
    return region
  | none, some _ =>
    note (Component.loader.warn "PE: Image has no valid .reloc section")
    return region
  | _, none =>
    if UInt64.ofNat base ≠ h.imageBase then
      note (Component.loader.warn
        "PE: Image has no relocations but was loaded away from its base")
    return region

/-- The memory of an image that is loaded at `base`. -/
def imageMemory (h : Headers) (source : ByteArray) (base : Nat) : Attempt φ ByteArray := do
  if h.imageSize ≤ h.entryPoint then
    note (Component.loader.error
      s!"PE: Entry point {hex h.entryPoint} outside image of {hex h.imageSize} bytes")
    throw Status.loadError
  let (r, region) ← placeSections h source (blankImage h source)
  let section? ← Attempt.settle r
  rebase h source section? base region

/-- Load an image into pages of its own; they are given back if that fails. -/
def placeImage (fw : Firmware φ) (h : Headers) (source : ByteArray) :
    Attempt φ PageBuffer := do
  let b ← PageBuffer.allocate fw h.imageSize h.sectionAlignment loaderCode
  let region ← (imageMemory h source b.base).orElseDo (b.release fw)
  (Loader.modifyShared fun s => { s with memory := s.memory.write b.base region } : Loader φ Unit)
  return b

end EfiLoader
