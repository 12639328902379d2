import EfiLoader.Loader.Sections

/-!
# EfiLoader.Loader.Image

Loaded images.  An image that has been loaded gets a handle with a record and
a device path that names its memory.  The path is what tells whether an image
is the loader's to unload: it has to name a range of memory, and the record
has to point back at it.
-/

namespace EfiLoader

open Log Text Pe

/-- An image with a handle. -/
structure LoadedImage where
  handle : Handle
  /-- The address of the entry point. -/
  entryPoint : Nat
  imageBase : Nat
  imageSize : Nat
  /-- The pages that the image lies in. -/
  allocation : PageAllocation
deriving DecidableEq

namespace LoadedImage

/-! ## Loading -/

/-- The protocols of an image's handle. -/
def interfaces (record path : Interface) : Interfaces :=
  [(.loadedImage, record), (.loadedImageDevicePath, path)]

/-- The device path of an image in the pages `a`. -/
def pathOf (a : PageAllocation) : ByteArray :=
  DevicePath.memoryMapped ⟨a.memoryType, UInt64.ofNat a.address, UInt64.ofNat a.last⟩

/-- The record of an image in the memory `b` whose device path is `path`. -/
def recordOf (fw : Firmware φ) (b : PageBuffer) (h : Headers) (path : Interface) :
    ImageRecord where
  parent := fw.imageHandle
  systemTable := fw.systemTable
  device := fw.deviceHandle
  filePath := path
  imageBase := UInt64.ofNat b.base
  imageSize := UInt64.ofNat h.imageSize
  unload := .own

/-- Make the record and the device path of the image in the memory `b`. -/
def describe (fw : Firmware φ) (b : PageBuffer) (h : Headers) :
    Loader φ (Interface × Interface) := do
  let path ← Loader.modifyObjects fun o => o.addPath (pathOf b.allocation)
  let r ← (recordOf fw b h path).noted
  let record ← Loader.modifyObjects fun o => o.addImage r
  return (record, path)

/-- Make a handle for the image in the memory `b`.  The pages belong to the
handle from then on, and are given back if there is no handle. -/
def install (fw : Firmware φ) (b : PageBuffer) (h : Headers) : Attempt φ LoadedImage := do
  let (record, path) ← (describe fw b h : Loader φ _)
  match ← ExceptT.lift (Loader.call (fw.install Handle.null (interfaces record path))) with
  | .ok handle =>
    note (Component.image.debug
      (s!"Installed image handle {handle.text} for {b.allocation.pages} pages " ++
        s!"at {hex b.allocation.address}"))
    return {
      handle
      entryPoint := b.base + h.entryPoint
      imageBase := b.base
      imageSize := h.imageSize
      allocation := b.allocation }
  | .error status =>
    note (Component.image.error s!"Creating image handle failed: {status.text}")
    (Loader.modifyObjects fun o => ((), (o.remove record).remove path) : Loader φ Unit)
    b.release fw
    throw status

/-- Load an image for a platform. -/
def loadFor (fw : Firmware φ) (data : ByteArray) (platform : Platform) :
    Attempt φ LoadedImage := do
  if data.size = 0 then
    note (Component.loader.error "PE: Empty image buffer")
    throw Status.invalidParameter
  let h ← Attempt.settle (← Headers.parseNoted data platform)
  let b ← placeImage fw h data
  let image ← install fw b h
  note (Component.loader.info
    s!"PE: Loaded image at {hex image.imageBase}, entry point at {hex image.entryPoint}")
  return image

/-- Load an image for the platform the loader runs on. -/
def load (fw : Firmware φ) (data : ByteArray) : Attempt φ LoadedImage :=
  loadFor fw data Platform.native

/-! ## Starting -/

/-- Set the load options in the record that an interface names. -/
def setLoadOptions (record : Interface) (units : List UInt16) : Loader φ Unit :=
  Loader.modifyObjects fun o => ((), o.updateImage record fun r => r.setLoadOptions units)

/-- Start an image with load options, which its record has as long as it runs. -/
def start (fw : Firmware φ) (image : LoadedImage) (options : List UInt16) : Loader φ Status := do
  match ← Loader.call (fw.interface image.handle .loadedImage) with
  | .error status =>
    note (Component.image.error s!"Image handle has no loaded image protocol: {status.text}")
    return status
  | .ok record =>
    setLoadOptions record options
    note (Component.image.info s!"Executing image at {hex image.entryPoint}")
    let status ← Loader.hand (fw.transfer image.handle image.entryPoint)
    note (Component.image.info s!"Image returned with status: {status.text}")
    setLoadOptions record []
    return status

/-! ## Unloading -/

/-- Pages from `first` to `last`, the byte at `last` included; none if the
range is reversed, shorter than a page or longer than what can be counted. -/
def pagesBetween? (first last : UInt64) : Option Nat :=
  if last < first then
    none
  else
    let pages := (last - first + 1).toNat / pageSize
    if pages = 0 then none else some pages

/-- Whether a record is that of an image of this loader with the device path
`path`. -/
def isOwn (r : ImageRecord) (path : Interface) : Bool :=
  r.unload == .own && r.filePath == path

/-- Remove the handle of an image and give back the pages in its range. -/
def discard (fw : Firmware φ) (handle : Handle) (record path : Interface)
    (range : DevicePath.MemoryMapped) (pages : Nat) : Loader φ Status := do
  let status ← Loader.call (fw.uninstall handle (interfaces record path))
  if status ≠ Status.success then
    note (Component.image.error s!"Failed to uninstall image handle: {status.text}")
    return status
  let freed ← Loader.call (fw.freePages range.start.toNat pages)
  if freed ≠ Status.success then
    note (Component.image.warn
      (s!"Failed to free {pages} image pages at {hex range.start.toNat}: " ++ freed.text))
  Loader.modifyObjects fun o => ((), (o.remove record).remove path)
  note (Component.image.debug s!"Unloaded image handle {handle.text}")
  return freed

/-- Unload the image of a handle.  Handles that are not of this loader are
refused and keep their memory; so are handles that somebody else uses. -/
def unload (fw : Firmware φ) (handle : Handle) : Loader φ Status := do
  match ← Loader.call (fw.openExclusive handle .loadedImageDevicePath) with
  | .error _ => return Status.unsupported
  | .ok path =>
    let closePath : Loader φ Unit := do
      let _ ← Loader.call (fw.close handle .loadedImageDevicePath)
    let node := (← Loader.shared).objects.path? path
    match node.bind DevicePath.MemoryMapped.read? with
    | none =>
      note (Component.image.debug s!"Handle {handle.text} has no memory mapped device path")
      closePath
      return Status.unsupported
    | some range =>
      match ← Loader.call (fw.openExclusive handle .loadedImage) with
      | .error _ =>
        closePath
        return Status.unsupported
      | .ok record =>
        let closeBoth : Loader φ Unit := do
          let _ ← Loader.call (fw.close handle .loadedImage)
          closePath
        if !((← Loader.shared).objects.image? record).any fun r => isOwn r path then
          note (Component.image.debug s!"Handle {handle.text} was not loaded by this loader")
          closeBoth
          return Status.unsupported
        match pagesBetween? range.start range.last with
        | none =>
          note (Component.image.error
            s!"Invalid memory mapped range {hex range.start.toNat}-{hex range.last.toNat}")
          closeBoth
          return Status.unsupported
        | some pages =>
          closeBoth
          discard fw handle record path range pages

/-- What the firmware calls to unload an image of this loader. -/
def unloadForFirmware (fw : Firmware φ) (handle : Handle) : Loader φ Status := do
  if (← Loader.shared).published then
    unload fw handle
  else
    return Status.notReady

end LoadedImage

end EfiLoader
