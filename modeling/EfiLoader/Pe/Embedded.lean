import EfiLoader.Pe.Headers
import EfiLoader.Pe.Range

/-!
# EfiLoader.Pe.Embedded

Sections that are found by their name in an image that is laid out in memory,
as the loader's own image is.  This is how a kernel, an initrd or a command
line comes along with the loader.
-/

namespace EfiLoader.Pe

open Log

/-! ## Errors -/

/-- Why the sections of an image cannot be searched. -/
inductive EmbeddedError where
  /-- The image has no usable headers. -/
  | headers (e : HeaderError)
  /-- The image is for another subsystem. -/
  | subsystem (found : UInt16)
  /-- A section header is not in the image. -/
  | noHeader
  /-- A section with the name lies outside the image. -/
  | outside (name : String)
deriving DecidableEq

instance : Fault EmbeddedError where
  status
    | .headers e => Fault.status e
    | .subsystem _ => Status.unsupported
    | .noHeader | .outside _ => Status.loadError
  report
    | .headers e => Fault.report e
    | .subsystem found => [Component.embedded.debug s!"PE: Not an EFI application: {found.toNat}"]
    | .noHeader => []
    | .outside name => [Component.embedded.warn s!"PE: Section {name} lies outside the image"]

/-! ## Searching -/

/-- The memory of the last section with a name, if there is one, among the
given headers and `found` before them. -/
def searchFrom (image : ByteArray) (name : List UInt8) (found : Option ByteArray) :
    List (Option SectionHeader) → Except EmbeddedError (Option ByteArray)
  | [] => .ok found
  | none :: _ => .error .noHeader
  | some s :: rest =>
    if s.name = name then
      match bytesAt? image s.virtualAddress s.virtualSize with
      | none => .error (.outside s.nameText)
      | some bytes => searchFrom image name (some bytes) rest
    else
      searchFrom image name found rest

/-- The memory of the section of an image that has the given name. -/
def Headers.search (h : Headers) (image : ByteArray) (name : List UInt8) :
    Except EmbeddedError (Option ByteArray) :=
  if h.subsystem ≠ efiApplication then
    .error (.subsystem h.subsystem)
  else
    searchFrom image name none (h.sectionHeaders image)

/-- The memory of the section of a native image that has the given name. -/
def embeddedSection (image : ByteArray) (name : List UInt8) :
    Logged (Except EmbeddedError (Option ByteArray)) := do
  match ← Headers.parseNoted image Platform.native with
  | .error e => return .error (.headers e)
  | .ok h => return h.search image name

/-! ## The sections of the loader -/

/-- What can come along with the loader. -/
structure Embedded where
  linux : Option ByteArray := none
  initrd : Option ByteArray := none
  cmdline : Option ByteArray := none

/-- The sections that come along in the loader's own image. -/
def Embedded.find (image : ByteArray) : ExceptT EmbeddedError Logged Embedded := do
  let linux ← embeddedSection image (sectionName ".linux")
  let initrd ← embeddedSection image (sectionName ".initrd")
  let cmdline ← embeddedSection image (sectionName ".cmdline")
  note (Component.embedded.debug
    (s!"PE: Embedded sections: linux={linux.isSome}, initrd={initrd.isSome}, " ++
      s!"cmdline={cmdline.isSome}"))
  return { linux, initrd, cmdline }

end EfiLoader.Pe
