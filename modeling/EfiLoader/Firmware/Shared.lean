import EfiLoader.Buffer
import EfiLoader.Firmware.LoadFile
import EfiLoader.Firmware.Memory
import EfiLoader.Firmware.Objects

/-!
# EfiLoader.Firmware.Shared

What the loader shares with the firmware and with the images it starts:
memory, objects, and the file service that hands out the initrd.
-/

namespace EfiLoader

/-- An initrd that can be fetched. -/
structure OfferedInitrd where
  /-- The initrd is what has not been read of this buffer. -/
  data : Buffer
  /-- The handle that carries the file service. -/
  handle : Handle
  /-- The file service. -/
  service : Interface

/-- What the loader shares. -/
structure Shared where
  memory : Memory
  objects : Objects := Objects.empty
  /-- The initrd, while there is one. -/
  initrd : Option OfferedInitrd := none
  /-- Whether functions that the firmware calls may use the firmware. -/
  published : Bool := false

namespace Shared

/-- Answer a request to the file service `this`: only the service of the
registered initrd has a file. -/
def loadFile (s : Shared) (this : Interface) (r : LoadFile.Request) : Logged LoadFile.Reply :=
  if this = Interface.null then
    return r.refused Status.invalidParameter
  else
    match s.initrd with
    | none => return r.refused Status.notFound
    | some registration =>
      if registration.service = this then
        LoadFile.serve registration.data.remaining r
      else
        return r.refused Status.notFound

/-- Whether an initrd is registered. -/
def hasInitrd (s : Shared) : Bool := s.initrd.isSome

end Shared

end EfiLoader
