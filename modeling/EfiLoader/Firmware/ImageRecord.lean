import EfiLoader.Firmware.Protocol
import EfiLoader.Log.Target

/-!
# EfiLoader.Firmware.ImageRecord

The record of a loaded image: who loaded it, where it lies in memory, and the
options it is started with.
-/

namespace EfiLoader

open Log

/-- Who unloads an image. -/
inductive Unloader where
  /-- Nobody. -/
  | none
  /-- This loader. -/
  | own
  /-- Somebody else. -/
  | foreign
deriving DecidableEq

/-- Memory with code of a loader. -/
def loaderCode : UInt32 := 1

/-- The record of a loaded image. -/
structure ImageRecord where
  revision : UInt32 := 0x1000
  parent : Handle := Handle.null
  /-- Whether the record names the system table. -/
  systemTable : Bool := false
  device : Handle := Handle.null
  filePath : Interface := Interface.null
  /-- The units of the load options, if there are any. -/
  options : Option (List UInt16) := none
  /-- Whether the load options start at an even address. -/
  optionsAligned : Bool := true
  /-- Bytes of the load options. -/
  optionsSize : UInt32 := 0
  imageBase : UInt64 := 0
  imageSize : UInt64 := 0
  codeType : UInt32 := loaderCode
  dataType : UInt32 := loaderCode
  unload : Unloader := .none
deriving DecidableEq

namespace ImageRecord

/-- A record as this loader makes it; an image without a device is noted. -/
def noted (r : ImageRecord) : Logged ImageRecord := do
  if r.device = Handle.null then
    note (Component.imageRecord.warn "LoadedImageProtocol: DeviceHandle is NULL")
  return r

/-- The record with load options; no units are no options. -/
def setLoadOptions (r : ImageRecord) (units : List UInt16) : ImageRecord :=
  if units.isEmpty then
    { r with options := none, optionsAligned := true, optionsSize := 0 }
  else
    { r with
      options := some units
      optionsAligned := true
      optionsSize := UInt32.ofNat (2 * units.length) }

/-- The units of the load options: as many as their size says, and none if
they cannot be read. -/
def loadOptions (r : ImageRecord) : List UInt16 :=
  match r.options with
  | some units => if r.optionsAligned then units.take (r.optionsSize.toNat / 2) else []
  | none => []

end ImageRecord

end EfiLoader
