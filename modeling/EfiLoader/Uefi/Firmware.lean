import EfiLoader.Firmware.Basic
import EfiLoader.Uefi.File

/-!
# EfiLoader.Uefi.Firmware

The firmware that boot services make.  Where a service handles one interface
at a time, the firmware handles all of a list or none: what has been done is
undone, last first, when a call fails.
-/

namespace EfiLoader.Uefi

open Log

namespace BootServices

/-! ## Interfaces -/

/-- Remove interfaces from a handle, whatever the firmware says. -/
def removeEach (s : BootServices β) (handle : Handle) : Interfaces → StateM β Unit
  | [] => return
  | (protocol, interface) :: rest => do
    let _ ← s.uninstallProtocol handle protocol interface
    removeEach s handle rest

/-- Add interfaces to a handle, whatever the firmware says. -/
def addEach (s : BootServices β) (handle : Handle) : Interfaces → StateM β Unit
  | [] => return
  | (protocol, interface) :: rest => do
    let (_, handle) ← s.installProtocol handle protocol interface
    addEach s handle rest

/-- Add interfaces to a handle that already got `done`, the last first. -/
def installFrom (s : BootServices β) (done : Interfaces) (handle : Handle) :
    Interfaces → StateM β (Except Status Handle)
  | [] => return .ok handle
  | (protocol, interface) :: rest => do
    let (status, handle) ← s.installProtocol handle protocol interface
    if status.isError then
      s.removeEach handle done
      return .error status
    else
      installFrom s ((protocol, interface) :: done) handle rest

/-- Remove interfaces from a handle that already lost `done`, the last first. -/
def uninstallFrom (s : BootServices β) (done : Interfaces) (handle : Handle) :
    Interfaces → StateM β Status
  | [] => return Status.success
  | (protocol, interface) :: rest => do
    let status ← s.uninstallProtocol handle protocol interface
    if status.isError then
      s.addEach handle done
      return status
    else
      uninstallFrom s ((protocol, interface) :: done) handle rest

/-- What a call has written, unless its status is an error. -/
def written (answer : Status × α) : Except Status α :=
  if answer.1.isError then .error answer.1 else .ok answer.2

/-- The interface of a handle; there has to be one. -/
def interface (s : BootServices β) (handle : Handle) (protocol : Protocol) :
    StateM β (Except Status Interface) := do
  match written (← s.handleProtocol handle protocol) with
  | .error status => return .error status
  | .ok interface =>
    return if interface = Interface.null then .error Status.unsupported else .ok interface

/-! ## Files -/

/-- Open a file of a device. -/
def openOnDevice [Allocator] (s : BootServices β) (device : Handle) (path : String) :
    Call β (OpenFile β) := do
  match ← service (s.interface device .simpleFileSystem) with
  | .error status =>
    note (Component.bootServices.error s!"Boot device has no file system: {status.text}")
    throw status
  | .ok fileSystem =>
    let (file, size) ← File.openPath s fileSystem path
    return ⟨File.source s file size, s.closeFile file⟩

end BootServices

/-! ## The start of the loader -/

/-- What a loader is started with. -/
structure Arguments where
  imageHandle : Handle
  /-- Whether there is a system table. -/
  systemTable : Bool := true
  /-- Whether the system table has boot services. -/
  bootServices : Bool := true

/-- The interface of the loader's own record. -/
def connect (s : BootServices β) (a : Arguments) : StateM β (Except Status Interface) :=
  if a.imageHandle = Handle.null ∨ a.systemTable = false then
    return .error Status.invalidParameter
  else if a.bootServices = false then
    return .error Status.notReady
  else
    s.interface a.imageHandle .loadedImage

/-- The firmware for a loader with the handle `self`, the record `record` and
the image `image` in memory. -/
def firmware [Allocator] (s : BootServices β) (self : Handle) (record : ImageRecord)
    (image : ByteArray) : Firmware β where
  allocatePages memoryType pages := BootServices.written <$> s.allocatePages memoryType pages
  freePages := s.freePages
  install := s.installFrom []
  uninstall := s.uninstallFrom []
  openExclusive handle protocol :=
    BootServices.written <$> s.openProtocol handle protocol self exclusive
  close handle protocol := s.closeProtocol handle protocol self
  interface := s.interface
  locate protocol path shared :=
    BootServices.written <$> s.locateDevicePath protocol path shared
  transfer := s.enter
  loadImage data id := do
    let (status, handle, record?) ← s.loadImage self data id
    return (BootServices.written (status, handle), record?)
  startImage := s.startImage
  unloadImage := s.unloadImage
  openFile path := (s.openOnDevice record.device path).run
  imageHandle := self
  systemTable := true
  deviceHandle := record.device
  ownImage := image
  loadOptions := record.loadOptions

end EfiLoader.Uefi
