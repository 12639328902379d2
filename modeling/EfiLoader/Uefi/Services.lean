import EfiLoader.Firmware.Shared

/-!
# EfiLoader.Uefi.Services

The boot services of a UEFI firmware and the file protocol of its volumes.
Each call answers as its interface does: a status, and beside it what the
call has written to where its caller points.  A status that is no error does
not say that anything has been written.
-/

namespace EfiLoader.Uefi

/-- An open volume or file, by its number. -/
structure FileId where
  number : Nat
deriving DecidableEq

/-- The attribute of an exclusive use of an interface. -/
def exclusive : UInt32 := 0x20

/-- The mode in which files are opened for reading. -/
def readMode : UInt64 := 1

/-- Boot services over states of type `β`. -/
structure BootServices (β : Type) where
  /-- Pages of a type anywhere in memory, and their address. -/
  allocatePages : (memoryType : UInt32) → (pages : Nat) → StateM β (Status × Nat)
  freePages : (address pages : Nat) → StateM β Status
  /-- Add an interface to a handle, and the handle, which is new for a null one. -/
  installProtocol : Handle → Protocol → Interface → StateM β (Status × Handle)
  uninstallProtocol : Handle → Protocol → Interface → StateM β Status
  openProtocol : Handle → Protocol → (agent : Handle) → (attributes : UInt32) →
    StateM β (Status × Interface)
  closeProtocol : Handle → Protocol → (agent : Handle) → StateM β Status
  handleProtocol : Handle → Protocol → StateM β (Status × Interface)
  locateDevicePath : Protocol → (path : Interface) → Shared → StateM β (Status × Handle)
  /-- Load an image for a parent; its record, if it has one, gets the number `id`. -/
  loadImage : (parent : Handle) → ByteArray → (id : Nat) →
    StateM β (Status × Handle × Option ImageRecord)
  startImage : Handle → Shared → StateT β Logged Status
  unloadImage : Handle → StateM β Status
  /-- The code at the entry point of an image. -/
  enter : Handle → (entryPoint : Nat) → Shared → StateT β Logged Status
  /-- The root of the volume of a file system. -/
  openVolume : Interface → StateM β (Status × Option FileId)
  /-- A file of a volume, by its NUL-terminated path. -/
  openFile : FileId → (path : List UInt16) → (mode attributes : UInt64) →
    StateM β (Status × Option FileId)
  closeFile : FileId → StateM β Unit
  /-- What is known of a file, for a buffer of a size, or for none: the size
  afterwards and what has been put at the start of the buffer. -/
  fileInfo : FileId → (size : Nat) → (buffer : Bool) → StateM β (Status × Nat × ByteArray)
  /-- The next bytes of a file, for a buffer of a size: the size afterwards and
  what has been put at the start of the buffer. -/
  readFile : FileId → (size : Nat) → StateM β (Status × Nat × ByteArray)
  /-- No service: the loader stops here, for want of so many bytes.  Whatever is
  computed from here on does not happen. -/
  stop : (bytes : Nat) → StateM β Unit

end EfiLoader.Uefi
