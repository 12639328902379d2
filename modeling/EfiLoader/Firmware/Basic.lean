import EfiLoader.Firmware.Shared
import EfiLoader.Source

/-!
# EfiLoader.Firmware.Basic

The firmware as the loader uses it: memory by the page, handles with their
protocols, images, and the files of the volume the loader came from.  A
firmware is a description that acts on a state of type `φ`; nothing is
assumed of it, so what is proved of the loader holds of firmware that fails
at any point.
-/

namespace EfiLoader

/-- An open file. -/
structure OpenFile (φ : Type) where
  /-- What reading the file does. -/
  source : Source φ
  /-- What closing the file does. -/
  close : StateM φ Unit

/-- A firmware over states of type `φ`.  Images that it starts see what the
loader shares, and cannot change it. -/
structure Firmware (φ : Type) where
  /-- The address of new pages. -/
  allocatePages : (memoryType : UInt32) → (pages : Nat) → StateM φ (Except Status Nat)
  /-- Give pages back. -/
  freePages : (address pages : Nat) → StateM φ Status
  /-- Add all interfaces to a handle, to a new one if it is null. -/
  install : Handle → Interfaces → StateM φ (Except Status Handle)
  /-- Remove all interfaces from a handle. -/
  uninstall : Handle → Interfaces → StateM φ Status
  /-- The interface of a handle, for exclusive use. -/
  openExclusive : Handle → Protocol → StateM φ (Except Status Interface)
  /-- End the exclusive use of an interface. -/
  close : Handle → Protocol → StateM φ Status
  /-- The interface of a handle. -/
  interface : Handle → Protocol → StateM φ (Except Status Interface)
  /-- The handle with a protocol and a device path. -/
  locate : Protocol → (path : Interface) → Shared → StateM φ (Except Status Handle)
  /-- Run the code at the entry point of an image. -/
  transfer : Handle → (entryPoint : Nat) → Shared → StateT φ Logged Status
  /-- Load an image; its record, if it has one, gets the number `id`. -/
  loadImage : ByteArray → (id : Nat) → StateM φ (Except Status Handle × Option ImageRecord)
  /-- Start an image that the firmware has loaded. -/
  startImage : Handle → Shared → StateT φ Logged Status
  /-- Unload an image that the firmware has loaded. -/
  unloadImage : Handle → StateM φ Status
  /-- Open a file. -/
  openFile : (path : String) → StateT φ Logged (Except Status (OpenFile φ))
  /-- The handle of the loader. -/
  imageHandle : Handle
  /-- Whether there is a system table. -/
  systemTable : Bool
  /-- The device that the loader came from. -/
  deviceHandle : Handle
  /-- The loader's own image in memory. -/
  ownImage : ByteArray
  /-- The options that the loader was started with. -/
  loadOptions : List UInt16

end EfiLoader
