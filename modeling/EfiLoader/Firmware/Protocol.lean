import EfiLoader.Text.Hex

/-!
# EfiLoader.Firmware.Protocol

Handles and the protocols they carry.  A handle is a number; what it carries
for a protocol is an interface.  The interfaces of this loader are objects
that are told apart by their number, and anything else is a raw address.
-/

namespace EfiLoader

open Text

/-- A protocol that a handle can carry. -/
inductive Protocol where
  | loadedImage
  | loadedImageDevicePath
  | devicePath
  | loadFile2
  | simpleFileSystem
deriving DecidableEq

namespace Protocol

/-- The name of a protocol. -/
def name : Protocol → String
  | loadedImage => "LOADED_IMAGE"
  | loadedImageDevicePath => "LOADED_IMAGE_DEVICE_PATH"
  | devicePath => "DEVICE_PATH"
  | loadFile2 => "LOAD_FILE2"
  | simpleFileSystem => "SIMPLE_FILE_SYSTEM"

/-- All protocols. -/
def all : List Protocol :=
  [loadedImage, loadedImageDevicePath, devicePath, loadFile2, simpleFileSystem]

/-- The protocol with a name. -/
def ofName? (name : String) : Option Protocol := all.find? fun p => p.name == name

end Protocol

/-- A handle of the firmware. -/
structure Handle where
  value : Nat
deriving DecidableEq

namespace Handle

/-- The handle that stands for none. -/
def null : Handle := ⟨0⟩

/-- The form a handle takes in log lines. -/
def text (h : Handle) : String := hex h.value

end Handle

/-- What a handle carries for a protocol. -/
inductive Interface where
  /-- An address that means nothing to the loader. -/
  | raw (address : UInt64)
  /-- A record of a loaded image. -/
  | image (id : Nat)
  /-- A device path. -/
  | path (id : Nat)
  /-- The device path on which kernels look for their initrd. -/
  | initrdPath
  /-- A file service. -/
  | loadFile (id : Nat)
deriving DecidableEq

namespace Interface

/-- No interface. -/
def null : Interface := raw 0

end Interface

/-- A list of protocols with their interfaces. -/
abbrev Interfaces := List (Protocol × Interface)

end EfiLoader
