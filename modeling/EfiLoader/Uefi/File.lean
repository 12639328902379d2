import EfiLoader.Buffer
import EfiLoader.FilePath
import EfiLoader.Source
import EfiLoader.Uefi.Services

/-!
# EfiLoader.Uefi.File

Files of a UEFI volume.  Opening a file opens the volume, then the file, and
closes the volume again; a file whose size cannot be found out is closed too.
What is known of a file is as long as its firmware says; a loader that cannot
have so many bytes for it stops where it is.
-/

namespace EfiLoader.Uefi

open Log

/-- A call on boot services that may fail. -/
abbrev Call (β α : Type) := ExceptT Status (StateT β Logged) α

/-- Call a boot service where nothing can fail. -/
def plain (m : StateM β α) : StateT β Logged α := fun b => pure (m b)

/-- Call a boot service. -/
def service (m : StateM β α) : Call β α := ExceptT.lift (plain m)

namespace File

/-- The line that reports a failure. -/
def failure (message : String) : Entry := Component.fileSystem.error message

/-! ## The size of a file -/

/-- Where the size of the file stands in what is known of it. -/
def sizeOffset : Nat := 8

/-- Bytes of the size. -/
def sizeWidth : Nat := 8

/-- The size of an open file.  Room for what is known of it is not asked for but
taken, and without that the loader stops. -/
def size [Allocator] (s : BootServices β) (file : FileId) : Call β Nat := do
  let (status, needed, _) ← service (s.fileInfo file 0 false)
  if status ≠ Status.bufferTooSmall then
    note (failure s!"GetInfo size query failed: {status.text}")
    throw (if status.isError then status else Status.deviceError)
  if needed < sizeOffset + sizeWidth then
    throw Status.deviceError
  if !Allocator.grants needed then
    service (s.stop needed)
    throw Status.outOfResources
  let (status, _, info) ← service (s.fileInfo file needed true)
  if status.isError then
    note (failure s!"GetInfo failed: {status.text}")
    throw status
  return Bytes.leNat (Bytes.overwrite (Bytes.zeros needed) 0 info) sizeOffset sizeWidth

/-! ## Opening and reading -/

/-- The volume of a file system. -/
def openVolume (s : BootServices β) (fileSystem : Interface) : Call β FileId := do
  let (status, volume?) ← service (s.openVolume fileSystem)
  match volume? with
  | some volume =>
    if status.isError then
      note (failure s!"Failed to open volume: {status.text}")
      throw status
    return volume
  | none =>
    note (failure s!"Failed to open volume: {status.text}")
    throw status

/-- The file of a volume with a path, which the units spell; the volume is
closed. -/
def openOn (s : BootServices β) (volume : FileId) (path : String) (units : List UInt16) :
    Call β FileId := do
  let (status, file?) ← service (s.openFile volume units readMode 0)
  service (s.closeFile volume)
  match file? with
  | some file =>
    if status.isError then
      note (failure s!"Unable to open file {path}: {status.text}")
      throw status
    return file
  | none =>
    note (failure s!"Unable to open file {path}: {status.text}")
    throw (if status.isError then status else Status.notFound)

/-- The size of an open file, which is closed if it has none. -/
def sizeOrClose [Allocator] (s : BootServices β) (file : FileId) : Call β Nat := ExceptT.mk do
  let r ← (size s file).run
  if let .error _ := r then
    plain (s.closeFile file)
  return r

/-- Open the file with a path on a file system: the file and its size. -/
def openPath [Allocator] (s : BootServices β) (fileSystem : Interface) (path : String) :
    Call β (FileId × Nat) := do
  match FilePath.encode? path with
  | none => throw Status.invalidParameter
  | some units =>
    let volume ← openVolume s fileSystem
    let file ← openOn s volume path units
    let size ← sizeOrClose s file
    note (Component.fileSystem.debug s!"Opened {path} ({size} bytes)")
    return (file, size)

/-- Read at most `asked` bytes. -/
def read (s : BootServices β) (file : FileId) (asked : Nat) (b : β) :
    Except SourceError ReadResult × β :=
  let ((status, count, bytes), b) := s.readFile file asked b
  if status.isError then
    (.error { status, report := [failure s!"File read failed: {status.text}"] }, b)
  else
    (.ok ⟨bytes, min count asked⟩, b)

/-- The source that an open file is. -/
def source (s : BootServices β) (file : FileId) (size : Nat) : Source β := ⟨size, read s file⟩

end File

end EfiLoader.Uefi
