import EfiLoader.Firmware.DevicePath
import EfiLoader.Log.Target

/-!
# EfiLoader.Firmware.LoadFile

Handing out a file to whoever asks: the caller brings a buffer and its size,
and learns the size of the file if the buffer is too small for it.
-/

namespace EfiLoader.LoadFile

open Log

/-- What a caller asks for. -/
structure Request where
  /-- The path of the file, relative to the service. -/
  path : Option ByteArray
  /-- Whether the boot manager asks. -/
  bootPolicy : Bool := false
  /-- The size of the buffer, if the caller says it. -/
  size : Option Nat
  buffer : Option ByteArray := none

/-- What the caller gets: a status, and size and buffer as they are then. -/
structure Reply where
  status : Status
  size : Option Nat
  buffer : Option ByteArray

/-- A reply that leaves size and buffer alone. -/
def Request.refused (r : Request) (status : Status) : Reply := ⟨status, r.size, r.buffer⟩

/-- The reply to a request for `data`. -/
def reply (data : ByteArray) (r : Request) : Reply :=
  match r.path, r.size with
  | some path, some size =>
    if r.bootPolicy then
      r.refused Status.unsupported
    else if !DevicePath.isEnd path then
      r.refused Status.unsupported
    else if data.size = 0 then
      r.refused Status.notFound
    else
      match r.buffer with
      | some buffer =>
        if size < data.size then
          ⟨Status.bufferTooSmall, some data.size, some buffer⟩
        else
          ⟨Status.success, some data.size, some (Bytes.overwrite buffer 0 data)⟩
      | none => ⟨Status.bufferTooSmall, some data.size, none⟩
  | _, _ => r.refused Status.invalidParameter

/-- Answer a request for `data`. -/
def serve (data : ByteArray) (r : Request) : Logged Reply := do
  let answer := reply data r
  if answer.status = Status.success then
    note (Component.loadFile.debug s!"LoadFile2: served {data.size} bytes")
  return answer

end EfiLoader.LoadFile
