import EfiLoader.Lz4.Frame
import EfiLoader.Zstd.Frame

/-!
# EfiLoader.Payload

Payload files: a zstd frame, an LZ4 frame, or a plain executable image that
is handed through as it is.  The first bytes tell which; the rest comes from
a source, a chunk at a time.
-/

namespace EfiLoader.Payload

open Log

/-! ## Formats -/

/-- The formats a payload can have. -/
inductive Format where
  | zstd
  | lz4
  | image
deriving DecidableEq

/-- The bytes that a file of the format starts with. -/
def Format.magic : Format → List UInt8
  | .zstd => [0x28, 0xB5, 0x2F, 0xFD]
  | .lz4 => [0x04, 0x22, 0x4D, 0x18]
  | .image => [0x4D, 0x5A]

/-- All formats. -/
def Format.all : List Format := [.zstd, .lz4, .image]

/-- The format of a file that starts with `bytes`. -/
def Format.detect? (bytes : ByteArray) : Option Format :=
  Format.all.find? fun f => f.magic.isPrefixOf (bytes.extract 0 4).data.toList

/-! ## Errors -/

/-- Why a payload cannot be unpacked. -/
inductive Error where
  /-- There are no first bytes. -/
  | noInput
  /-- The file is empty. -/
  | emptyFile
  /-- The file has none of the formats. -/
  | unknownFormat
  /-- There is no memory for the file. -/
  | memory (e : Buffer.Error)
  /-- The file cannot be read. -/
  | read (e : ReadError)
  | zstd (e : Zstd.FrameError)
  | lz4 (e : Lz4.FrameError)
deriving DecidableEq

instance : Fault Error where
  status
    | .noInput | .emptyFile => Status.invalidParameter
    | .unknownFormat => Status.unsupported
    | .memory e => Fault.status e
    | .read e => Fault.status e
    | .zstd e => Fault.status e
    | .lz4 e => Fault.status e
  report
    | .noInput => []
    | .emptyFile => [Component.payload.error "Payload is empty"]
    | .unknownFormat => [Component.payload.error "Unknown payload format"]
    | .memory e => Fault.report e
    | .read e => Fault.report e
    | .zstd e => Fault.report e
    | .lz4 e => Fault.report e

/-! ## Unpacking -/

/-- A computation that reads a source and may fail. -/
abbrev Unpack (σ α : Type) := ExceptT Error (StateT σ Logged) α

/-- Fill a buffer from the source. -/
def fill (src : Source σ) (b : Buffer) : Unpack σ Buffer :=
  fun s =>
    match src.fill b s with
    | (.ok (), b, s) => pure (.ok b, s)
    | (.error e, _, s) => pure (.error (.read e), s)

/-- Run a frame decoder on the input that starts with `chunk`. -/
def decodeFrame (wrap : ε → Error)
    (decode : Input σ → Logged (Except ε ByteArray × Input σ)) (chunk : Buffer) (total : Nat) :
    Unpack σ Buffer :=
  fun s => do
    match ← decode (Input.start chunk s total) with
    | (.ok out, inp) => return (.ok (Buffer.ofBytes out), inp.state)
    | (.error e, inp) => return (.error (wrap e), inp.state)

/-- Read the rest of a file into the buffer with its first bytes. -/
def readRest [Allocator] (src : Source σ) (chunk : Buffer) (total : Nat) : Unpack σ Buffer :=
  if chunk.len < total then
    match chunk.grow total with
    | .error e => throw (.memory e)
    | .ok b => fill src b
  else
    pure chunk

/-- Hand an image through: the rest of the file is read into the same buffer. -/
def handThrough [Allocator] (src : Source σ) (chunk : Buffer) (total : Nat) : Unpack σ Buffer := do
  let b ← readRest src chunk total
  if b.len < total then
    note (Component.payload.warn s!"Image file ended after {b.len} of {total} bytes")
  note (Component.payload.debug s!"Uncompressed image, {b.len} bytes")
  return b

/-- Unpack a payload of the given format. -/
def unpackAs [Allocator] [Zstd.Decoder] (src : Source σ) (chunk : Buffer) (total : Nat) :
    Format → Unpack σ Buffer
  | .image => handThrough src chunk total
  | .zstd => decodeFrame .zstd (Zstd.Frame.decode src) chunk total
  | .lz4 => decodeFrame .lz4 (Lz4.Frame.decode src) chunk total

/-- Unpack a payload of `total` bytes whose first bytes are in `chunk` and
whose others are in the source. -/
def unpack [Allocator] [Zstd.Decoder] (src : Source σ) (chunk : Buffer) (total : Nat) :
    Unpack σ Buffer := do
  if chunk.isEmpty then
    throw .noInput
  match Format.detect? chunk.remaining with
  | none => throw .unknownFormat
  | some format =>
    let b ← unpackAs src chunk total format
    note (Component.payload.info s!"Decompressed {total} bytes into {b.len} bytes")
    return b

/-- Most bytes of the input that are in memory at once. -/
def maxChunk : Nat := 131072

/-- Read the bytes that the file of a source starts with. -/
def readChunk [Allocator] (src : Source σ) : Unpack σ Buffer := do
  let size := min src.size maxChunk
  note (Component.payload.debug s!"buffer: {size} file: {src.size}")
  match Buffer.allocate size with
  | .error e => throw (.memory e)
  | .ok b =>
    let b ← fill src b
    note (Component.payload.debug s!"read: {b.len}")
    return b

/-- Unpack the whole file that a source hands out. -/
def unpackFile [Allocator] [Zstd.Decoder] (src : Source σ) : Unpack σ Buffer := do
  if src.size = 0 then
    throw .emptyFile
  let b ← readChunk src
  unpack src b src.size

end EfiLoader.Payload
