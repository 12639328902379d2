import EfiLoader.Zstd.Header
import EfiLoader.Zstd.Decoding

/-!
# EfiLoader.Zstd.Frame

Decoding a zstd frame from an input, with any decoder.  A buffer of the
declared size is filled with the content, then one more byte is asked for; the
error of a read that has failed meanwhile goes before all that the decoder has
made of it.
-/

namespace EfiLoader.Zstd

open Log Text

/-! ## Errors -/

/-- How streaming a frame can fail. -/
inductive StreamError where
  /-- The header of the frame cannot be read, or the decoder refuses it. -/
  | header
  /-- The content cannot be read or does not decode. -/
  | content
  /-- More bytes were handed out than had been asked for. -/
  | overlong
  /-- The content is longer than declared. -/
  | excess
deriving DecidableEq

/-- The lines that report the error. -/
def StreamError.report : StreamError → List Entry
  | header => [Component.zstd.error "ZSTD: invalid frame header"]
  | content => [Component.zstd.error "ZSTD: frame decoding failed"]
  | overlong => []
  | excess => [Component.zstd.error "ZSTD: frame holds more than its declared content size"]

/-- What can be wrong with a zstd frame. -/
inductive FrameError where
  /-- The frame declares no usable content size. -/
  | header (e : HeaderError)
  /-- There is no memory for the content. -/
  | memory (e : Buffer.Error)
  /-- A read of the input has failed. -/
  | read (e : ReadError)
  /-- The frame cannot be streamed. -/
  | stream (e : StreamError)
  /-- The content is shorter than declared. -/
  | contentSize (actual declared : Nat)
  /-- The content does not have the checksum stored for it. -/
  | checksum (actual expected : UInt32)
deriving DecidableEq

instance : Fault FrameError where
  status
    | .header e => e.status
    | .memory e => Fault.status e
    | .read e => e.status
    | .stream _ | .contentSize _ _ | .checksum _ _ => Status.compromisedData
  report
    | .header e => e.report
    | .memory e => Fault.report e
    -- these two have written their lines when they came up
    | .read _ | .stream _ => []
    | .contentSize actual declared =>
      [Component.zstd.error s!"ZSTD: frame ended after {actual} of {declared} bytes"]
    | .checksum actual expected =>
      [Component.zstd.error ("ZSTD: content checksum mismatch (" ++ hexPadded 8 actual.toNat ++
        " != " ++ hexPadded 8 expected.toNat ++ ")")]

namespace Frame

/-! ## Streaming -/

section

variable [Decoder]

/-- Fill the buffer with content until it is full or there is no more. -/
def fill (b : Buffer) (d : Decoder.Session) :
    Decoding (Except StreamError Decoder.Session × Buffer) :=
  if b.room = 0 then
    pure (.ok d, b)
  else do
    match ← (Decoder.read b.room d).run with
    | none => return (.error .content, b)
    | some (piece, d) =>
      if piece.size = 0 then
        return (.ok d, b)
      else if h : piece.size ≤ (b.store piece).room then
        fill ((b.store piece).commitRoom piece.size h) d
      else
        return (.error .overlong, b.store piece)
termination_by b.room
decreasing_by
  rw [Buffer.room_commitRoom, Buffer.room_store]
  rw [Buffer.room_store] at h
  omega

/-- Ask for one byte after the content, which may not be there. -/
def probe (d : Decoder.Session) : Decoding (Except StreamError Checksums) := do
  match ← (Decoder.read 1 d).run with
  | none => return .error .content
  | some (extra, d) =>
    return if extra.size ≠ 0 then .error .excess else .ok (Decoder.checksums d)

/-- Fill the buffer with the content of a frame, which may not have more. -/
def stream (b : Buffer) : Decoding (Except StreamError Checksums × Buffer) := do
  match ← Decoder.start.run with
  | none => return (.error .header, b)
  | some d =>
    match ← fill b d with
    | (.error e, b) => return (.error e, b)
    | (.ok d, b) => return (← probe d, b)

end

/-! ## Decoding -/

/-- The content in the buffer, if it has the size and the checksum that it should have. -/
def check (size : Nat) (b : Buffer) (sums : Checksums) : Except FrameError ByteArray :=
  if b.len ≠ size then
    .error (.contentSize b.len size)
  else
    match sums.stored, sums.computed with
    | some expected, some actual =>
      if actual ≠ expected then .error (.checksum actual expected) else .ok b.committed
    | _, _ => .ok b.committed

/-- What streaming has come to.  A read that has failed goes before all else. -/
def settle (size : Nat) (failed : Option ReadError) :
    Except StreamError Checksums × Buffer → Except FrameError ByteArray
  | (streamed, b) =>
    match failed, streamed with
    | some e, _ => .error (.read e)
    | none, .error e => .error (.stream e)
    | none, .ok sums => check size b sums

/-- The lines that report how streaming has failed. -/
def report : Except StreamError Checksums → List Entry
  | .error e => e.report
  | .ok _ => []

/-- Decode the frame at the start of an input. -/
def decode [Allocator] [Decoder] (src : Source σ) (inp : Input σ) :
    Logged (Except FrameError ByteArray × Input σ) := do
  match contentSize inp.buffered with
  | .error e => return (.error (.header e), inp)
  | .ok size =>
    note (Component.zstd.debug s!"ZSTD: frame content size {size}")
    match Buffer.allocate size with
    | .error e => return (.error (.memory e), inp)
    | .ok b =>
      let (streamed, feed) := (stream b).run src { input := inp }
      Logged.write feed.report
      Logged.write (report streamed.1)
      return (settle size feed.failed streamed, feed.input)

end Frame

end EfiLoader.Zstd
