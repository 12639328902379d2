import EfiLoader.Source

/-!
# EfiLoader.Input

Compressed input: a chunk of bytes in a buffer and the source the chunk is
refilled from once all of it has been read.  However the bytes are cut into
chunks, they are read in order and each of them once.
-/

namespace EfiLoader

/-- The current chunk and the source that follows it. -/
structure Input (σ : Type) where
  /-- The current chunk. -/
  chunk : Buffer
  /-- The state of the source. -/
  state : σ
  /-- Declared length of the whole input. -/
  total : Nat
  /-- Bytes taken from the source so far, the first chunk included. -/
  consumed : Nat

namespace Input

/-- The input whose first bytes are in `chunk` and whose others are in the
source. -/
def start (chunk : Buffer) (state : σ) (total : Nat) : Input σ :=
  { chunk, state, total, consumed := chunk.len }

/-- The bytes of the current chunk that have not been read. -/
def buffered (inp : Input σ) : ByteArray := inp.chunk.remaining

/-- Number of bytes that can be read without another chunk, and of those that
may follow: an upper bound on how many bytes a reader can take. -/
def budget (inp : Input σ) : Nat :=
  inp.chunk.unread + (inp.total - inp.consumed) * (inp.chunk.capacity + 1)

/-- Get the next chunk if this one has been read completely.  The answer says
whether there are bytes to read. -/
def refill (src : Source σ) (inp : Input σ) : Except ReadError Bool × Input σ :=
  if inp.chunk.unread ≠ 0 then
    (.ok true, inp)
  else if inp.total ≤ inp.consumed then
    (.ok false, inp)
  else
    let chunk := inp.chunk.clear
    match src.read chunk.room inp.state with
    | (.error e, state) => (.error (.source e), { inp with chunk, state })
    | (.ok r, state) =>
      match (chunk.store r.bytes).commit r.count with
      | .error _ => (.error .overreported, { inp with chunk := chunk.store r.bytes, state })
      | .ok chunk =>
        (.ok (r.count != 0), { inp with chunk, state, consumed := inp.consumed + r.count })

/-- Read at most `n` bytes of the current chunk, or of the next one if there
are none left in it; no bytes at the end of the input. -/
def read (src : Source σ) (n : Nat) (inp : Input σ) : Except ReadError ByteArray × Input σ :=
  if n = 0 then
    (.ok ByteArray.empty, inp)
  else
    match inp.refill src with
    | (.error e, inp) => (.error e, inp)
    | (.ok false, inp) => (.ok ByteArray.empty, inp)
    | (.ok true, inp) =>
      let count := min inp.chunk.unread n
      let bytes := inp.chunk.storage.extract inp.chunk.pos (inp.chunk.pos + count)
      (.ok bytes, { inp with chunk := inp.chunk.advanceUnread count (Nat.min_le_left _ _) })

/-- Read exactly `need` bytes after those in `taken`.  What has been read is
in the answer also when the input fails or ends. -/
def takeOnto (src : Source σ) (need : Nat) (taken : ByteArray) (inp : Input σ) :
    Except ReadError Unit × ByteArray × Input σ :=
  if need = 0 then
    (.ok (), taken, inp)
  else
    match inp.read src need with
    | (.error e, inp) => (.error e, taken, inp)
    | (.ok bytes, inp) =>
      if bytes.size = 0 then
        (.error .exhausted, taken, inp)
      else
        takeOnto src (need - bytes.size) (taken ++ bytes) inp
termination_by need

/-- Read exactly `n` bytes. -/
def take (src : Source σ) (n : Nat) (inp : Input σ) :
    Except ReadError Unit × ByteArray × Input σ :=
  inp.takeOnto src n ByteArray.empty

end Input

/-! ## Readers -/

/-- A computation that reads an input and may fail with an `ε`. -/
abbrev Reader (σ ε α : Type) := ExceptT ε (StateM (Input σ)) α

namespace Reader

/-- Read exactly `n` bytes; `wrap` turns a failure into the reader's own. -/
def bytes (src : Source σ) (wrap : ReadError → ε) (n : Nat) : Reader σ ε ByteArray :=
  fun inp =>
    match inp.take src n with
    | (.ok (), taken, inp) => (.ok taken, inp)
    | (.error e, _, inp) => (.error (wrap e), inp)

/-- Read an `n`-byte little-endian number. -/
def le (src : Source σ) (wrap : ReadError → ε) (n : Nat) : Reader σ ε Nat := do
  return Bytes.leNat (← bytes src wrap n) 0 n

end Reader

end EfiLoader
