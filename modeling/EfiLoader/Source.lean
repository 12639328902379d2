import EfiLoader.Buffer

/-!
# EfiLoader.Source

Byte sources: things that hand out their bytes in order, a few at a time.
A source is a description that acts on a state of type `σ`; nothing is
assumed of it but its type, so what is proved here holds of sources that
fail, stop early or report more than they deliver.
-/

namespace EfiLoader

open Log

/-! ## Sources -/

/-- A failed read: the status it ended with and the lines the source wrote. -/
structure SourceError where
  status : Status
  report : List Entry := []
deriving DecidableEq

/-- A successful read: the bytes put at the start of the target and the number
of bytes the source says it read. -/
structure ReadResult where
  bytes : ByteArray
  count : Nat

/-- A byte source over states of type `σ`. -/
structure Source (σ : Type) where
  /-- The length the source reports. -/
  size : Nat
  /-- Read at most the given number of bytes; 0 bytes at the end. -/
  read : Nat → σ → Except SourceError ReadResult × σ

/-- What can go wrong while bytes are read from a source. -/
inductive ReadError where
  /-- The source failed. -/
  | source (e : SourceError)
  /-- The source reported more bytes than it was asked for. -/
  | overreported
  /-- The bytes ended before all that were needed had been read. -/
  | exhausted
deriving DecidableEq

namespace ReadError

/-- The status that reading ends with. -/
def status : ReadError → Status
  | source e => e.status
  | overreported => Status.invalidParameter
  | exhausted => Status.compromisedData

/-- The lines that report a failed read. -/
def report : ReadError → List Entry
  | source e => e.report ++ [Component.payload.error s!"Unable to read file: {e.status.text}"]
  | overreported => []
  | exhausted => [Component.payload.error "Unexpected end of compressed stream"]

instance : Fault ReadError := ⟨status, report⟩

end ReadError

/-! ## Filling a buffer -/

/-- Read from the source until the buffer is full or the source ends. -/
def Source.fill (src : Source σ) (b : Buffer) (s : σ) :
    Except ReadError Unit × Buffer × σ :=
  if b.room = 0 then
    (.ok (), b, s)
  else
    match src.read b.room s with
    | (.error e, s) => (.error (.source e), b, s)
    | (.ok r, s) =>
      if r.count = 0 then
        (.ok (), b.store r.bytes, s)
      else if h : r.count ≤ (b.store r.bytes).room then
        src.fill ((b.store r.bytes).commitRoom r.count h) s
      else
        (.error .overreported, b.store r.bytes, s)
termination_by b.room
decreasing_by
  rw [Buffer.room_commitRoom, Buffer.room_store]
  rw [Buffer.room_store] at h
  omega

/-! ## Bytes in memory -/

/-- Bytes in memory that are handed out from a position on. -/
structure Supply where
  bytes : ByteArray
  /-- Number of bytes handed out. -/
  pos : Nat := 0
  /-- Most bytes of one read. -/
  maxRead : Option Nat := none

namespace Supply

/-- The number of bytes a read of `n` bytes returns. -/
def readSize (s : Supply) (n : Nat) : Nat :=
  let count := min n (s.bytes.size - s.pos)
  match s.maxRead with
  | none => count
  | some most => min count most

/-- Hand out the next bytes, at most `n`. -/
def read (n : Nat) (s : Supply) : ReadResult × Supply :=
  let count := s.readSize n
  (⟨s.bytes.extract s.pos (s.pos + count), count⟩, { s with pos := s.pos + count })

/-- The source that hands out a supply of `size` bytes. -/
def source (size : Nat) : Source Supply where
  size
  read n s := (.ok (s.read n).1, (s.read n).2)

end Supply

/-- A supply with at most one read that fails. -/
structure FaultySupply where
  supply : Supply
  /-- Number of reads so far. -/
  reads : Nat := 0
  /-- Which read fails, counted from 0, and with what status. -/
  fault : Option (Nat × Status) := none

namespace FaultySupply

/-- Hand out the next bytes. -/
def succeed (s : FaultySupply) (n : Nat) : Except SourceError ReadResult × FaultySupply :=
  (.ok (s.supply.read n).1, { s with supply := (s.supply.read n).2, reads := s.reads + 1 })

/-- Hand out the next bytes, unless this is the read that fails: that one
takes nothing. -/
def read (s : FaultySupply) (n : Nat) : Except SourceError ReadResult × FaultySupply :=
  match s.fault with
  | some (nth, status) =>
    if s.reads = nth then (.error { status }, { s with reads := s.reads + 1 }) else s.succeed n
  | none => s.succeed n

/-- The source that hands out a faulty supply of `size` bytes. -/
def source (size : Nat) : Source FaultySupply where
  size
  read n s := s.read n

end FaultySupply

end EfiLoader
