import EfiLoader.Input

/-!
# EfiLoader.Zstd.Decoding

Programs that ask for bytes.  A program is told what every read has found, or
that it has failed, and knows nothing else of where the bytes come from; so
whatever decodes a frame can be run on any input.

An input that a program is run on keeps the error of the last read that has
failed, as the program only learns that there was one.
-/

namespace EfiLoader.Zstd

/-! ## Programs -/

/-- A program that asks for bytes and ends with an `α`. -/
inductive Decoding (α : Type) where
  /-- The end. -/
  | done (a : α)
  /-- Ask for at most `n` bytes and go on with those that were read, or with
  `none` if the read has failed. -/
  | read (n : Nat) (next : Option ByteArray → Decoding α)

namespace Decoding

/-- One program after the other. -/
protected def bind : Decoding α → (α → Decoding β) → Decoding β
  | done a, f => f a
  | read n next, f => read n fun answer => (next answer).bind f

instance : Monad Decoding where
  pure := done
  bind := Decoding.bind

/-- Ask until there are `need` more bytes than those in `taken`.  There is no
answer if a read fails or the bytes end. -/
def takeOnto (need : Nat) (taken : ByteArray) : Decoding (Option ByteArray) :=
  if need = 0 then
    done (some taken)
  else
    read need fun
      | none => done none
      | some bytes =>
        if bytes.size = 0 then done none else takeOnto (need - bytes.size) (taken ++ bytes)
termination_by need

/-- Ask for exactly `n` bytes. -/
def take (n : Nat) : OptionT Decoding ByteArray := takeOnto n ByteArray.empty

/-- Ask for an `n`-byte little-endian number. -/
def le (n : Nat) : OptionT Decoding Nat := do
  return Bytes.leNat (← take n) 0 n

end Decoding

/-! ## Decoders -/

/-- The checksum that a frame stores and the one of its content, where there are
such. -/
structure Checksums where
  stored : Option UInt32
  computed : Option UInt32
deriving DecidableEq

/-- A decoder of frames.  Every step of it may fail. -/
class Decoder where
  /-- What is known of a frame that is being decoded. -/
  Session : Type
  /-- Read the header of a frame. -/
  start : OptionT Decoding Session
  /-- The next bytes of the content, at most as many as asked for; none at its end. -/
  read : Nat → Session → OptionT Decoding (ByteArray × Session)
  /-- The checksums, as far as the frame has been decoded. -/
  checksums : Session → Checksums

/-! ## Running them -/

/-- An input, the error of the last read that has failed, and the lines that
failed reads have written. -/
structure Feed (σ : Type) where
  input : Input σ
  failed : Option ReadError := none
  report : List Entry := []

namespace Feed

/-- Read at most `n` bytes. -/
def read (src : Source σ) (n : Nat) (f : Feed σ) : Option ByteArray × Feed σ :=
  match f.input.read src n with
  | (.ok bytes, input) => (some bytes, { f with input })
  | (.error e, input) =>
    (none, { input, failed := some e, report := f.report ++ e.report })

end Feed

/-- Run a program on an input. -/
def Decoding.run (src : Source σ) : Decoding α → StateM (Feed σ) α
  | done a => fun f => (a, f)
  | read n next => fun f =>
    match f.read src n with
    | (answer, f) => (next answer).run src f

end EfiLoader.Zstd
