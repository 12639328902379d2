import EfiLoader.Firmware.Basic

/-!
# EfiLoader.Loader.Basic

Computations of the loader: they call the firmware, change what is shared,
write log lines and may fail with a status.
-/

namespace EfiLoader

open Log

/-- A firmware's state and what the loader shares with it. -/
structure Machine (φ : Type) where
  firmware : φ
  shared : Shared

/-- A computation of the loader. -/
abbrev Loader (φ α : Type) := StateT (Machine φ) Logged α

/-- A computation of the loader that may fail. -/
abbrev Attempt (φ α : Type) := ExceptT Status (Loader φ) α

namespace Loader

/-- Call the firmware. -/
def call (m : StateM φ α) : Loader φ α := fun s =>
  let (a, firmware) := m s.firmware
  pure (a, { s with firmware })

/-- Call the firmware, passing its log lines on. -/
def callNoted (m : StateT φ Logged α) : Loader φ α := fun s => do
  let (a, firmware) ← m s.firmware
  return (a, { s with firmware })

/-- Call the firmware with what is shared. -/
def callSharing (m : Shared → StateM φ α) : Loader φ α := fun s =>
  call (m s.shared) s

/-- Run code outside the loader with what is shared. -/
def hand (m : Shared → StateT φ Logged α) : Loader φ α := fun s =>
  callNoted (m s.shared) s

/-- What is shared. -/
def shared : Loader φ Shared := fun s => pure (s.shared, s)

/-- Change what is shared. -/
def modifyShared (f : Shared → Shared) : Loader φ Unit := fun s =>
  pure ((), { s with shared := f s.shared })

/-- Change the objects, with an answer. -/
def modifyObjects (f : Objects → α × Objects) : Loader φ α := fun s =>
  let (a, objects) := f s.shared.objects
  pure (a, { s with shared := { s.shared with objects } })

end Loader

namespace Attempt

/-- A computation that answers a status or a value. -/
def ofLoader (m : Loader φ (Except Status α)) : Attempt φ α := ExceptT.mk m

/-- Go on with a value, or fail with the status of an error after writing its
lines. -/
def settle [Fault ε] (r : Except ε α) : Attempt φ α :=
  ExceptT.mk (fun s => do return (← Log.settle r, s))

/-- Write a line if `m` fails. -/
def noting (m : Attempt φ α) (line : Status → Entry) : Attempt φ α := ExceptT.mk do
  let r ← m.run
  if let .error status := r then
    note (line status)
  return r

/-- Do something more if `m` fails. -/
def orElseDo (m : Attempt φ α) (cleanUp : Loader φ Unit) : Attempt φ α := ExceptT.mk do
  let r ← m.run
  if let .error _ := r then
    cleanUp
  return r

end Attempt

end EfiLoader
