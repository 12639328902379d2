import EfiLoader.Firmware.Shared
import EfiLoader.Proofs.Bytes

/-!
# EfiLoader.Proofs.Firmware.LoadFile

Replies of a file service that has a file.  A request is proper if it asks for
the file itself, on behalf of an image, and says the size of its buffer:

* `reply_of_small`, `reply_of_enough` — the reply to a proper request;
* `reply_of_not_proper` — any other request is refused, and leaves size and
  buffer alone.
-/

namespace EfiLoader

namespace LoadFile

/-- A request for the file itself, on behalf of an image, with a size. -/
structure Request.Proper (r : Request) : Prop where
  path : ∃ path, r.path = some path ∧ DevicePath.isEnd path = true
  bootPolicy : r.bootPolicy = false
  size : r.size.isSome = true

/-- The statuses with which requests are refused. -/
def refusals : List Status := [Status.invalidParameter, Status.unsupported, Status.notFound]

variable {data : ByteArray} {r : Request}

theorem value_serve (data : ByteArray) (r : Request) : (serve data r).value = reply data r := by
  by_cases h : (reply data r).status = Status.success
  · simp only [serve, if_pos h]
    rfl
  · simp only [serve, if_neg h]
    rfl

/-- Without enough room the reply tells the size of the file. -/
theorem reply_of_small (hdata : data.size ≠ 0) (hr : r.Proper) {size : Nat}
    (hsize : r.size = some size) (hsmall : r.buffer = none ∨ size < data.size) :
    reply data r = ⟨Status.bufferTooSmall, some data.size, r.buffer⟩ := by
  obtain ⟨path, hpath, hend⟩ := hr.path
  rcases r with ⟨_, policy, _, buffer⟩
  obtain rfl : policy = false := hr.bootPolicy
  cases hpath
  cases hsize
  cases buffer with
  | none => simp [reply, hend, hdata]
  | some buffer =>
      have hlt : size < data.size := hsmall.resolve_left (by simp)
      simp [reply, hend, hdata, hlt]

/-- With enough room the file is put at the start of the buffer. -/
theorem reply_of_enough (hdata : data.size ≠ 0) (hr : r.Proper) {size : Nat} {buffer : ByteArray}
    (hsize : r.size = some size) (hbuffer : r.buffer = some buffer) (hle : data.size ≤ size) :
    reply data r =
      ⟨Status.success, some data.size, some (Bytes.overwrite buffer 0 data)⟩ := by
  obtain ⟨path, hpath, hend⟩ := hr.path
  rcases r with ⟨_, policy, _, _⟩
  obtain rfl : policy = false := hr.bootPolicy
  cases hpath
  cases hsize
  cases hbuffer
  simp [reply, hend, hdata, Nat.not_lt.mpr hle]

/-- A request that is not proper is refused. -/
theorem reply_of_not_proper (data : ByteArray) (hr : ¬r.Proper) :
    ∃ status ∈ refusals, reply data r = r.refused status := by
  rcases r with ⟨path, policy, size, buffer⟩
  cases path with
  | none => exact ⟨Status.invalidParameter, by decide, rfl⟩
  | some path =>
      cases size with
      | none => exact ⟨Status.invalidParameter, by decide, rfl⟩
      | some size =>
          cases policy with
          | true => exact ⟨Status.unsupported, by decide, rfl⟩
          | false =>
              cases hend : DevicePath.isEnd path with
              | false => exact ⟨Status.unsupported, by decide, by simp [reply, hend]⟩
              | true => exact absurd ⟨⟨path, rfl, hend⟩, rfl, rfl⟩ hr

end LoadFile

namespace Shared

open LoadFile

variable {s s' : Shared} {offer : OfferedInitrd}

/-- Only the registered initrd decides what is handed out. -/
theorem loadFile_congr (h : s'.initrd = s.initrd) : s'.loadFile = s.loadFile := by
  funext this r
  rw [loadFile, loadFile, h]

theorem value_loadFile_of_service (hoffer : s.initrd = some offer)
    (hservice : offer.service ≠ Interface.null) (r : Request) :
    (s.loadFile offer.service r).value = reply offer.data.remaining r := by
  rw [loadFile, if_neg hservice, hoffer]
  simp only [if_pos, value_serve]

/-- Nobody else has a file. -/
theorem value_loadFile_of_ne {this : Interface}
    (h : ∀ offer, s.initrd = some offer → offer.service ≠ this) (r : Request) :
    ∃ status ∈ refusals, (s.loadFile this r).value = r.refused status := by
  rw [loadFile]
  by_cases hnull : this = Interface.null
  · rw [if_pos hnull]
    exact ⟨Status.invalidParameter, by decide, rfl⟩
  · rw [if_neg hnull]
    cases hoffer : s.initrd with
    | none => exact ⟨Status.notFound, by decide, rfl⟩
    | some offer =>
        simp only [if_neg (h offer hoffer)]
        exact ⟨Status.notFound, by decide, rfl⟩

end Shared

end EfiLoader
