import EfiLoader.Loader.Basic
import EfiLoader.Paging
import EfiLoader.Text.Hex

/-!
# EfiLoader.Loader.Pages

Memory for images.  Images want their memory at multiples of an alignment
that can be more than a page, so there are pages to spare at either end.
-/

namespace EfiLoader

open Log Text

/-! ## Allocations -/

/-- Pages that belong to somebody. -/
structure PageAllocation where
  address : Nat
  pages : Nat
  memoryType : UInt32
deriving DecidableEq

/-- The address of the last byte. -/
def PageAllocation.last (a : PageAllocation) : Nat := a.address + a.pages * pageSize - 1

/-- Aligned memory in pages of its own. -/
structure PageBuffer where
  allocation : PageAllocation
  /-- Where the memory begins. -/
  base : Nat
  /-- Bytes of the memory. -/
  size : Nat
deriving DecidableEq

namespace PageBuffer

/-- Bytes from the base to the end of the pages. -/
def available (b : PageBuffer) : Nat :=
  b.allocation.address + b.allocation.pages * pageSize - b.base

/-! ## Requests -/

/-- Bytes to spare for an alignment; pages have those that divide a page. -/
def slack (alignment : Nat) : Nat := if pageSize % alignment = 0 then 0 else alignment - 1

/-- Pages to ask for, if so many bytes can be counted. -/
def pagesNeeded? (size alignment : Nat) : Option Nat :=
  if size + slack alignment < addressLimit then
    some (pagesHolding (size + slack alignment))
  else
    none

/-- The first multiple of `alignment` from `address` on, if it is an address. -/
def alignedBase? (address alignment : Nat) : Option Nat :=
  let base := (address + (alignment - 1)) / alignment * alignment
  if base < addressLimit then some base else none

/-! ## Operations -/

/-- Give the pages back. -/
def release (fw : Firmware φ) (b : PageBuffer) : Loader φ Unit := do
  let status ← Loader.call (fw.freePages b.allocation.address b.allocation.pages)
  if status ≠ Status.success then
    note (Component.buffer.warn
      s!"Failed to free pages at {hex b.allocation.address}: {status.text}")

/-- The memory in pages that have been allocated; without an aligned base the
pages are given back. -/
def carve (fw : Firmware φ) (a : PageAllocation) (size alignment : Nat) :
    Attempt φ PageBuffer := do
  match alignedBase? a.address alignment with
  | none =>
    release fw ⟨a, a.address, size⟩
    throw Status.outOfResources
  | some base =>
    note (Component.buffer.debug
      s!"Allocated {a.pages} pages at {hex a.address}, aligned base {hex base}")
    (Loader.modifyShared fun s => { s with memory := s.memory.fill base size 0 } : Loader φ Unit)
    return ⟨a, base, size⟩

/-- Zeroed memory of `size` bytes at a multiple of `alignment`. -/
def allocate (fw : Firmware φ) (size alignment : Nat) (memoryType : UInt32) :
    Attempt φ PageBuffer := do
  if size = 0 ∨ alignment = 0 then
    throw Status.invalidParameter
  match pagesNeeded? size alignment with
  | none => throw Status.outOfResources
  | some pages =>
    let address ← (Attempt.ofLoader (Loader.call (fw.allocatePages memoryType pages))).noting
      fun status => Component.buffer.error
        s!"Failed to allocate {pages} pages: {status.text}"
    carve fw ⟨address, pages, memoryType⟩ size alignment

end PageBuffer

end EfiLoader
