import EfiLoader.Firmware.Memory
import EfiLoader.Paging

/-!
# EfiLoader.Pool

Memory for the loader's own data.  The pool of the firmware hands out blocks
at multiples of 8.  A block with a stricter alignment is cut out of a larger
one, whose address is kept in the 8 bytes below the aligned block, so that
the larger block can be given back later.
-/

namespace EfiLoader

/-- Memory with data of a loader. -/
def loaderData : UInt32 := 2

/-- A pool over states of type `π`. -/
structure Pool (π : Type) where
  /-- The address of a new block, if there is one. -/
  allocate : (memoryType : UInt32) → (size : Nat) → StateM π (Option Nat)
  /-- Give the block at an address back. -/
  release : (address : Nat) → StateM π Unit

/-- A pool's state and the memory that its blocks lie in. -/
structure Heap (π : Type) where
  pool : π
  memory : Memory

namespace Heap

/-- What every block of the pool is aligned to. -/
def poolAlignment : Nat := 8

/-- Bytes of an address in memory. -/
def addressSize : Nat := 8

/-- The first multiple of `align` above `base`. -/
def alignedAbove (base align : Nat) : Nat := base + (align - base % align)

/-- A block of the pool; none while there is no pool. -/
def take (pool : Option (Pool π)) (size : Nat) : StateM (Heap π) (Option Nat) := fun h =>
  match pool with
  | none => (none, h)
  | some p =>
    let (block, pool) := p.allocate loaderData size h.pool
    (block, { h with pool })

/-- Give a block back to the pool, if there is one. -/
def giveBack (pool : Option (Pool π)) (address : Nat) : StateM (Heap π) Unit := fun h =>
  match pool with
  | none => ((), h)
  | some p =>
    let ((), pool) := p.release address h.pool
    ((), { h with pool })

/-- A block of `size` bytes at a multiple of `align`. -/
def allocate (pool : Option (Pool π)) (size align : Nat) : StateM (Heap π) (Option Nat) := do
  if align ≤ poolAlignment then
    take pool size
  else if addressLimit ≤ size + align then
    return none
  else
    match ← take pool (size + align) with
    | none => return none
    | some base =>
      let block := alignedAbove base align
      modify fun h => { h with
        memory := h.memory.write (block - addressSize) (Bytes.le addressSize base) }
      return some block

/-- A block of zeros. -/
def allocateZeroed (pool : Option (Pool π)) (size align : Nat) : StateM (Heap π) (Option Nat) := do
  let block? ← allocate pool size align
  if let some block := block? then
    modify fun h => { h with memory := h.memory.fill block size 0 }
  return block?

/-- Give a block back that was made with this alignment. -/
def release (pool : Option (Pool π)) (block align : Nat) : StateM (Heap π) Unit := do
  if align ≤ poolAlignment then
    giveBack pool block
  else
    let stored := (← get).memory.read (block - addressSize) addressSize
    giveBack pool (Bytes.leNat stored 0 addressSize)

/-- A block of `size` bytes with the content of a block of `old` bytes, which
is given back.  Without a new block the old one stays. -/
def resize (pool : Option (Pool π)) (block old align size : Nat) :
    StateM (Heap π) (Option Nat) := do
  let new? ← allocate pool size align
  if let some new := new? then
    modify fun h => { h with
      memory := h.memory.write new (h.memory.read block (min old size)) }
    release pool block align
  return new?

end Heap

end EfiLoader
