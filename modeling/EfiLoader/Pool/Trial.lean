import EfiLoader.Pool

/-!
# EfiLoader.Pool.Trial

The allocator tried out over a pool that hands out one address after the
other.  Blocks are kept in numbered slots; a step makes, moves or gives back
one block and tells what was asked of the pool.
-/

namespace EfiLoader

/-! ## A pool in ascending order -/

/-- A pool whose blocks follow one another and are never used again. -/
structure AscendingPool where
  next : Nat
  /-- Most bytes of a block. -/
  limit : Option Nat := none
  /-- The last request for a block. -/
  asked : Option (UInt32 × Nat) := none
  /-- The last block given back. -/
  released : Option Nat := none

namespace AscendingPool

/-- Where the blocks begin. -/
def start : Nat := 0x190000000

/-- Where the blocks end. -/
def stop : Nat := 0x190100000

/-- Whether a block of `size` bytes can be had. -/
def admits (p : AscendingPool) (size : Nat) : Bool :=
  (match p.limit with
    | none => true
    | some limit => decide (size ≤ limit)) && decide (p.next + size ≤ stop)

/-- The pool as the allocator sees it. -/
def pool : Pool AscendingPool where
  allocate memoryType size p :=
    let p := { p with asked := some (memoryType, size) }
    if p.admits size then
      (some p.next, { p with next := (p.next + size + 7) / 8 * 8 })
    else
      (none, p)
  release address p := ((), { p with released := some address })

end AscendingPool

namespace Heap

/-! ## Steps -/

/-- A block in a slot. -/
structure Block where
  address : Nat
  size : Nat
  align : Nat
deriving DecidableEq

/-- One step of a trial. -/
inductive TrialStep where
  | allocate (size align : Nat) (zeroed : Bool)
  | free (slot : Nat)
  | resize (slot size : Nat)
deriving DecidableEq

/-- A trial: the heap and the slots. -/
structure Trial where
  heap : Heap AscendingPool
  slots : List (Option Block) := []

/-- What a step did. -/
structure TrialReport where
  /-- The address the allocator answered, 0 for none; absent if it answers nothing. -/
  address : Option Nat
  /-- What was asked of the pool. -/
  asked : Option (UInt32 × Nat)
  /-- What was given back to the pool. -/
  released : Option Nat
  /-- The content of the block. -/
  bytes : Option ByteArray

namespace Trial

/-- A trial whose blocks begin `offset` bytes after the start of the pool. -/
def begin (offset : Nat) (limit : Option Nat) : Trial :=
  { heap := ⟨{ next := AscendingPool.start + offset, limit }, Memory.filled 0xCC⟩ }

/-- The block in a slot. -/
def block? (t : Trial) (slot : Nat) : Option Block := (t.slots[slot]?).join

/-- What a step reports that answered `address` and left `heap`. -/
def report (heap : Heap AscendingPool) (address : Option Nat) (bytes : Option ByteArray) :
    TrialReport :=
  ⟨address, heap.pool.asked, heap.pool.released, bytes⟩

/-- Make a block and fill it with a pattern. -/
def make (t : Trial) (pool : Option (Pool AscendingPool)) (size align : Nat) (zeroed : Bool) :
    TrialReport × Trial :=
  let run := if zeroed then allocateZeroed else allocate
  let (address?, heap) := (run pool size align).run t.heap
  match address? with
  | none => (report heap (some 0) none, ⟨heap, t.slots ++ [none]⟩)
  | some address =>
    let bytes := heap.memory.read address size
    let pattern := (List.range size).map fun i => UInt8.ofNat (i % 251)
    (report heap (some address) (some bytes),
      ⟨{ heap with memory := heap.memory.write address pattern.toByteArray },
        t.slots ++ [some ⟨address, size, align⟩]⟩)

/-- Give the block of a slot back. -/
def drop (t : Trial) (pool : Option (Pool AscendingPool)) (slot : Nat) (b : Block) :
    TrialReport × Trial :=
  let ((), heap) := (release pool b.address b.align).run t.heap
  (report heap none none, ⟨heap, t.slots.set slot none⟩)

/-- Move the block of a slot to a new slot. -/
def move (t : Trial) (pool : Option (Pool AscendingPool)) (slot size : Nat) (b : Block) :
    TrialReport × Trial :=
  let (address?, heap) := (resize pool b.address b.size b.align size).run t.heap
  match address? with
  | none => (report heap (some 0) none, ⟨heap, t.slots.set slot none ++ [some b]⟩)
  | some address =>
    (report heap (some address) (some (heap.memory.read address (min b.size size))),
      ⟨heap, t.slots.set slot none ++ [some { b with address, size }]⟩)

/-- Take one step; a step on an empty slot reports nothing. -/
def step (t : Trial) (pool : Option (Pool AscendingPool)) (s : TrialStep) :
    Option TrialReport × Trial :=
  let t := { t with heap := { t.heap with
    pool := { t.heap.pool with asked := none, released := none } } }
  match s with
  | .allocate size align zeroed =>
    let (r, t) := t.make pool size align zeroed
    (some r, t)
  | .free slot =>
    match t.block? slot with
    | none => (none, t)
    | some b =>
      let (r, t) := t.drop pool slot b
      (some r, t)
  | .resize slot size =>
    match t.block? slot with
    | none => (none, { t with slots := t.slots ++ [none] })
    | some b =>
      let (r, t) := t.move pool slot size b
      (some r, t)

end Trial

end Heap

end EfiLoader
