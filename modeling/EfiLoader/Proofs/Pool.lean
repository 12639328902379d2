import EfiLoader.Pool
import EfiLoader.Proofs.Firmware.Memory

/-!
# EfiLoader.Proofs.Pool

Pools whose calls are written down, and which of their blocks are in use.

* `Heap.allocate_eq`, `Heap.release_eq` — what the allocator asks of a pool;
* `Pool.audited` — a pool with a journal of its calls; nobody notices it;
* `Heap.inUse`, `Heap.Always` — the blocks in use after calls, and what holds
  of every call given the blocks that are in use when it is made.
-/

namespace EfiLoader

variable {π : Type}

/-! ## pools with a journal -/

/-- A call of a pool, and what it has answered. -/
inductive PoolCall where
  | allocate (memoryType : UInt32) (size : Nat) (answer : Option Nat)
  | release (address : Nat)
deriving DecidableEq

/-- A pool's state, and all calls that were made, the oldest first. -/
structure Audited (π : Type) where
  state : π
  calls : List PoolCall := []

/-- The pool `p`, with every call written down. -/
def Pool.audited (p : Pool π) : Pool (Audited π) where
  allocate memoryType size := fun w =>
    let (answer, state) := p.allocate memoryType size w.state
    (answer, ⟨state, w.calls ++ [.allocate memoryType size answer]⟩)
  release address := fun w =>
    ((), ⟨(p.release address w.state).2, w.calls ++ [.release address]⟩)

namespace Heap

/-- The heap without the journal. -/
def bare (h : Heap (Audited π)) : Heap π := ⟨h.pool.state, h.memory⟩

/-- How a request for memory ends: with what the pool says, or with the memory
cut out of a larger block, whose address is put below it. -/
theorem allocate_eq (p : Pool π) (size align : Nat) (h : Heap π) :
    allocate (some p) size align h =
      if align ≤ poolAlignment then
        ((p.allocate loaderData size h.pool).1,
          ⟨(p.allocate loaderData size h.pool).2, h.memory⟩)
      else if addressLimit ≤ size + align then (none, h)
      else match p.allocate loaderData (size + align) h.pool with
        | (none, pool) => (none, ⟨pool, h.memory⟩)
        | (some start, pool) => (some (alignedAbove start align),
            ⟨pool, h.memory.write (alignedAbove start align - addressSize)
              (Bytes.le addressSize start)⟩) := by
  unfold allocate
  split
  · rfl
  · split
    · rfl
    · simp only [bind, StateT.bind, take]
      rcases p.allocate loaderData (size + align) h.pool with ⟨_ | start, pool⟩
      · rfl
      · rfl

/-- The address under which memory is given back to the pool: its own, or the
one that is kept below it. -/
def originOf (memory : Memory) (block align : Nat) : Nat :=
  if align ≤ poolAlignment then block
  else Bytes.leNat (memory.read (block - addressSize) addressSize) 0 addressSize

/-- An address that has been put below a block is found there. -/
theorem originOf_write {memory : Memory} {block align start : Nat} (h : ¬ align ≤ poolAlignment)
    (hstart : start < addressLimit) :
    originOf (memory.write (block - addressSize) (Bytes.le addressSize start)) block align =
      start := by
  have hread := Memory.read_write memory (block - addressSize) (Bytes.le addressSize start)
  rw [Bytes.size_le] at hread
  rw [originOf, if_neg h, hread, Bytes.leNat_le hstart]

theorem release_eq (p : Pool π) (block align : Nat) (h : Heap π) :
    release (some p) block align h =
      ((), ⟨(p.release (originOf h.memory block align) h.pool).2, h.memory⟩) := by
  unfold release originOf
  split
  · rfl
  · rfl

/-- Nothing changes by the calls being written down. -/
theorem bare_allocate (p : Pool π) (size align : Nat) (h : Heap (Audited π)) :
    allocate (some p) size align h.bare =
      ((allocate (some p.audited) size align h).1,
        (allocate (some p.audited) size align h).2.bare) := by
  rw [allocate_eq, allocate_eq]
  split
  · rfl
  · split
    · rfl
    · simp only [Pool.audited, bare]
      rcases p.allocate loaderData (size + align) h.pool.state with ⟨_ | start, state⟩
      · rfl
      · rfl

theorem bare_release (p : Pool π) (block align : Nat) (h : Heap (Audited π)) :
    release (some p) block align h.bare =
      ((), (release (some p.audited) block align h).2.bare) := by
  rw [release_eq, release_eq]
  rfl

/-! ## blocks in use -/

/-- Bytes that follow one another in memory. -/
structure Extent where
  start : Nat
  size : Nat
deriving DecidableEq

namespace Extent

/-- The address behind the last byte. -/
def stop (e : Extent) : Nat := e.start + e.size

/-- All bytes of `e` lie between the ends of `f`. -/
def Within (e f : Extent) : Prop := f.start ≤ e.start ∧ e.stop ≤ f.stop

/-- No byte belongs to both. -/
def Apart (e f : Extent) : Prop :=
  ∀ a, ¬ ((e.start ≤ a ∧ a < e.stop) ∧ (f.start ≤ a ∧ a < f.stop))

theorem Apart.symm {e f : Extent} (h : e.Apart f) : f.Apart e := fun a ha => h a ha.symm

theorem Apart.mono {e e' f f' : Extent} (h : e.Apart f) (he : e'.Within e) (hf : f'.Within f) :
    e'.Apart f' := by
  rintro a ⟨⟨hstart, hstop⟩, hstart', hstop'⟩
  exact h a ⟨⟨Nat.le_trans he.1 hstart, Nat.lt_of_lt_of_le hstop he.2⟩,
    Nat.le_trans hf.1 hstart', Nat.lt_of_lt_of_le hstop' hf.2⟩

theorem apart_of_stop_le {e f : Extent} (h : e.stop ≤ f.start) : e.Apart f := by
  rintro a ⟨⟨-, hstop⟩, hstart, -⟩
  omega

end Extent

/-- The blocks that are in use after a call. -/
def blocksAfter (held : List Extent) : PoolCall → List Extent
  | .allocate _ size (some start) => held ++ [⟨start, size⟩]
  | .allocate _ _ none => held
  | .release address => held.eraseP (·.start == address)

/-- The blocks that are in use after calls, the oldest first. -/
def inUse (calls : List PoolCall) : List Extent := calls.foldl blocksAfter []

theorem inUse_concat (calls : List PoolCall) (c : PoolCall) :
    inUse (calls ++ [c]) = blocksAfter (inUse calls) c := by
  rw [inUse, List.foldl_append, List.foldl_cons, List.foldl_nil]
  rfl

/-- Every call is `P`, given the blocks that are in use when it is made. -/
def Always (P : List Extent → PoolCall → Prop) : List Extent → List PoolCall → Prop
  | _, [] => True
  | held, c :: rest => P held c ∧ Always P (blocksAfter held c) rest

theorem always_concat {P : List Extent → PoolCall → Prop} {held : List Extent}
    {calls : List PoolCall} {c : PoolCall} :
    Always P held (calls ++ [c]) ↔
      Always P held calls ∧ P (calls.foldl blocksAfter held) c := by
  induction calls generalizing held with
  | nil => simp [Always]
  | cons d rest ih => simp [Always, ih, and_assoc]

/-- A new block: it is aligned, has addresses, and no block in use has its
address or a byte of it. -/
structure Fresh (held : List Extent) (e : Extent) : Prop where
  aligned : poolAlignment ∣ e.start
  pos : 0 < e.start
  addressable : e.stop ≤ addressLimit
  unused : ∀ f ∈ held, f.start ≠ e.start ∧ f.Apart e

/-- A block that is handed out is new. -/
def Granted (held : List Extent) : PoolCall → Prop
  | .allocate _ size (some start) => Fresh held ⟨start, size⟩
  | _ => True

/-- A block that is given back is in use. -/
def Owed (held : List Extent) : PoolCall → Prop
  | .release address => ∃ e ∈ held, e.start = address
  | _ => True

end Heap

end EfiLoader
