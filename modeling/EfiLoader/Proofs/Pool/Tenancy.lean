import EfiLoader.Pool.Trial
import EfiLoader.Proofs.Pool
import Mathlib.Data.List.Pairwise

/-!
# EfiLoader.Proofs.Pool.Tenancy

Memory out of a pool whose blocks are at multiples of 8, do not overlap and are
named by their address.  What is cut out of a block lies in it with the address
of the block below, and nobody who keeps to his own memory can change that
address:

* `Lease.Placed` — where memory is in its block, whatever its alignment;
* `Tenancy.Reached` — the allocator after memory has been taken, written to and
  given back in any order;
* `Tenancy.Sound` — where everything is then, kept by every step;
* `Tenancy.served` — so every block goes back to the pool, once and under its
  own address.
-/

namespace EfiLoader

variable {π : Type}

namespace Heap

/-! ## memory that has been taken -/

/-- Memory that has been taken, and the block of the pool that was obtained for
it. -/
structure Lease where
  address : Nat
  size : Nat
  align : Nat
  origin : Extent
deriving DecidableEq

namespace Lease

/-- The memory itself. -/
def data (a : Lease) : Extent := ⟨a.address, a.size⟩

/-- Where the address of the block is kept if the alignment is strict. -/
def slot (a : Lease) : Extent := ⟨a.address - addressSize, addressSize⟩

/-- The memory is aligned and in its block; so is the address below it, and
without one the memory starts with the block. -/
structure Placed (a : Lease) : Prop where
  aligned : a.align ∣ a.address
  data_within : a.data.Within a.origin
  slot_within : poolAlignment < a.align → a.slot.Within a.origin
  slot_stop : poolAlignment < a.align → a.slot.stop = a.address
  start_eq : a.align ≤ poolAlignment → a.address = a.origin.start

/-- The blocks of two leases have nothing in common. -/
def Separate (a b : Lease) : Prop :=
  a.origin.start ≠ b.origin.start ∧ a.origin.Apart b.origin

instance : Std.Symm Separate := ⟨fun _ _ h => ⟨h.1.symm, h.2.symm⟩⟩

/-- What is cut out of the block at `start`. -/
def cut (size align start : Nat) : Lease :=
  if align ≤ poolAlignment then
    ⟨start, size, align, ⟨start, size⟩⟩
  else
    ⟨alignedAbove start align, size, align, ⟨start, size + align⟩⟩

theorem origin_cut (size align start : Nat) : (cut size align start).origin.start = start := by
  unfold cut
  split
  · rfl
  · rfl

/-- The first aligned address above another one is less than an alignment away. -/
theorem alignedAbove_eq {align : Nat} (h : 0 < align) (base : Nat) :
    alignedAbove base align = align * (base / align + 1) := by
  have hlt : base % align < align := Nat.mod_lt _ h
  have hsum := Nat.div_add_mod base align
  rw [alignedAbove, Nat.mul_add, Nat.mul_one]
  omega

/-- The blocks of the pool are aligned enough for alignments up to theirs. -/
theorem placed_cut_of_le {start size align : Nat} (hle : align ≤ poolAlignment)
    (hdvd : align ∣ start) : (cut size align start).Placed := by
  rw [cut, if_pos hle]
  exact
    { aligned := hdvd
      data_within := ⟨Nat.le_refl _, Nat.le_refl _⟩
      slot_within := fun hlt => absurd hle (Nat.not_le_of_lt hlt)
      slot_stop := fun hlt => absurd hle (Nat.not_le_of_lt hlt)
      start_eq := fun _ => rfl }

/-- A stricter alignment is a multiple of theirs, so there are always 8 bytes
between the start of the block and the first aligned address above it. -/
theorem placed_cut_of_lt {start size align : Nat} (hlt : poolAlignment < align)
    (hdvd : poolAlignment ∣ align) (hstart : poolAlignment ∣ start) :
    (cut size align start).Placed := by
  have hmod : start % align < align := Nat.mod_lt _ (Nat.zero_lt_of_lt hlt)
  have hroom : poolAlignment ≤ align - start % align := by
    refine Nat.le_of_dvd (Nat.sub_pos_of_lt hmod) (Nat.dvd_sub hdvd ?_)
    exact (Nat.dvd_mod_iff hdvd).mpr hstart
  rw [cut, if_neg (Nat.not_le_of_lt hlt)]
  refine ⟨?_, ⟨?_, ?_⟩, fun _ => ⟨?_, ?_⟩, fun _ => ?_,
    fun hle => absurd hle (Nat.not_le_of_lt hlt)⟩
  · exact ⟨_, alignedAbove_eq (Nat.zero_lt_of_lt hlt) start⟩
  all_goals
    simp only [data, slot, Extent.stop, alignedAbove, poolAlignment, addressSize] at hroom ⊢
    omega

theorem placed_cut {start : Nat} (size k : Nat) (h : poolAlignment ∣ start) :
    (cut size (2 ^ k) start).Placed := by
  have height : poolAlignment = 2 ^ 3 := rfl
  rcases Nat.lt_or_ge 3 k with hk | hk
  · have hdvd : poolAlignment ∣ 2 ^ k := height ▸ Nat.pow_dvd_pow 2 (Nat.le_of_lt hk)
    exact placed_cut_of_lt (height ▸ Nat.pow_lt_pow_right (by decide) hk) hdvd h
  · have hdvd : 2 ^ k ∣ poolAlignment := height ▸ Nat.pow_dvd_pow 2 hk
    exact placed_cut_of_le (Nat.le_of_dvd (by decide) hdvd) (Nat.dvd_trans hdvd h)

/-- Put the address of the block below memory with a strict alignment. -/
def noteIn (a : Lease) (memory : Memory) : Memory :=
  if a.align ≤ poolAlignment then memory
  else memory.write (a.address - addressSize) (Bytes.le addressSize a.origin.start)

/-- It is found there. -/
theorem Placed.originOf_noteIn {a : Lease} (h : a.Placed) (hstop : a.origin.stop ≤ addressLimit)
    (memory : Memory) : originOf (a.noteIn memory) a.address a.align = a.origin.start := by
  unfold noteIn
  by_cases hle : a.align ≤ poolAlignment
  · rw [if_pos hle, originOf, if_pos hle, h.start_eq hle]
  · have hslot := h.slot_within (Nat.lt_of_not_le hle)
    simp only [Extent.Within, slot, Extent.stop] at hslot hstop
    rw [if_neg hle, originOf_write hle]
    have : addressSize = 8 := rfl
    omega

/-- What is written next to the slot leaves the address in it. -/
theorem originOf_write_of_apart {memory : Memory} {a : Lease} {address : Nat}
    {bytes : ByteArray}
    (h : poolAlignment < a.align → Extent.Apart ⟨address, bytes.size⟩ a.slot) :
    originOf (memory.write address bytes) a.address a.align =
      originOf memory a.address a.align := by
  unfold originOf
  split
  · rfl
  · next hstrict =>
    rw [Memory.read_write_of_outside]
    exact fun i hstart hstop hwritten =>
      h (Nat.lt_of_not_le hstrict) i ⟨hwritten, hstart, hstop⟩

/-- So does an address that is put into another block. -/
theorem Placed.originOf_noteIn_of_apart {a b : Lease} (ha : a.Placed) (hb : b.Placed)
    (hapart : a.origin.Apart b.origin) (memory : Memory) :
    originOf (a.noteIn memory) b.address b.align = originOf memory b.address b.align := by
  unfold noteIn
  split
  · rfl
  · next hstrict =>
    refine originOf_write_of_apart fun hstrict' => ?_
    rw [Bytes.size_le]
    exact hapart.mono (ha.slot_within (Nat.lt_of_not_le hstrict)) (hb.slot_within hstrict')

end Lease

/-! ## taking memory and giving it back -/

/-- The block that the last call has handed out. -/
def obtained (calls : List PoolCall) : Extent :=
  match calls.getLast? with
  | some (.allocate _ size (some start)) => ⟨start, size⟩
  | _ => ⟨0, 0⟩

theorem obtained_concat (calls : List PoolCall) (memoryType : UInt32) (size start : Nat) :
    obtained (calls ++ [.allocate memoryType size (some start)]) = ⟨start, size⟩ := by
  rw [obtained, List.getLast?_concat]

/-- The heap, and the memory that has been taken and not given back. -/
structure Tenancy (π : Type) where
  heap : Heap (Audited π)
  leases : List Lease := []

namespace Tenancy

/-- The calls of the pool so far. -/
def calls (t : Tenancy π) : List PoolCall := t.heap.pool.calls

/-- Take memory. -/
def allocate (p : Pool π) (size align : Nat) (t : Tenancy π) : Tenancy π :=
  let (address?, heap) := Heap.allocate (some p.audited) size align t.heap
  match address? with
  | none => { t with heap }
  | some address => ⟨heap, t.leases ++ [⟨address, size, align, obtained heap.pool.calls⟩]⟩

/-- Take memory out of a block that the pool hands out. -/
def grant (state : π) (a : Lease) (t : Tenancy π) : Tenancy π :=
  ⟨⟨⟨state, t.calls ++ [.allocate loaderData a.origin.size (some a.origin.start)]⟩,
    a.noteIn t.heap.memory⟩, t.leases ++ [a]⟩

/-- Give memory back. -/
def release (p : Pool π) (a : Lease) (t : Tenancy π) : Tenancy π :=
  ⟨(Heap.release (some p.audited) a.address a.align t.heap).2, t.leases.erase a⟩

/-- Write to memory. -/
def write (address : Nat) (bytes : ByteArray) (t : Tenancy π) : Tenancy π :=
  { t with heap := { t.heap with memory := t.heap.memory.write address bytes } }

/-- The pool is used by others. -/
def disturb (state : π) (t : Tenancy π) : Tenancy π :=
  { t with heap := { t.heap with pool := { t.heap.pool with state } } }

/-- What can be reached from a heap on which no memory has been taken.  Memory
is taken with any size and an alignment that is a power of 2; what has been
taken is given back, once, and written to; memory that is in no block is written
to, and the pool is used, by anybody. -/
inductive Reached (p : Pool π) : Tenancy π → Prop
  | start (state : π) (memory : Memory) : Reached p ⟨⟨⟨state, []⟩, memory⟩, []⟩
  | allocate {t : Tenancy π} (size k : Nat) :
      Reached p t → Reached p (t.allocate p size (2 ^ k))
  | release {t : Tenancy π} {a : Lease} :
      Reached p t → a ∈ t.leases → Reached p (t.release p a)
  | write {t : Tenancy π} {a : Lease} {address : Nat} {bytes : ByteArray} :
      Reached p t → a ∈ t.leases → Extent.Within ⟨address, bytes.size⟩ a.data →
      Reached p (t.write address bytes)
  | elsewhere {t : Tenancy π} {address : Nat} {bytes : ByteArray} :
      Reached p t → (∀ e ∈ inUse t.calls, Extent.Apart ⟨address, bytes.size⟩ e) →
      Reached p (t.write address bytes)
  | disturb {t : Tenancy π} (state : π) : Reached p t → Reached p (t.disturb state)

/-! ## what steps do -/

/-- Taking memory ends without a call, with a call that is refused, or with a
block out of which the memory is cut. -/
theorem allocate_cases (p : Pool π) (size align : Nat) (t : Tenancy π) :
    (t.allocate p size align = t) ∨
    (∃ state n, t.allocate p size align =
      { t with heap := ⟨⟨state, t.calls ++ [.allocate loaderData n none]⟩, t.heap.memory⟩ }) ∨
    ∃ state start, t.allocate p size align = t.grant state (Lease.cut size align start) := by
  unfold Tenancy.allocate grant Lease.noteIn Lease.cut
  rw [allocate_eq]
  by_cases hle : align ≤ poolAlignment
  · simp only [if_pos hle, Pool.audited]
    rcases p.allocate loaderData size t.heap.pool.state with ⟨_ | start, state⟩
    · exact .inr (.inl ⟨state, size, rfl⟩)
    · refine .inr (.inr ⟨state, start, ?_⟩)
      simp only [obtained_concat]
      rfl
  · by_cases hover : addressLimit ≤ size + align
    · simp only [if_neg hle, if_pos hover]
      exact .inl trivial
    · simp only [if_neg hle, if_neg hover, Pool.audited]
      rcases p.allocate loaderData (size + align) t.heap.pool.state with ⟨_ | start, state⟩
      · exact .inr (.inl ⟨state, size + align, rfl⟩)
      · refine .inr (.inr ⟨state, start, ?_⟩)
        simp only [obtained_concat]
        rfl

/-- Memory is given back with one call. -/
theorem release_eq (p : Pool π) (a : Lease) (t : Tenancy π) :
    ∃ state, t.release p a =
      ⟨⟨⟨state, t.calls ++ [.release (originOf t.heap.memory a.address a.align)]⟩,
        t.heap.memory⟩, t.leases.erase a⟩ := by
  rw [Tenancy.release, Heap.release_eq]
  exact ⟨_, rfl⟩

/-! ## where everything is -/

/-- The blocks in use are those of the memory that has been taken.  They have
nothing in common, the memory is in them, and what is kept below it names them.
Nothing has been given back to the pool that was not in use. -/
structure Sound (t : Tenancy π) : Prop where
  inUse_eq : inUse t.calls = t.leases.map Lease.origin
  placed : ∀ a ∈ t.leases, a.Placed
  pos : ∀ a ∈ t.leases, 0 < a.origin.start
  separate : t.leases.Pairwise Lease.Separate
  noted : ∀ a ∈ t.leases, originOf t.heap.memory a.address a.align = a.origin.start
  orderly : Always Owed [] t.calls

variable {p : Pool π} {t : Tenancy π}

theorem sound_start (state : π) (memory : Memory) : Sound ⟨⟨⟨state, []⟩, memory⟩, []⟩ where
  inUse_eq := rfl
  placed := by simp
  pos := by simp
  separate := List.Pairwise.nil
  noted := by simp
  orderly := trivial

theorem Sound.address_ne_zero (h : t.Sound) {a : Lease} (ha : a ∈ t.leases) : a.address ≠ 0 := by
  have hpos := h.pos a ha
  have hstart : a.origin.start ≤ a.address := (h.placed a ha).data_within.1
  omega

/-- What is kept below memory is in nobody's memory. -/
theorem Sound.slot_apart (h : t.Sound) {a b : Lease} (ha : a ∈ t.leases) (hb : b ∈ t.leases)
    (hstrict : poolAlignment < a.align) : a.slot.Apart b.data := by
  by_cases hsame : a = b
  · subst hsame
    exact Extent.apart_of_stop_le (Nat.le_of_eq ((h.placed a ha).slot_stop hstrict))
  · have hapart := (h.separate.forall ha hb hsame).2
    exact hapart.mono ((h.placed a ha).slot_within hstrict) (h.placed b hb).data_within

/-- Writing next to what is kept below memory changes nothing. -/
theorem Sound.write (h : t.Sound) {address : Nat} {bytes : ByteArray}
    (hapart : ∀ a ∈ t.leases, poolAlignment < a.align →
      Extent.Apart ⟨address, bytes.size⟩ a.slot) : (t.write address bytes).Sound where
  inUse_eq := h.inUse_eq
  placed := h.placed
  pos := h.pos
  separate := h.separate
  noted := by
    intro a ha
    rw [← h.noted a ha]
    exact Lease.originOf_write_of_apart (hapart a ha)
  orderly := h.orderly

/-- Memory may be written to by whoever has taken it. -/
theorem Sound.write_data (h : t.Sound) {a : Lease} {address : Nat} {bytes : ByteArray}
    (ha : a ∈ t.leases) (hwithin : Extent.Within ⟨address, bytes.size⟩ a.data) :
    (t.write address bytes).Sound :=
  h.write fun _ hb hstrict =>
    (h.slot_apart hb ha hstrict).symm.mono hwithin ⟨Nat.le_refl _, Nat.le_refl _⟩

/-- Memory in no block may be written to by anybody. -/
theorem Sound.write_elsewhere (h : t.Sound) {address : Nat} {bytes : ByteArray}
    (hapart : ∀ e ∈ inUse t.calls, Extent.Apart ⟨address, bytes.size⟩ e) :
    (t.write address bytes).Sound := by
  refine h.write fun a ha hstrict => ?_
  have horigin : a.origin ∈ inUse t.calls := h.inUse_eq ▸ List.mem_map_of_mem ha
  exact (hapart a.origin horigin).mono ⟨Nat.le_refl _, Nat.le_refl _⟩
    ((h.placed a ha).slot_within hstrict)

theorem Sound.disturb (h : t.Sound) (state : π) : (t.disturb state).Sound :=
  ⟨h.inUse_eq, h.placed, h.pos, h.separate, h.noted, h.orderly⟩

/-- The block that is given back is that of the memory. -/
theorem Sound.erase_origin {leases : List Lease} {a : Lease}
    (hseparate : leases.Pairwise Lease.Separate) (ha : a ∈ leases) :
    (leases.map Lease.origin).eraseP (·.start == a.origin.start) =
      (leases.erase a).map Lease.origin := by
  induction hseparate with
  | nil => cases ha
  | @cons b rest hb hrest ih =>
      by_cases hsame : b = a
      · subst hsame
        rw [List.erase_cons_head, List.map_cons]
        exact List.eraseP_cons_of_pos (beq_self_eq_true _)
      · have hmem : a ∈ rest := (List.mem_cons.mp ha).resolve_left (Ne.symm hsame)
        have hstart : ¬ (b.origin.start == a.origin.start) = true := by
          rw [beq_iff_eq]
          exact (hb a hmem).1
        rw [List.erase_cons_tail (by rwa [beq_iff_eq]), List.map_cons, List.map_cons, ← ih hmem]
        exact List.eraseP_cons_of_neg hstart

theorem Sound.release (h : t.Sound) {a : Lease} (ha : a ∈ t.leases) :
    (t.release p a).Sound := by
  obtain ⟨state, hrelease⟩ := release_eq p a t
  have hsub : t.leases.erase a ⊆ t.leases := List.erase_subset
  rw [hrelease, h.noted a ha]
  refine ⟨?_, fun b hb => h.placed b (hsub hb), fun b hb => h.pos b (hsub hb),
    h.separate.sublist List.erase_sublist, fun b hb => h.noted b (hsub hb),
    always_concat.mpr ⟨h.orderly, ?_⟩⟩
  · show inUse (t.calls ++ _) = _
    rw [inUse_concat, h.inUse_eq]
    exact Sound.erase_origin h.separate ha
  · refine ⟨a.origin, ?_, rfl⟩
    show a.origin ∈ inUse t.calls
    rw [h.inUse_eq]
    exact List.mem_map_of_mem ha

/-- A new block, and the memory that is cut out of it. -/
theorem Sound.grant (h : t.Sound) {a : Lease} (hplaced : a.Placed)
    (hfresh : Fresh (inUse t.calls) a.origin) (state : π) : (t.grant state a).Sound := by
  have hunused : ∀ b ∈ t.leases, b.Separate a := by
    intro b hb
    have hmem : b.origin ∈ inUse t.calls := h.inUse_eq ▸ List.mem_map_of_mem hb
    exact hfresh.unused b.origin hmem
  have hall : ∀ {P : Lease → Prop}, (∀ b ∈ t.leases, P b) → P a → ∀ b ∈ t.leases ++ [a], P b := by
    intro P hold hnew b hb
    rcases List.mem_append.mp hb with hb | hb
    · exact hold b hb
    · rwa [List.mem_singleton.mp hb]
  refine ⟨?_, hall h.placed hplaced, hall h.pos hfresh.pos, ?_, hall (fun b hb => ?_) ?_,
    always_concat.mpr ⟨h.orderly, trivial⟩⟩
  · show inUse (t.calls ++ _) = _
    rw [inUse_concat, blocksAfter, h.inUse_eq, Tenancy.grant, List.map_append,
      List.map_singleton]
  · refine List.pairwise_append.mpr ⟨h.separate, List.pairwise_singleton _ _, ?_⟩
    intro b hb c hc
    rw [List.mem_singleton.mp hc]
    exact hunused b hb
  · rw [← h.noted b hb]
    exact hplaced.originOf_noteIn_of_apart (h.placed b hb) (hunused b hb).2.symm _
  · exact hplaced.originOf_noteIn hfresh.addressable _

/-- The journal before a call is honest if it is with the call. -/
theorem granted_of_allocate {size align : Nat}
    (h : Always Granted [] (t.allocate p size align).calls) : Always Granted [] t.calls := by
  obtain hnone | ⟨state, n, hrefused⟩ | ⟨state, start, hgrant⟩ := allocate_cases p size align t
  · rwa [hnone] at h
  · rw [hrefused] at h
    exact (always_concat.mp h).1
  · rw [hgrant] at h
    exact (always_concat.mp h).1

theorem Sound.allocate (h : t.Sound) {size k : Nat}
    (hgranted : Always Granted [] (t.allocate p size (2 ^ k)).calls) :
    (t.allocate p size (2 ^ k)).Sound := by
  obtain hnone | ⟨state, n, hrefused⟩ | ⟨state, start, hgrant⟩ := allocate_cases p size (2 ^ k) t
  · rwa [hnone]
  · rw [hrefused]
    refine ⟨?_, h.placed, h.pos, h.separate, h.noted, always_concat.mpr ⟨h.orderly, trivial⟩⟩
    show inUse (t.calls ++ _) = _
    rw [inUse_concat]
    exact h.inUse_eq
  · rw [hgrant] at hgranted ⊢
    have hfresh : Fresh (inUse t.calls) (Lease.cut size (2 ^ k) start).origin :=
      (always_concat.mp hgranted).2
    refine h.grant (Lease.placed_cut size k ?_) hfresh state
    have haligned := hfresh.aligned
    rwa [Lease.origin_cut] at haligned

/-- Whatever is done, everything stays where it belongs. -/
theorem Reached.sound (h : Reached p t) (hgranted : Always Granted [] t.calls) : t.Sound := by
  induction h with
  | start state memory => exact sound_start state memory
  | allocate size k _ ih => exact (ih (granted_of_allocate hgranted)).allocate hgranted
  | release _ ha ih =>
      obtain ⟨state, hrelease⟩ := release_eq p _ _
      rw [hrelease] at hgranted
      exact (ih (always_concat.mp hgranted).1).release ha
  | write _ ha hwithin ih => exact (ih hgranted).write_data ha hwithin
  | elsewhere _ hapart ih => exact (ih hgranted).write_elsewhere hapart
  | disturb state _ ih => exact (ih hgranted).disturb state

/-- **Every block goes back to the pool, once and under its own address**,
whatever is taken and given back in whatever order, and whatever is written to
memory that has been taken or is in no block.  As long as the pool hands out
aligned blocks with addresses of their own, memory that has been taken has an
address other than 0 at a multiple of its alignment and lies in the block that
was obtained for it; with a strict alignment so do the 8 bytes below it, which
are in nobody's memory.  Giving memory back gives the block back that was
obtained for it.  The blocks in use are those of the memory that has been taken,
and nothing is given back that is not in use.  The allocator does the same when
nobody keeps a journal. -/
theorem served (h : Reached p t) (hgranted : Always Granted [] t.calls) :
    (∀ a ∈ t.leases, a.address ≠ 0 ∧ a.align ∣ a.address ∧ a.data.Within a.origin ∧
      (poolAlignment < a.align → a.slot.Within a.origin ∧ a.slot.stop = a.address ∧
        ∀ b ∈ t.leases, a.slot.Apart b.data)) ∧
    (∀ a ∈ t.leases, (t.release p a).calls = t.calls ++ [.release a.origin.start]) ∧
    inUse t.calls = t.leases.map Lease.origin ∧
    Always Owed [] t.calls ∧
    (∀ size align, Heap.allocate (some p) size align t.heap.bare =
      ((Heap.allocate (some p.audited) size align t.heap).1,
        (Heap.allocate (some p.audited) size align t.heap).2.bare)) ∧
    (∀ block align, Heap.release (some p) block align t.heap.bare =
      ((), (Heap.release (some p.audited) block align t.heap).2.bare)) := by
  have hsound := h.sound hgranted
  refine ⟨fun a ha => ?_, fun a ha => ?_, hsound.inUse_eq, hsound.orderly,
    fun size align => bare_allocate p size align t.heap,
    fun block align => bare_release p block align t.heap⟩
  · have hplaced := hsound.placed a ha
    refine ⟨hsound.address_ne_zero ha, hplaced.aligned, hplaced.data_within, fun hstrict => ?_⟩
    exact ⟨hplaced.slot_within hstrict, hplaced.slot_stop hstrict,
      fun b hb => hsound.slot_apart ha hb hstrict⟩
  · obtain ⟨state, hrelease⟩ := release_eq p a t
    rw [hrelease, hsound.noted a ha]
    rfl

/-- A heap on which 100 bytes have been taken at a multiple of 64 and 5 at one of
4, and the 100 bytes have been cleared. -/
def mixed : Tenancy AscendingPool :=
  let empty : Tenancy AscendingPool :=
    ⟨⟨⟨{ next := AscendingPool.start }, []⟩, Memory.filled 0xCC⟩, []⟩
  let taken := (empty.allocate AscendingPool.pool 100 (2 ^ 6)).allocate AscendingPool.pool 5 (2 ^ 2)
  taken.write 0x190000040 (Bytes.zeros 100)

/-- The first lease on it: its block starts 64 bytes before it. -/
def large : Lease := ⟨0x190000040, 100, 64, ⟨0x190000000, 164⟩⟩

/-- The 100 bytes go back under the address of their block. -/
theorem served_mixed :
    large ∈ mixed.leases ∧ Reached AscendingPool.pool mixed ∧ Always Granted [] mixed.calls ∧
    (mixed.release AscendingPool.pool large).calls =
      mixed.calls ++ [.release 0x190000000] := by
  have hleases : mixed.leases = [large, ⟨0x1900000A8, 5, 4, ⟨0x1900000A8, 5⟩⟩] := rfl
  have hcalls : mixed.calls = [.allocate loaderData 164 (some 0x190000000),
      .allocate loaderData 5 (some 0x1900000A8)] := rfl
  have hmem : large ∈ mixed.leases := hleases ▸ List.mem_cons_self
  have hreached : Reached AscendingPool.pool mixed := by
    refine .write (a := large) (.allocate 5 2 (.allocate 100 6 (.start _ _))) hmem ?_
    exact ⟨Nat.le_refl _, by rw [Bytes.size_zeros]; exact Nat.le_refl _⟩
  have hgranted : Always Granted [] mixed.calls := by
    rw [hcalls]
    refine ⟨⟨by decide, by decide, by decide, by simp⟩,
      ⟨by decide, by decide, by decide, ?_⟩, trivial⟩
    intro f hf
    rw [List.mem_singleton.mp hf]
    exact ⟨by decide, Extent.apart_of_stop_le (by decide)⟩
  exact ⟨hmem, hreached, hgranted, (served hreached hgranted).2.1 large hmem⟩

end Tenancy

end Heap

end EfiLoader
