import EfiLoader.Proofs.Bench.Services
import EfiLoader.Proofs.Loader.Ends
import EfiLoader.Proofs.Loader.Pages

/-!
# EfiLoader.Proofs.Loader.Allocation

Every request for aligned memory has a known end, whatever the alignment is:

* `Firmware.Accounts` — firmware that keeps account of its pages;
* `PageBuffer.ends_allocate` — an equation for the ways in which a request ends,
  of which one has to give pages back;
* `PageBuffer.allocate_settles` — where the memory is if there is any, and that
  no pages are left behind if there is none.
-/

namespace EfiLoader

open Log

variable {φ : Type} {fw : Firmware φ} {s : Machine φ}

/-! ## firmware that keeps account -/

/-- Firmware that shows in its state which pages are in use, by their first
address and their number: those it hands out are, and those it gets back are not
any more. -/
structure Firmware.Accounts (fw : Firmware φ) (inUse : φ → List (Nat × Nat)) : Prop where
  handed {f g : φ} {memoryType : UInt32} {pages address : Nat} :
    fw.allocatePages memoryType pages f = (.ok address, g) →
    (inUse g).Perm ((address, pages) :: inUse f)
  returned {f : φ} {address pages : Nat} : (address, pages) ∈ inUse f →
    (inUse (fw.freePages address pages f).2).Perm ((inUse f).erase (address, pages))

/-- Pages that are given back at once have not been lost. -/
theorem Firmware.Accounts.perm_of_returned {inUse : φ → List (Nat × Nat)}
    (h : fw.Accounts inUse) {f g : φ} {memoryType : UInt32} {pages address : Nat}
    (hallocate : fw.allocatePages memoryType pages f = (.ok address, g)) :
    (inUse (fw.freePages address pages g).2).Perm (inUse f) := by
  have hhanded := h.handed hallocate
  have hmem : (address, pages) ∈ inUse g := hhanded.mem_iff.mpr List.mem_cons_self
  have herased := hhanded.erase (address, pages)
  rw [List.erase_cons_head] at herased
  exact (h.returned hmem).trans herased

/-- The bench keeps account of its pages. -/
theorem Bench.accounts_firmware (e : Equipment) : (firmware e).Accounts (·.pages.inUse) where
  handed := by
    intro b b' memoryType pages address hallocate
    change allocatePages pages b = _ at hallocate
    obtain ⟨status, hrun⟩ | ⟨found, -, -, hrun⟩ := allocatePages_cases b memoryType pages
    · rw [hrun] at hallocate
      cases hallocate
    · rw [hrun] at hallocate
      cases hallocate
      exact List.perm_append_singleton _ _
  returned := by
    intro b address pages hmem
    show (freePages address pages b).2.pages.inUse.Perm _
    rw [freePages_of_mem hmem]

/-- The bench with all its pages in one place, whether they have addresses there
or not. -/
def Bench.placing (address : Nat) : Firmware Bench :=
  { firmware {} with
    allocatePages := fun _ n b =>
      (.ok address, { b with pages := b.pages.allocateAt address n }) }

theorem Bench.accounts_placing (address : Nat) : (placing address).Accounts (·.pages.inUse) where
  handed := by
    intro b b' memoryType pages found hallocate
    cases hallocate
    exact List.perm_append_singleton _ _
  returned := (accounts_firmware {}).returned

namespace PageBuffer

/-! ## how requests end -/

/-- Pages are given back with one call, whatever the firmware says to it. -/
theorem ends_release (fw : Firmware φ) (b : PageBuffer) (s : Machine φ) :
    Loader.ends (release fw b) s = ((),
      { s with
        firmware := (fw.freePages b.allocation.address b.allocation.pages s.firmware).2 }) := by
  unfold release
  rw [Loader.ends_bind, Loader.ends_call]
  split
  · rfl
  · rfl

theorem ends_carve (fw : Firmware φ) (a : PageAllocation) (size alignment : Nat) (s : Machine φ) :
    Attempt.ends (carve fw a size alignment) s =
      match alignedBase? a.address alignment with
      | none => (.error Status.outOfResources,
          { s with firmware := (fw.freePages a.address a.pages s.firmware).2 })
      | some base => (.ok ⟨a, base, size⟩,
          { s with shared := { s.shared with memory := s.shared.memory.fill base size 0 } }) := by
  unfold carve
  cases alignedBase? a.address alignment with
  | none =>
    dsimp only
    rw [Attempt.ends_bind, Attempt.ends_lift, ends_release]
    rfl
  | some base => rfl

theorem ends_allocate (fw : Firmware φ) (size alignment : Nat) (memoryType : UInt32)
    (s : Machine φ) :
    Attempt.ends (allocate fw size alignment memoryType) s =
      if size = 0 ∨ alignment = 0 then (.error Status.invalidParameter, s)
      else match pagesNeeded? size alignment with
        | none => (.error Status.outOfResources, s)
        | some pages =>
          match fw.allocatePages memoryType pages s.firmware with
          | (.error status, g) => (.error status, { s with firmware := g })
          | (.ok address, g) =>
            Attempt.ends (carve fw ⟨address, pages, memoryType⟩ size alignment)
              { s with firmware := g } := by
  unfold allocate
  by_cases hrequest : size = 0 ∨ alignment = 0
  · rw [if_pos hrequest, if_pos hrequest, Attempt.ends_bind]
    rfl
  rw [if_neg hrequest, if_neg hrequest]
  cases pagesNeeded? size alignment with
  | none => rfl
  | some pages =>
    dsimp only
    rw [Attempt.ends_bind, Attempt.ends_noting, Attempt.ends_ofLoader, Loader.ends_call]
    rcases fw.allocatePages memoryType pages s.firmware with ⟨status | address, g⟩
    · rfl
    · rfl

/-! ## the theorem -/

/-- The memory that was asked for, in the pages `a`: it begins as low as it can,
and all of it is there. -/
structure Meets (b : PageBuffer) (a : PageAllocation) (size alignment : Nat) : Prop where
  allocation : b.allocation = a
  size_eq : b.size = size
  base : IsLeast (candidates a.address alignment) b.base
  last : b.base + size ≤ a.address + a.pages * pageSize
  size_le_available : size ≤ b.available

/-- A request for which proper pages are found gets its memory. -/
theorem meets_of_proper (fw : Firmware φ) {a : PageAllocation} {size alignment : Nat}
    (ha : a.Proper) (hsize : 0 < size) (hpos : 0 < alignment)
    (hpages : pagesNeeded? size alignment = some a.pages) (s : Machine φ) :
    ∃ b, Attempt.ends (carve fw a size alignment) s = (.ok b,
        { s with shared := { s.shared with memory := s.shared.memory.fill b.base size 0 } }) ∧
      b.Meets a size alignment := by
  obtain ⟨base, hbase⟩ := exists_alignedBase? ha hsize hpos hpages
  obtain ⟨hleast, -⟩ := (alignedBase?_eq_some_iff hpos).mp hbase
  have hend := end_le_of_isLeast ha hpos hpages hleast
  refine ⟨⟨a, base, size⟩, ?_, ?_⟩
  · rw [ends_carve, hbase]
  · exact {
      allocation := rfl
      size_eq := rfl
      base := hleast
      last := hend
      size_le_available := by
        show size ≤ a.address + a.pages * pageSize - base
        omega }

/-- **Aligned memory**: a request for some bytes at a multiple of any alignment
fails before it asks for pages if they cannot be counted.  Otherwise it asks for
as few as can hold the bytes and what is to spare.  In proper pages it always
gets its memory, which begins as low as it can, lies in the pages and is zero,
and no other byte has changed.  Pages in which no multiple of the alignment has an
address are given back with one call, so that none are lost by a firmware that
keeps account of them. -/
theorem allocate_settles {size alignment : Nat} (hsize : 0 < size) (hpos : 0 < alignment)
    (fw : Firmware φ) (memoryType : UInt32) (s : Machine φ) :
    (addressLimit ≤ size + slack alignment →
      Attempt.ends (allocate fw size alignment memoryType) s =
        (.error Status.outOfResources, s)) ∧
    (size + slack alignment < addressLimit →
      ∃ pages, IsLeast {n | size + slack alignment ≤ n * pageSize} pages ∧
        (∀ status g, fw.allocatePages memoryType pages s.firmware = (.error status, g) →
          Attempt.ends (allocate fw size alignment memoryType) s =
            (.error status, { s with firmware := g })) ∧
        ∀ raw g, fw.allocatePages memoryType pages s.firmware = (.ok raw, g) →
          (pageSize ∣ raw → raw + pages * pageSize < addressLimit →
            ∃ b memory, Attempt.ends (allocate fw size alignment memoryType) s =
                (.ok b, ⟨g, { s.shared with memory }⟩) ∧
              b.Meets ⟨raw, pages, memoryType⟩ size alignment ∧
              ∀ i, memory.byteAt i =
                if b.base ≤ i ∧ i < b.base + size then 0 else s.shared.memory.byteAt i) ∧
          ((∀ m ∈ candidates raw alignment, addressLimit ≤ m) →
            Attempt.ends (allocate fw size alignment memoryType) s =
                (.error Status.outOfResources,
                  { s with firmware := (fw.freePages raw pages g).2 }) ∧
              ∀ inUse, fw.Accounts inUse →
                (inUse (fw.freePages raw pages g).2).Perm (inUse s.firmware))) := by
  have hrequest : ¬(size = 0 ∨ alignment = 0) := by omega
  rw [ends_allocate, if_neg hrequest]
  constructor
  · intro hlimit
    have hnone : pagesNeeded? size alignment = none := if_neg (Nat.not_lt.mpr hlimit)
    rw [hnone]
  intro hlimit
  have hpages : pagesNeeded? size alignment = some (pagesHolding (size + slack alignment)) :=
    if_pos hlimit
  refine ⟨_, isLeast_pagesHolding _, ?_, ?_⟩
  · intro status g hrefused
    rw [hpages]
    dsimp only
    rw [hrefused]
  intro raw g hallocate
  rw [hpages]
  dsimp only
  rw [hallocate]
  dsimp only
  constructor
  · intro hpage hend
    have ha : PageAllocation.Proper ⟨raw, pagesHolding (size + slack alignment), memoryType⟩ :=
      ⟨hpage, Nat.le_of_lt hend⟩
    obtain ⟨b, hcarve, hmeets⟩ := meets_of_proper fw ha hsize hpos hpages ⟨g, s.shared⟩
    exact ⟨b, _, hcarve, hmeets, fun _ => rfl⟩
  · intro hbeyond
    have hnone := (alignedBase?_eq_none_iff hpos).mpr hbeyond
    refine ⟨?_, fun inUse hfw => hfw.perm_of_returned hallocate⟩
    rw [ends_carve, hnone]

/-- A bench in memory that has been used. -/
def usedBench : Machine Bench := ⟨Bench.fresh {}, { memory := .filled 0xAA }⟩

/-- An alignment of three pages: with more bytes than can be counted, in pages
that begin a page above a multiple, and in pages at the end of all addresses. -/
theorem allocate_settles_three_pages :
    Attempt.ends (allocate (Bench.placing 0x100000000) 0xFFFFFFFFFFFFFFFF 0x3000 loaderCode)
        usedBench = (.error Status.outOfResources, usedBench) ∧
      (∃ b s', Attempt.ends (allocate (Bench.placing 0x100000000) 0x1800 0x3000 loaderCode)
          usedBench = (.ok b, s') ∧
        b = ⟨⟨0x100000000, 5, loaderCode⟩, 0x100002000, 0x1800⟩ ∧
        s'.firmware.pages.inUse = [(0x100000000, 5)] ∧
        s'.shared.memory.byteAt 0x1000037FF = 0 ∧
        s'.shared.memory.byteAt 0x100003800 = 0xAA) ∧
      ∃ s', Attempt.ends (allocate (Bench.placing 0xFFFFFFFFFFFFFFFF) 0x1800 0x3000 loaderCode)
          usedBench = (.error Status.outOfResources, s') ∧
        s'.firmware.pages.inUse = [] := by
  have hsize : 0 < 0x1800 := by decide
  have hpos : 0 < 0x3000 := by decide
  have hcount : pagesHolding (0x1800 + slack 0x3000) = 5 := by decide
  refine ⟨?_, ?_, ?_⟩
  · exact (allocate_settles (by decide) hpos _ loaderCode usedBench).1 (by decide)
  · obtain ⟨pages, hleast, -, hfound⟩ :=
      (allocate_settles hsize hpos (Bench.placing 0x100000000) loaderCode usedBench).2 (by decide)
    obtain rfl : pages = 5 := (hleast.unique (isLeast_pagesHolding _)).trans hcount
    obtain ⟨hproper, -⟩ := hfound 0x100000000 _ rfl
    obtain ⟨b, memory, hends, hmeets, hbytes⟩ := hproper ⟨0x100000, rfl⟩ (by decide)
    have hbase : b.base = 0x100002000 := hmeets.base.unique (isLeast_roundUp hpos _)
    refine ⟨b, _, hends, ?_, rfl, ?_, ?_⟩
    · obtain ⟨a, base, size⟩ := b
      obtain ⟨rfl, rfl, -, -, -⟩ := hmeets
      rw [← hbase]
    · rw [hbytes, hbase]
      rfl
    · rw [hbytes, hbase]
      rfl
  · obtain ⟨pages, hleast, -, hfound⟩ :=
      (allocate_settles hsize hpos (Bench.placing 0xFFFFFFFFFFFFFFFF) loaderCode usedBench).2
        (by decide)
    obtain ⟨-, hbeyond⟩ := hfound 0xFFFFFFFFFFFFFFFF _ rfl
    have hnone : alignedBase? 0xFFFFFFFFFFFFFFFF 0x3000 = none := by decide
    obtain ⟨hends, hperm⟩ := hbeyond ((alignedBase?_eq_none_iff hpos).mp hnone)
    exact ⟨_, hends, (hperm _ (Bench.accounts_placing _)).eq_nil⟩

end PageBuffer

end EfiLoader
