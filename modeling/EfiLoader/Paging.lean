/-!
# EfiLoader.Paging

Pages of memory, the unit in which the firmware hands memory out.
-/

namespace EfiLoader

/-- Bytes of a page. -/
def pageSize : Nat := 4096

/-- The first number that is no address. -/
def addressLimit : Nat := 0x10000000000000000

/-- The number of pages that hold `size` bytes. -/
def pagesHolding (size : Nat) : Nat := (size + (pageSize - 1)) / pageSize

theorem le_pagesHolding_mul (size : Nat) : size ≤ pagesHolding size * pageSize := by
  simp only [pagesHolding, pageSize]
  omega

end EfiLoader
