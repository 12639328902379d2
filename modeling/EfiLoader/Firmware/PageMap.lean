import EfiLoader.Paging

/-!
# EfiLoader.Firmware.PageMap

The pages of a firmware, which go back as they were handed out.  Handed out
upwards, no page is handed out twice; whoever finds pages in another way has
to see to that.
-/

namespace EfiLoader

/-- Pages in use, and the address of the next ones. -/
structure PageMap where
  /-- Where pages in use begin, and their number. -/
  inUse : List (Nat × Nat) := []
  next : Nat

namespace PageMap

/-- Pages in use. -/
def count (m : PageMap) : Nat := m.inUse.foldr (fun p n => p.2 + n) 0

/-- The map with the pages from `address` on in use as well. -/
def allocateAt (m : PageMap) (address pages : Nat) : PageMap :=
  ⟨m.inUse ++ [(address, pages)], max m.next (address + pages * pageSize)⟩

/-- The next address, if there is room for so many pages: at least one, at
most `most`, and none beyond `limit`. -/
def upward? (m : PageMap) (pages most limit : Nat) : Option Nat :=
  if pages = 0 ∨ most < pages ∨ limit < m.next + pages * pageSize then none else some m.next

/-- New pages at the next address, if there is room for them. -/
def allocate? (m : PageMap) (pages most limit : Nat) : Option (Nat × PageMap) :=
  (m.upward? pages most limit).map fun address => (address, m.allocateAt address pages)

/-- The map without pages that were handed out together. -/
def free? (m : PageMap) (address pages : Nat) : Option PageMap :=
  if m.inUse.contains (address, pages) then
    some { m with inUse := m.inUse.erase (address, pages) }
  else
    none

theorem eq_of_upward? {m : PageMap} {pages most limit address : Nat}
    (h : m.upward? pages most limit = some address) : address = m.next := by
  unfold upward? at h
  split at h
  · cases h
  · cases h
    rfl

end PageMap

end EfiLoader
