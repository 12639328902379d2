import EfiLoader.Paging
import EfiLoader.Proofs.Bytes

/-!
# EfiLoader.Proofs.Guarded

Steps that can stop a program: a sum that leaves 64 bits, a difference below
zero, a range that ends outside its buffer, a copy whose length is not the one
of its target.  A guarded step answers `none` where it would stop.  A function
put together from guarded steps alone, which is never `none`, runs without a
stop; that it is the function that runs is then an equation with `some`.
-/

namespace EfiLoader.Guarded

/-! ## numbers -/

/-- A sum, if it has 64 bits. -/
def add (a b : Nat) : Option Nat := if a + b < addressLimit then some (a + b) else none

/-- A product, if it has 64 bits. -/
def mul (a b : Nat) : Option Nat := if a * b < addressLimit then some (a * b) else none

/-- A difference, if there is one. -/
def sub (a b : Nat) : Option Nat := if b ≤ a then some (a - b) else none

/-- A remainder, if there is one. -/
def rem (a b : Nat) : Option Nat := if b = 0 then none else some (a % b)

theorem add_eq {a b : Nat} (h : a + b < 2 ^ 64) : add a b = some (a + b) := if_pos h

theorem mul_eq {a b : Nat} (h : a * b < 2 ^ 64) : mul a b = some (a * b) := if_pos h

theorem sub_eq {a b : Nat} (h : b ≤ a) : sub a b = some (a - b) := if_pos h

theorem rem_eq {a b : Nat} (h : b ≠ 0) : rem a b = some (a % b) := if_neg h

/-! ## ranges -/

/-- The bytes from `start` up to `stop`, if the buffer has them. -/
def slice (bs : ByteArray) (start stop : Nat) : Option ByteArray :=
  if start ≤ stop ∧ stop ≤ bs.size then some (bs.extract start stop) else none

/-- The bytes from `start` on, if the buffer reaches there. -/
def suffix (bs : ByteArray) (start : Nat) : Option ByteArray :=
  if start ≤ bs.size then some (Bytes.drop bs start) else none

/-- The buffer with `src` in the place of the bytes from `start` up to `stop`,
if it has them and `src` is as long. -/
def copy (bs : ByteArray) (start stop : Nat) (src : ByteArray) : Option ByteArray :=
  if start ≤ stop ∧ stop ≤ bs.size ∧ src.size = stop - start then
    some (Bytes.overwrite bs start src)
  else
    none

/-- The buffer with zeros from `start` up to `stop`, if it has these bytes. -/
def clear (bs : ByteArray) (start stop : Nat) : Option ByteArray :=
  copy bs start stop (Bytes.zeros (stop - start))

variable {bs src : ByteArray} {start stop : Nat}

theorem slice_eq (h : start ≤ stop) (hstop : stop ≤ bs.size) :
    slice bs start stop = some (bs.extract start stop) := if_pos ⟨h, hstop⟩

theorem suffix_eq (h : start ≤ bs.size) : suffix bs start = some (Bytes.drop bs start) := if_pos h

theorem copy_eq (h : start ≤ stop) (hstop : stop ≤ bs.size) (hsize : src.size = stop - start) :
    copy bs start stop src = some (Bytes.overwrite bs start src) := if_pos ⟨h, hstop, hsize⟩

theorem clear_eq (h : start ≤ stop) (hstop : stop ≤ bs.size) :
    clear bs start stop = some (Bytes.overwrite bs start (Bytes.zeros (stop - start))) :=
  copy_eq h hstop (Bytes.size_zeros _)

/-! ## stored numbers -/

variable {off len : Nat}

theorem le?_eq (h : off + len ≤ bs.size) : Bytes.le? bs off len = some (Bytes.leNat bs off len) :=
  if_pos h

/-- A number in a suffix is the one in the buffer. -/
theorem le?_drop_eq (h : start + off + len ≤ bs.size) :
    Bytes.le? (Bytes.drop bs start) off len = some (Bytes.leNat bs (start + off) len) := by
  rw [le?_eq, Bytes.leNat_drop]
  rw [Bytes.size_drop]
  omega

/-- So is a number in a slice. -/
theorem le?_extract_eq (h : start + off + len ≤ stop) (hstop : stop ≤ bs.size) :
    Bytes.le? (bs.extract start stop) off len = some (Bytes.leNat bs (start + off) len) := by
  rw [le?_eq, Bytes.leNat_extract h]
  rw [ByteArray.size_extract]
  omega

/-! ## functions of guarded steps -/

/-- A step that is possible is taken. -/
theorem step {o : Option α} {a : α} {k : α → Option β} {r : Option β} (h : o = some a)
    (hk : k a = r) : (o >>= k) = r := by
  rw [h]
  exact hk

/-- A check that is made in guarded steps and in a chain of checks. -/
theorem checked {c c' : Prop} [Decidable c] [Decidable c'] {e : ε} {g : Option (Except ε α)}
    {m : Except ε α} {f : β → Except ε α} (hc : c ↔ c') (h : ¬ c' → g = some m) :
    (if c then pure (.error e) else g) = some (if c' then (throw e : Except ε β) >>= f else m) := by
  by_cases hfail : c'
  · rw [if_pos (hc.mpr hfail), if_pos hfail]
    rfl
  · rw [if_neg (mt hc.mp hfail), if_neg hfail]
    exact h hfail

end EfiLoader.Guarded
