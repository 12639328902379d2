import EfiLoader.Hash.Xxh32
import EfiLoader.Proofs.Bytes

/-!
# EfiLoader.Proofs.Hash.Xxh32

Hashing in pieces.  However bytes are cut into pieces, their hash is the hash
of the whole:

* `Hasher.write_append` — two pieces are taken in like one;
* `Hasher.write_empty` — nothing need be taken in.
-/

namespace EfiLoader.Hash.Xxh32

/-! ## stripes -/

theorem stripe_append_left {a : ByteArray} (b : ByteArray) {i : Nat} (l : Lanes)
    (h : i + 16 ≤ a.size) : l.stripe (a ++ b) i = l.stripe a i := by
  have hword : ∀ k, k ≤ 12 → word (a ++ b) (i + k) = word a (i + k) := by
    intro k hk
    rw [word, word, Bytes.leNat_append_left (by omega)]
  have hfirst : word (a ++ b) i = word a i := hword 0 (by omega)
  rw [Lanes.stripe, Lanes.stripe, hfirst, hword 4 (by omega), hword 8 (by omega),
    hword 12 (by omega)]

theorem stripe_drop (data : ByteArray) (k i : Nat) (l : Lanes) :
    l.stripe (Bytes.drop data k) i = l.stripe data (k + i) := by
  have hword : ∀ j, word (Bytes.drop data k) j = word data (k + j) := by
    intro j
    rw [word, word, Bytes.leNat_drop]
  simp only [Lanes.stripe, hword, Nat.add_assoc]

theorem absorb_append_left {a : ByteArray} (b : ByteArray) {n i : Nat} (l : Lanes)
    (h : i + 16 * n ≤ a.size) : l.absorb (a ++ b) n i = l.absorb a n i := by
  have hstripe : (fun k (_ : k < n) (l : Lanes) => l.stripe (a ++ b) (i + 16 * k)) =
      fun k _ l => l.stripe a (i + 16 * k) := by
    funext k hk l
    exact stripe_append_left b l (by omega)
  rw [Lanes.absorb, Lanes.absorb, hstripe]

theorem absorb_drop (data : ByteArray) (k n : Nat) (l : Lanes) :
    l.absorb (Bytes.drop data k) n 0 = l.absorb data n k := by
  simp only [Lanes.absorb, stripe_drop, Nat.zero_add]

theorem absorb_zero (data : ByteArray) (i : Nat) (l : Lanes) : l.absorb data 0 i = l :=
  Nat.fold_zero _ _

theorem absorb_add (data : ByteArray) (m n : Nat) (l : Lanes) :
    l.absorb data (m + n) 0 = (l.absorb data m 0).absorb data n (16 * m) := by
  simp only [Lanes.absorb, Nat.fold_add, Nat.mul_add, Nat.zero_add]

/-! ## pieces -/

/-- Two pieces are taken in like one. -/
theorem Hasher.write_append (h : Hasher) (a b : ByteArray) :
    (h.write a).write b = h.write (a ++ b) := by
  -- `first` are the bytes at hand with the first piece, `n` the stripes in them
  generalize hfirst : h.pending ++ a = first
  generalize hn : first.size / 16 = n
  generalize hm : (Bytes.drop (first ++ b) (n * 16)).size / 16 = m
  have hwhole : h.pending ++ (a ++ b) = first ++ b := by
    rw [← ByteArray.append_assoc, hfirst]
  have hdrop : Bytes.drop first (n * 16) ++ b = Bytes.drop (first ++ b) (n * 16) :=
    (Bytes.drop_append_left b (by omega)).symm
  have hstripes : (first ++ b).size / 16 = n + m := by
    rw [← hm, Bytes.size_drop, ByteArray.size_append]
    omega
  have hlanes : ((h.lanes.absorb first n 0).absorb (Bytes.drop (first ++ b) (n * 16)) m 0) =
      h.lanes.absorb (first ++ b) (n + m) 0 := by
    rw [absorb_drop, absorb_add, absorb_append_left b h.lanes (by omega), Nat.mul_comm n]
  simp only [Hasher.write, hfirst, hn, hwhole, hdrop, hm, hlanes, Bytes.drop_drop]
  rw [hstripes, Nat.add_mul, ByteArray.size_append, Nat.add_assoc]

/-- Nothing need be taken in. -/
theorem Hasher.write_empty : Hasher.write {} ByteArray.empty = {} := by
  have hbytes : ({} : Hasher).pending ++ ByteArray.empty = ByteArray.empty :=
    ByteArray.append_empty
  simp only [Hasher.write, hbytes, ByteArray.size_empty, Nat.zero_div, absorb_zero,
    Nat.zero_mul, Bytes.drop_zero, Nat.add_zero]

end EfiLoader.Hash.Xxh32
