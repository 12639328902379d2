import EfiLoader.Proofs.Bytes
import Mathlib.Algebra.GroupWithZero.Nat

/-!
# EfiLoader.Proofs.Bytes.Stands

Where bytes stand in an array that is put together piece by piece.

* `Stands bs off part` — the bytes of `bs` from `off` on are those of `part`;
* `stands_concat` — a piece of a concatenation stands behind the pieces before it;
* `overwriteAll` — pieces that are written over an array one after the other;
* `stands_overwriteAll` — pieces that are apart all stand where they are written.
-/

namespace EfiLoader.Bytes

/-! ## places -/

/-- The bytes of `part` stand at `off`. -/
structure Stands (bs : ByteArray) (off : Nat) (part : ByteArray) : Prop where
  room : off + part.size ≤ bs.size
  byte_eq : ∀ i < part.size, byte bs (off + i) = byte part i

variable {bs part p : ByteArray} {off off' : Nat}

theorem Stands.extract (h : Stands bs off part) : bs.extract off (off + part.size) = part := by
  have hsize : (bs.extract off (off + part.size)).size = part.size := by
    have hroom := h.room
    rw [ByteArray.size_extract]
    omega
  refine ext_byte hsize fun i hi => ?_
  rw [hsize] at hi
  rw [byte_extract (by omega), h.byte_eq i hi]

/-- So does a part of what stands there. -/
theorem Stands.trans (h : Stands bs off part) (hp : Stands part off' p) :
    Stands bs (off + off') p := by
  have hroom := h.room
  have hroom' := hp.room
  refine ⟨by omega, fun i hi => ?_⟩
  rw [Nat.add_assoc, h.byte_eq _ (by omega), hp.byte_eq i hi]

theorem stands_append_left (a b : ByteArray) : Stands (a ++ b) 0 a := by
  refine ⟨by rw [ByteArray.size_append]; omega, fun i hi => ?_⟩
  rw [Nat.zero_add, byte_append_left hi]

theorem stands_append_right (a b : ByteArray) : Stands (a ++ b) a.size b :=
  ⟨Nat.le_of_eq ByteArray.size_append.symm, fun i _ => byte_append_right a b i⟩

/-- A number that stands somewhere is read there, as far as it has been written. -/
theorem Stands.leNat_eq {len n : Nat} (h : Stands bs off (le len n)) :
    leNat bs off len = n % 256 ^ len := by
  have hextract := h.extract
  rw [size_le] at hextract
  have hread : leNat (bs.extract off (off + len)) 0 len = leNat bs (off + 0) len :=
    leNat_extract (by omega)
  have hpos : 0 < 256 ^ len := Nat.pow_pos (by decide)
  rw [hextract, Nat.add_zero, ← le_mod, leNat_le (Nat.mod_lt n hpos)] at hread
  exact hread.symm

theorem Stands.leNat_ofU32 {n : UInt32} (h : Stands bs off (ofU32 n)) :
    leNat bs off 4 = n.toNat :=
  Stands.leNat_eq h |>.trans (Nat.mod_eq_of_lt n.toNat_lt)

/-! ## concatenations -/

theorem foldl_append (a : ByteArray) (parts : List ByteArray) :
    parts.foldl (· ++ ·) a = a ++ concat parts := by
  induction parts generalizing a with
  | nil => exact ByteArray.append_empty.symm
  | cons p rest ih =>
    rw [concat, List.foldl_cons, List.foldl_cons, ih, ih, ByteArray.empty_append,
      ByteArray.append_assoc]

theorem concat_cons (p : ByteArray) (parts : List ByteArray) :
    concat (p :: parts) = p ++ concat parts := by
  rw [concat, List.foldl_cons, foldl_append, ByteArray.empty_append]

theorem size_concat (parts : List ByteArray) :
    (concat parts).size = (parts.map ByteArray.size).sum := by
  induction parts with
  | nil => rfl
  | cons p rest ih => rw [concat_cons, ByteArray.size_append, ih, List.map_cons, List.sum_cons]

/-- Numbers that are written one after another take the sum of their widths. -/
theorem size_flatMap_leList (fields : List (Nat × Nat)) :
    (ByteArray.mk ⟨fields.flatMap fun (width, n) => leList width n⟩).size =
      (fields.map Prod.fst).sum := by
  change (fields.flatMap fun (width, n) => leList width n).length = _
  rw [List.length_flatMap]
  simp only [length_leList]

/-- A piece stands behind the pieces before it. -/
theorem stands_concat {parts : List ByteArray} {i : Nat} (h : parts[i]? = some part) :
    Stands (concat parts) ((parts.take i).map ByteArray.size).sum part := by
  induction parts generalizing i with
  | nil => cases h
  | cons p rest ih =>
    rw [concat_cons]
    cases i with
    | zero =>
      cases h
      exact stands_append_left _ _
    | succ i =>
      rw [List.take_succ_cons, List.map_cons, List.sum_cons]
      exact (stands_append_right p _).trans (ih h)

theorem size_concat_of_size {parts : List ByteArray} {n : Nat} (h : ∀ p ∈ parts, p.size = n) :
    (concat parts).size = parts.length * n := by
  rw [size_concat, List.map_congr_left h, List.map_const', List.sum_replicate_nat]

/-- Pieces of one size stand at the multiples of it. -/
theorem stands_concat_of_size {parts : List ByteArray} {n i : Nat} (h : ∀ p ∈ parts, p.size = n)
    (hp : parts[i]? = some part) : Stands (concat parts) (i * n) part := by
  have hi : i < parts.length := (List.getElem?_eq_some_iff.mp hp).1
  have hstands := stands_concat hp
  rwa [List.map_congr_left fun q hq => h q (List.mem_of_mem_take hq), List.map_const',
    List.sum_replicate_nat, List.length_take, Nat.min_eq_left (Nat.le_of_lt hi)] at hstands

/-! ## pieces that are written -/

theorem stands_overwrite (h : off + part.size ≤ bs.size) :
    Stands (overwrite bs off part) off part := by
  refine ⟨by rwa [size_overwrite], fun i hi => ?_⟩
  rw [byte_overwrite, if_pos (by omega), Nat.add_sub_cancel_left]

/-- What stands somewhere is left alone by what is written elsewhere. -/
theorem Stands.overwrite (h : Stands bs off part)
    (hapart : off + part.size ≤ off' ∨ off' + p.size ≤ off) :
    Stands (overwrite bs off' p) off part := by
  refine ⟨by rw [size_overwrite]; exact h.room, fun i hi => ?_⟩
  rw [byte_overwrite, if_neg (by omega), h.byte_eq i hi]

/-- Pieces, each with its place, written one after the other. -/
def overwriteAll (bs : ByteArray) (writes : List (Nat × ByteArray)) : ByteArray :=
  writes.foldl (fun bs w => Bytes.overwrite bs w.1 w.2) bs

/-- Two pieces have no byte in common. -/
def Apart (w w' : Nat × ByteArray) : Prop :=
  w.1 + w.2.size ≤ w'.1 ∨ w'.1 + w'.2.size ≤ w.1

variable {writes : List (Nat × ByteArray)}

@[simp] theorem size_overwriteAll (bs : ByteArray) (writes : List (Nat × ByteArray)) :
    (overwriteAll bs writes).size = bs.size := by
  induction writes generalizing bs with
  | nil => rfl
  | cons w rest ih => rw [overwriteAll, List.foldl_cons, ← overwriteAll, ih, size_overwrite]

/-- A byte that no piece covers stays as it was. -/
theorem byte_overwriteAll {i : Nat} (h : ∀ w ∈ writes, i < w.1 ∨ w.1 + w.2.size ≤ i) :
    byte (overwriteAll bs writes) i = byte bs i := by
  induction writes generalizing bs with
  | nil => rfl
  | cons w rest ih =>
    have hw := h w List.mem_cons_self
    rw [overwriteAll, List.foldl_cons, ← overwriteAll,
      ih fun w' hw' => h w' (List.mem_cons_of_mem w hw'), byte_overwrite, if_neg (by omega)]

/-- What stands apart from all pieces is left alone. -/
theorem Stands.overwriteAll (h : Stands bs off part) (hapart : ∀ w ∈ writes, Apart (off, part) w) :
    Stands (overwriteAll bs writes) off part := by
  refine ⟨by rw [size_overwriteAll]; exact h.room, fun i hi => ?_⟩
  have houtside : ∀ w ∈ writes, off + i < w.1 ∨ w.1 + w.2.size ≤ off + i := fun w hw => by
    have hw := hapart w hw
    simp only [Apart] at hw
    omega
  rw [byte_overwriteAll houtside, h.byte_eq i hi]

/-- **Pieces that are apart** all stand where they have been written. -/
theorem stands_overwriteAll (hapart : writes.Pairwise Apart) {w : Nat × ByteArray}
    (hw : w ∈ writes) (hroom : w.1 + w.2.size ≤ bs.size) :
    Stands (overwriteAll bs writes) w.1 w.2 := by
  induction writes generalizing bs with
  | nil => cases hw
  | cons first rest ih =>
    rw [List.pairwise_cons] at hapart
    rw [Bytes.overwriteAll, List.foldl_cons, ← Bytes.overwriteAll]
    cases hw with
    | head => exact (stands_overwrite hroom).overwriteAll hapart.1
    | tail _ hw => exact ih hapart.2 hw (by rwa [size_overwrite])

end EfiLoader.Bytes
