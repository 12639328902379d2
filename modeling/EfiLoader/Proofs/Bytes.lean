import EfiLoader.Bytes
import Mathlib.Algebra.Group.Nat.Defs

/-!
# EfiLoader.Proofs.Bytes

Byte arrays that are put together.  Bytes and little-endian numbers of a
concatenation are those of its parts:

* `leNat_append_left`, `leNat_append_right` — numbers on either side of the seam;
* `leNat_le` — a number that is written is read back;
* `le_leNat` — the bytes of a number that is read are those it is written with.
-/

namespace EfiLoader.Bytes

/-! ## single bytes -/

theorem byte_of_lt {bs : ByteArray} {i : Nat} (h : i < bs.size) : byte bs i = bs[i] := dif_pos h

theorem byte_of_le {bs : ByteArray} {i : Nat} (h : bs.size ≤ i) : byte bs i = 0 :=
  dif_neg (Nat.not_lt.mpr h)

/-- What holds of 256 numbers holds of all bytes. -/
theorem forall_byte {p : UInt8 → Prop} (h : ∀ n < 256, p (UInt8.ofNat n)) (b : UInt8) : p b := by
  have hb := h b.toNat b.toNat_lt
  rwa [UInt8.ofNat_toNat] at hb

theorem byte_append_left {a b : ByteArray} {i : Nat} (h : i < a.size) :
    byte (a ++ b) i = byte a i := by
  have hi : i < (a ++ b).size := by
    rw [ByteArray.size_append]
    omega
  rw [byte_of_lt hi, byte_of_lt h, ByteArray.getElem_append_left h]

theorem byte_append_right (a b : ByteArray) (i : Nat) : byte (a ++ b) (a.size + i) = byte b i := by
  by_cases h : i < b.size
  · have hi : a.size + i < (a ++ b).size := by
      rw [ByteArray.size_append]
      omega
    rw [byte_of_lt hi, byte_of_lt h, ByteArray.getElem_append_right (Nat.le_add_right _ _)]
    simp
  · rw [byte_of_le (Nat.not_lt.mp h), byte_of_le]
    rw [ByteArray.size_append]
    omega

theorem byte_extract {bs : ByteArray} {start stop i : Nat} (h : start + i < stop) :
    byte (bs.extract start stop) i = byte bs (start + i) := by
  by_cases hb : start + i < bs.size
  · have hi : i < (bs.extract start stop).size := by
      rw [ByteArray.size_extract]
      omega
    rw [byte_of_lt hb, byte_of_lt hi, ByteArray.getElem_extract]
  · rw [byte_of_le (Nat.not_lt.mp hb), byte_of_le]
    rw [ByteArray.size_extract]
    omega

theorem byte_zeros (n i : Nat) : byte (zeros n) i = 0 := by
  have hdata : (zeros n).data = Array.replicate n 0 := data_replicate n 0
  by_cases h : i < (zeros n).size
  · simp [byte_of_lt h, ByteArray.getElem_eq_getElem_data, hdata]
  · exact byte_of_le (Nat.not_lt.mp h)

theorem byte_singleton (b : UInt8) : byte [b].toByteArray 0 = b := rfl

/-- Arrays of one size are equal if their bytes are. -/
theorem ext_byte {a b : ByteArray} (hsize : a.size = b.size)
    (h : ∀ i < a.size, byte a i = byte b i) : a = b := by
  apply ByteArray.ext_getElem hsize
  intro i ha hb
  rw [← byte_of_lt ha, ← byte_of_lt hb]
  exact h i ha

/-- One byte is an array of that byte. -/
theorem toByteArray_byte {bs : ByteArray} (h : bs.size = 1) : [byte bs 0].toByteArray = bs := by
  refine ext_byte h.symm fun i hi => ?_
  have hzero : i = 0 := by
    rw [List.size_toByteArray, List.length_singleton] at hi
    omega
  rw [hzero, byte_singleton]

/-- Two bytes are an array of those. -/
theorem toByteArray_byte_byte {bs : ByteArray} (h : bs.size = 2) :
    [byte bs 0, byte bs 1].toByteArray = bs := by
  refine ext_byte h.symm fun i hi => ?_
  have hcases : i = 0 ∨ i = 1 := by
    rw [List.size_toByteArray] at hi
    simp only [List.length_cons, List.length_nil] at hi
    omega
  rcases hcases with rfl | rfl <;> rfl

/-! ## slices -/

@[simp] theorem drop_zero (bs : ByteArray) : drop bs 0 = bs := ByteArray.extract_zero_size

@[simp] theorem size_drop (bs : ByteArray) (n : Nat) : (drop bs n).size = bs.size - n := by
  rw [drop, ByteArray.size_extract, Nat.min_self]

theorem extract_min_size (bs : ByteArray) (i j : Nat) :
    bs.extract i (min j bs.size) = bs.extract i j := by
  have h : (bs.extract 0 bs.size).extract i j = bs.extract i j := by
    rw [ByteArray.extract_zero_size]
  rw [← h, ByteArray.extract_extract, Nat.zero_add, Nat.zero_add]

theorem extract_of_le {bs : ByteArray} {n : Nat} (h : bs.size ≤ n) : bs.extract 0 n = bs := by
  rw [← extract_min_size, Nat.min_eq_right h, ByteArray.extract_zero_size]

theorem extract_append_left {a : ByteArray} (b : ByteArray) {i j : Nat} (h : j ≤ a.size) :
    (a ++ b).extract i j = a.extract i j := by
  have hb : b.extract (i - a.size) (j - a.size) = ByteArray.empty := by
    rw [ByteArray.extract_eq_empty_iff]
    omega
  rw [ByteArray.extract_append, hb, ByteArray.append_empty]

theorem extract_append_size {a : ByteArray} (b : ByteArray) {n k : Nat} (h : n = a.size + k) :
    (a ++ b).extract 0 n = a ++ b.extract 0 k := by
  have ha : a.extract 0 (a.size + k) = a := extract_of_le (Nat.le_add_right _ _)
  rw [h, ByteArray.extract_append, ha, Nat.zero_sub, Nat.add_sub_cancel_left]

theorem extract_of_size_le {bs : ByteArray} {i : Nat} (j : Nat) (h : bs.size ≤ i) :
    bs.extract i j = ByteArray.empty := by
  rw [ByteArray.extract_eq_empty_iff]
  omega

theorem drop_append {a : ByteArray} (b : ByteArray) {n : Nat} (h : n = a.size) :
    drop (a ++ b) n = b := by
  rw [drop, ByteArray.extract_append_eq_right h ByteArray.size_append]

theorem drop_append_left {a : ByteArray} (b : ByteArray) {n : Nat} (h : n ≤ a.size) :
    drop (a ++ b) n = drop a n ++ b := by
  rw [drop, ByteArray.extract_append, ByteArray.size_append]
  have hb : b.extract (n - a.size) (a.size + b.size - a.size) = b := by
    rw [Nat.sub_eq_zero_of_le h, Nat.add_sub_cancel_left, ByteArray.extract_zero_size]
  have ha : a.extract n (a.size + b.size) = a.extract n a.size := by
    rw [← extract_min_size, Nat.min_eq_right (Nat.le_add_right _ _)]
  rw [ha, hb, drop]

/-- The bytes up to a place and those from there on make up the whole. -/
theorem extract_append_drop (bs : ByteArray) (n : Nat) : bs.extract 0 n ++ drop bs n = bs := by
  by_cases h : n ≤ bs.size
  · rw [drop, ByteArray.extract_append_extract, Nat.zero_min, Nat.max_eq_right h,
      ByteArray.extract_zero_size]
  · have hsize : n = max n bs.size := by omega
    have hempty : drop bs n = ByteArray.empty := by
      rw [drop, ByteArray.extract_eq_empty_iff]
      omega
    rw [hempty, ByteArray.append_empty, hsize, ByteArray.extract_zero_max_size]

theorem drop_drop (bs : ByteArray) (m n : Nat) : drop (drop bs m) n = drop bs (m + n) := by
  simp only [drop, ByteArray.extract_extract, ByteArray.size_extract]
  congr 1
  omega

theorem byte_drop (bs : ByteArray) (n i : Nat) : byte (drop bs n) i = byte bs (n + i) := by
  by_cases h : n + i < bs.size
  · exact byte_extract h
  · have hend : byte bs (n + i) = 0 := byte_of_le (Nat.not_lt.mp h)
    rw [hend, byte_of_le]
    rw [size_drop]
    omega

/-- A byte and the ones after it. -/
theorem drop_of_lt {bs : ByteArray} {i : Nat} (h : i < bs.size) :
    drop bs i = [byte bs i].toByteArray ++ drop bs (i + 1) := by
  have hfirst : bs.extract i (i + 1) = [byte bs i].toByteArray := by
    rw [ByteArray.extract_add_one (by omega), byte_of_lt h]
  rw [← hfirst]
  exact ByteArray.extract_eq_extract_append_extract (i + 1) (by omega) (by omega)

/-- Behind a first part of what has been dropped to is the second. -/
theorem drop_of_drop_eq {bs a rest : ByteArray} {i : Nat} (h : drop bs i = a ++ rest) :
    drop bs (i + a.size) = rest := by
  rw [← drop_drop, h, drop_append rest rfl]

theorem extract_drop (bs : ByteArray) (m i j : Nat) :
    (drop bs m).extract i j = bs.extract (m + i) (m + j) := by
  rw [drop, ByteArray.extract_extract, extract_min_size]

/-- The bytes that stand at a place are the slice there. -/
theorem extract_of_drop_eq {bs a rest : ByteArray} {i : Nat} (h : drop bs i = a ++ rest) :
    bs.extract i (i + a.size) = a := by
  have hfirst : (drop bs i).extract 0 a.size = a := by
    rw [h, extract_append_left rest (Nat.le_refl _), ByteArray.extract_zero_size]
  rwa [extract_drop, Nat.add_zero] at hfirst

/-- Some bytes and the ones after them. -/
theorem extract_append_extract_drop (bs : ByteArray) {m n : Nat} (h : m ≤ n) :
    bs.extract 0 m ++ (drop bs m).extract 0 (n - m) = bs.extract 0 n := by
  rw [extract_drop, Nat.add_zero, Nat.add_sub_cancel' h,
    ← ByteArray.extract_eq_extract_append_extract m (Nat.zero_le _) h]

/-- What has been written over an array follows what comes before it. -/
theorem extract_overwrite {bs src : ByteArray} {off k : Nat} (hk : k ≤ src.size)
    (hoff : off + k ≤ bs.size) :
    (overwrite bs off src).extract 0 (off + k) = bs.extract 0 off ++ src.extract 0 k := by
  have hfirst : (bs.extract 0 off).size = off := by
    rw [ByteArray.size_extract]
    omega
  have hlen : k ≤ min src.size (bs.size - off) := by omega
  have hwritten : (src.extract 0 (min src.size (bs.size - off))).size =
      min src.size (bs.size - off) := by
    rw [ByteArray.size_extract]
    omega
  rw [overwrite, if_pos (by omega), ByteArray.copySlice_eq_append, ByteArray.append_assoc,
    Nat.zero_add, extract_append_size (k := k) _ (by rw [hfirst]),
    extract_append_left _ (by omega), ByteArray.extract_extract, Nat.zero_add, Nat.zero_add,
    Nat.min_eq_left hlen]

/-- Bytes that are written over others stand between those before and after
them. -/
theorem overwrite_eq_append {bs src : ByteArray} {off : Nat} (h : off + src.size ≤ bs.size) :
    overwrite bs off src = bs.extract 0 off ++ src ++ drop bs (off + src.size) := by
  have hlen : min src.size (bs.size - off) = src.size := by omega
  rw [overwrite, if_pos (by omega), ByteArray.copySlice_eq_append, hlen, Nat.zero_add,
    ByteArray.extract_zero_size, Nat.sub_zero, ByteArray.size_data, ByteArray.size_data,
    Nat.min_self]
  rfl

/-- Writing over all bytes leaves only what is written. -/
theorem overwrite_zero {bs src : ByteArray} (h : src.size = bs.size) :
    overwrite bs 0 src = src := by
  have hend : drop bs src.size = ByteArray.empty := by
    rw [drop, ByteArray.extract_eq_empty_iff]
    omega
  rw [overwrite_eq_append (by omega), Nat.zero_add, hend, ByteArray.append_empty,
    ByteArray.extract_same, ByteArray.empty_append]

@[simp] theorem overwrite_empty (bs : ByteArray) (off : Nat) :
    overwrite bs off ByteArray.empty = bs := by
  by_cases h : off ≤ bs.size
  · rw [overwrite_eq_append (by simpa using h), ByteArray.append_empty]
    exact extract_append_drop bs off
  · rw [overwrite, if_neg h]

/-- Two parts that are written one after the other make up the whole. -/
theorem overwrite_overwrite_zero {bs a b : ByteArray} (h : a.size + b.size = bs.size) :
    overwrite (overwrite bs 0 a) a.size b = a ++ b := by
  have hfirst : overwrite bs 0 a = a ++ drop bs a.size := by
    rw [overwrite_eq_append (by omega), Nat.zero_add, ByteArray.extract_same,
      ByteArray.empty_append]
  have hend : drop (a ++ drop bs a.size) (a.size + b.size) = ByteArray.empty := by
    rw [drop, ByteArray.extract_eq_empty_iff, ByteArray.size_append, size_drop]
    omega
  have hsize : a.size + b.size ≤ (a ++ drop bs a.size).size := by
    rw [ByteArray.size_append, size_drop]
    omega
  rw [hfirst, overwrite_eq_append hsize, hend, ByteArray.append_empty,
    extract_append_left _ (Nat.le_refl _), ByteArray.extract_zero_size]

/-- What has been written is there as far as it goes, and what was there elsewhere. -/
theorem byte_overwrite (bs : ByteArray) (off : Nat) (src : ByteArray) (i : Nat) :
    byte (overwrite bs off src) i =
      if off ≤ i ∧ i < off + src.size ∧ i < bs.size then byte src (i - off) else byte bs i := by
  by_cases hend : bs.size ≤ i
  · rw [if_neg (by omega), byte_of_le hend, byte_of_le (by rwa [size_overwrite])]
  by_cases hoff : off ≤ bs.size
  · -- the write is cut off at the end, so that it has the length `len`
    obtain ⟨len, hlen⟩ : ∃ len, len = min src.size (bs.size - off) := ⟨_, rfl⟩
    have hfirst : (bs.extract 0 off).size = off := by
      rw [ByteArray.size_extract]
      omega
    have hsecond : (src.extract 0 len).size = len := by
      rw [ByteArray.size_extract]
      omega
    have hparts : overwrite bs off src =
        bs.extract 0 off ++ (src.extract 0 len ++ drop bs (off + len)) := by
      rw [overwrite, if_pos hoff, ByteArray.copySlice_eq_append, ByteArray.append_assoc, ← hlen,
        Nat.zero_add, Nat.sub_zero, ByteArray.size_data, ByteArray.size_data,
        Nat.min_eq_left (by omega)]
      rfl
    rw [hparts]
    by_cases hbefore : i < off
    · rw [if_neg (by omega), byte_append_left (by omega), byte_extract (by omega), Nat.zero_add]
    have hi : i = (bs.extract 0 off).size + (i - off) := by omega
    rw [hi, byte_append_right, hfirst]
    by_cases hinside : i - off < len
    · rw [if_pos (by omega), byte_append_left (by omega), byte_extract (by omega), Nat.zero_add,
        Nat.add_sub_cancel_left]
    · have hi' : i - off = (src.extract 0 len).size + (i - off - len) := by omega
      rw [if_neg (by omega), hi', byte_append_right, byte_drop, hsecond]
      congr 1
      omega
  · rw [overwrite, if_neg hoff, if_neg (by omega)]

/-- What has been written at the start stands before what was there. -/
theorem byte_overwrite_zero {bs src : ByteArray} {i : Nat} (h : i < bs.size) :
    byte (overwrite bs 0 src) i = if i < src.size then byte src i else byte bs i := by
  simp [byte_overwrite, h]

theorem concat_three (a b c : ByteArray) : concat [a, b, c] = a ++ (b ++ c) := by
  rw [concat, List.foldl_cons, List.foldl_cons, List.foldl_cons, List.foldl_nil,
    ByteArray.empty_append, ByteArray.append_assoc]

/-! ## repetition -/

/-- `out'` is `out` with `n` more bytes, each of which stands `offset` back. -/
def Repeats (out : ByteArray) (offset n : Nat) (out' : ByteArray) : Prop :=
  out'.size = out.size + n ∧
    ∀ i < out'.size, byte out' i = if i < out.size then byte out i else byte out' (i - offset)

theorem byte_push_of_lt {bs : ByteArray} (b : UInt8) {i : Nat} (h : i < bs.size) :
    byte (bs.push b) i = byte bs i := by
  rw [← ByteArray.append_toByteArray_singleton, byte_append_left h]

theorem byte_push_size (bs : ByteArray) (b : UInt8) : byte (bs.push b) bs.size = b := by
  rw [← ByteArray.append_toByteArray_singleton]
  exact byte_append_right bs _ 0

/-- Copying from a distance back repeats bytes. -/
theorem repeats_copyBack {out : ByteArray} {offset : Nat} (n : Nat) (hpos : 0 < offset)
    (h : offset ≤ out.size) : Repeats out offset n (copyBack out offset n) := by
  induction n generalizing out with
  | zero =>
      refine ⟨rfl, fun i hi => ?_⟩
      rw [copyBack] at hi ⊢
      rw [if_pos hi]
  | succ n ih =>
      have hsize : (out.push (byte out (out.size - offset))).size = out.size + 1 :=
        ByteArray.size_push
      obtain ⟨hlength, hbytes⟩ :=
        @ih (out.push (byte out (out.size - offset))) (by omega)
      rw [copyBack]
      refine ⟨by omega, fun i hi => ?_⟩
      rw [hbytes i hi]
      by_cases hold : i < out.size
      · rw [if_pos (by omega), if_pos hold, byte_push_of_lt _ hold]
      · rw [if_neg hold]
        by_cases hnew : i = out.size
        · rw [if_pos (by omega), hnew, byte_push_size, hbytes _ (by omega), if_pos (by omega),
            byte_push_of_lt _ (by omega)]
        · rw [if_neg (by omega)]

/-- Only one array repeats bytes in a given way. -/
theorem Repeats.unique {out a b : ByteArray} {offset n : Nat} (hpos : 0 < offset)
    (h : offset ≤ out.size) (ha : Repeats out offset n a) (hb : Repeats out offset n b) :
    a = b := by
  refine ext_byte (ha.1.trans hb.1.symm) fun i hi => ?_
  induction i using Nat.strongRecOn with
  | _ i ih =>
    have hi' : i < b.size := by
      rw [hb.1, ← ha.1]
      exact hi
    rw [ha.2 i hi, hb.2 i hi']
    split
    · rfl
    · exact ih (i - offset) (by omega) (by omega)

/-- Bytes are repeated as they are copied from a distance back. -/
theorem repeats_iff {out out' : ByteArray} {offset n : Nat} (hpos : 0 < offset)
    (h : offset ≤ out.size) : Repeats out offset n out' ↔ out' = copyBack out offset n := by
  constructor
  · intro hrepeats
    exact hrepeats.unique hpos h (repeats_copyBack n hpos h)
  · rintro rfl
    exact repeats_copyBack n hpos h

/-- Repeated bytes are added to what is there. -/
theorem Repeats.exists_append {out out' : ByteArray} {offset n : Nat}
    (h : Repeats out offset n out') : ∃ more, out' = out ++ more := by
  have hsize : (out'.extract 0 out.size).size = out.size := by
    rw [ByteArray.size_extract, h.1]
    omega
  have hfirst : out'.extract 0 out.size = out := by
    refine ext_byte hsize fun i hi => ?_
    rw [byte_extract (by omega), Nat.zero_add, h.2 i (by rw [h.1]; omega), if_pos (by omega)]
  have hwhole := extract_append_drop out' out.size
  rw [hfirst] at hwhole
  exact ⟨drop out' out.size, hwhole.symm⟩

/-- What is repeated is added. -/
theorem exists_copyBack (out : ByteArray) (offset n : Nat) :
    ∃ more, copyBack out offset n = out ++ more := by
  induction n generalizing out with
  | zero => exact ⟨ByteArray.empty, ByteArray.append_empty.symm⟩
  | succ n ih =>
      obtain ⟨more, hmore⟩ := ih (out.push (byte out (out.size - offset)))
      rw [copyBack, hmore, ← ByteArray.append_toByteArray_singleton, ByteArray.append_assoc]
      exact ⟨_, rfl⟩

/-- Bytes are repeated alike behind a first part that is not reached. -/
theorem copyBack_append (pre : ByteArray) {out : ByteArray} {offset : Nat} (n : Nat)
    (h : offset ≤ out.size) :
    copyBack (pre ++ out) offset n = pre ++ copyBack out offset n := by
  induction n generalizing out with
  | zero => rfl
  | succ n ih =>
      have hindex : (pre ++ out).size - offset = pre.size + (out.size - offset) := by
        rw [ByteArray.size_append]
        omega
      have hpush : (pre ++ out).push (byte out (out.size - offset)) =
          pre ++ out.push (byte out (out.size - offset)) := by
        rw [← ByteArray.append_toByteArray_singleton, ByteArray.append_assoc,
          ByteArray.append_toByteArray_singleton]
      have hsize : offset ≤ (out.push (byte out (out.size - offset))).size := by
        rw [ByteArray.size_push]
        omega
      rw [copyBack, copyBack, hindex, byte_append_right, hpush, ih hsize]

/-! ## little-endian numbers -/

/-- Numbers are equal if their bytes are. -/
theorem leNat_congr {a b : ByteArray} {off len : Nat}
    (h : ∀ i, off ≤ i → i < off + len → byte a i = byte b i) :
    leNat a off len = leNat b off len := by
  induction len generalizing off with
  | zero => rfl
  | succ len ih =>
      have hfirst : byte a off = byte b off := h off (by omega) (by omega)
      have hrest : leNat a (off + 1) len = leNat b (off + 1) len :=
        ih fun i hi hlt => h i (by omega) (by omega)
      rw [leNat, leNat, hfirst, hrest]

theorem leNat_append_left {a b : ByteArray} {off len : Nat} (h : off + len ≤ a.size) :
    leNat (a ++ b) off len = leNat a off len := by
  induction len generalizing off with
  | zero => rfl
  | succ len ih =>
      rw [leNat, leNat, byte_append_left (by omega), ih (by omega)]

theorem le?_append_left {a : ByteArray} (b : ByteArray) {off len : Nat}
    (h : off + len ≤ a.size) : le? (a ++ b) off len = le? a off len := by
  have hsize : off + len ≤ (a ++ b).size := by
    rw [ByteArray.size_append]
    omega
  rw [le?, le?, if_pos h, if_pos hsize, leNat_append_left h]

theorem leNat_append_right (a b : ByteArray) (off len : Nat) :
    leNat (a ++ b) (a.size + off) len = leNat b off len := by
  induction len generalizing off with
  | zero => rfl
  | succ len ih =>
      rw [leNat, leNat, byte_append_right, Nat.add_assoc, ih]

theorem leNat_lt (bs : ByteArray) (off len : Nat) : leNat bs off len < 256 ^ len := by
  induction len generalizing off with
  | zero => simp [leNat]
  | succ len ih =>
    have hbyte := (byte bs off).toNat_lt
    have hrest := ih (off + 1)
    rw [leNat, Nat.pow_succ]
    omega

theorem leNat_drop (bs : ByteArray) (n off len : Nat) :
    leNat (drop bs n) off len = leNat bs (n + off) len := by
  induction len generalizing off with
  | zero => rfl
  | succ len ih =>
      rw [leNat, leNat, byte_drop, ih, Nat.add_assoc]

theorem leNat_extract {bs : ByteArray} {start stop off len : Nat} (h : start + off + len ≤ stop) :
    leNat (bs.extract start stop) off len = leNat bs (start + off) len := by
  induction len generalizing off with
  | zero => rfl
  | succ len ih =>
      rw [leNat, leNat, byte_extract (by omega), ih (by omega), Nat.add_assoc]

theorem size_front {bs : ByteArray} {n : Nat} (h : n ≤ bs.size) : (bs.extract 0 n).size = n := by
  rw [ByteArray.size_extract]
  omega

/-- The first bytes are found in their place. -/
theorem byte_front {bs : ByteArray} {n i : Nat} (h : i < n) :
    byte (bs.extract 0 n) i = byte bs i := by
  have hextract := @byte_extract bs 0 n i (by omega)
  rwa [Nat.zero_add] at hextract

theorem leNat_front {bs : ByteArray} {n off len : Nat} (h : off + len ≤ n) :
    leNat (bs.extract 0 n) off len = leNat bs off len := by
  have hextract := @leNat_extract bs 0 n off len (by omega)
  rwa [Nat.zero_add] at hextract

@[simp] theorem size_le (len n : Nat) : (le len n).size = len := by
  rw [le, List.size_toByteArray, length_leList]

theorem toByteArray_cons (b : UInt8) (l : List UInt8) :
    (b :: l).toByteArray = [b].toByteArray ++ l.toByteArray := by
  rw [← List.toByteArray_append, List.singleton_append]

/-- The first byte of a number is its remainder, and the others are those of
the quotient. -/
theorem le_succ (len n : Nat) :
    le (len + 1) n = [UInt8.ofNat n].toByteArray ++ le len (n / 256) := by
  rw [le, leList, toByteArray_cons, le]

/-- A byte is a number of one byte. -/
theorem toByteArray_eq_le (b : UInt8) : [b].toByteArray = le 1 b.toNat := by
  simp [le, leList]

/-- A number that is written is read back. -/
theorem leNat_le {len n : Nat} (h : n < 256 ^ len) : leNat (le len n) 0 len = n := by
  induction len generalizing n with
  | zero =>
      rw [Nat.pow_zero] at h
      rw [leNat]
      omega
  | succ len ih =>
      have hquotient : n / 256 < 256 ^ len := by
        rw [Nat.pow_succ] at h
        exact Nat.div_lt_of_lt_mul (by omega)
      have hbyte : byte (le (len + 1) n) 0 = UInt8.ofNat n := by
        rw [le_succ, byte_append_left (by simp), byte_of_lt (by simp)]
        rfl
      have hrest : leNat (le (len + 1) n) 1 len = n / 256 := by
        rw [le_succ]
        exact (leNat_append_right [UInt8.ofNat n].toByteArray _ 0 len).trans (ih hquotient)
      rw [leNat, hbyte, Nat.zero_add, hrest, UInt8.toNat_ofNat']
      omega

/-- So is one that is followed by other bytes. -/
theorem leNat_le_append {len n : Nat} (h : n < 256 ^ len) (rest : ByteArray) :
    leNat (le len n ++ rest) 0 len = n := by
  rw [leNat_append_left (by rw [size_le]; omega), leNat_le h]

/-- The bytes of a number that is read are those it is written with. -/
theorem le_leNat (bs : ByteArray) {len off : Nat} (h : off + len ≤ bs.size) :
    le len (leNat bs off len) = bs.extract off (off + len) := by
  induction len generalizing off with
  | zero =>
      rw [Nat.add_zero, ByteArray.extract_same]
      rfl
  | succ len ih =>
      have hfirst : UInt8.ofNat (leNat bs off (len + 1)) = byte bs off := by
        rw [leNat, ← UInt8.toNat_inj, UInt8.toNat_ofNat']
        have := (byte bs off).toNat_lt
        omega
      have hrest : leNat bs off (len + 1) / 256 = leNat bs (off + 1) len := by
        rw [leNat]
        have := (byte bs off).toNat_lt
        omega
      have hbyte : [byte bs off].toByteArray = bs.extract off (off + 1) := by
        rw [byte_of_lt (by omega), ByteArray.extract_add_one (by omega)]
      rw [le_succ, hfirst, hrest, ih (by omega), hbyte, Nat.add_assoc, Nat.add_comm 1,
        ← ByteArray.extract_eq_extract_append_extract (off + 1) (by omega) (by omega)]

/-- The bytes of an array are those of the number it stands for. -/
theorem le_leNat_self {bs : ByteArray} {len : Nat} (h : bs.size = len) :
    le len (leNat bs 0 len) = bs := by
  rw [le_leNat bs (by omega), Nat.zero_add]
  exact extract_of_le (Nat.le_of_eq h)

theorem ofU32_leNat {bs : ByteArray} (h : bs.size = 4) :
    ofU32 (UInt32.ofNat (leNat bs 0 4)) = bs := by
  rw [ofU32, UInt32.toNat_ofNat_of_lt' (leNat_lt bs 0 4), le_leNat_self h]

theorem ofU64_leNat {bs : ByteArray} (h : bs.size = 8) :
    ofU64 (UInt64.ofNat (leNat bs 0 8)) = bs := by
  rw [ofU64, UInt64.toNat_ofNat_of_lt' (leNat_lt bs 0 8), le_leNat_self h]

/-! ## numbers that are written over others -/

/-- Of a number only so many low bytes are written. -/
theorem le_mod (len n : Nat) : le len (n % 256 ^ len) = le len n := by
  induction len generalizing n with
  | zero => rfl
  | succ len ih =>
      have hquotient : n % 256 ^ (len + 1) / 256 = n / 256 % 256 ^ len := by
        rw [Nat.pow_succ', Nat.mod_mul_right_div_self]
      have hlow : n % 256 ^ (len + 1) % 256 = n % 256 := by
        rw [Nat.pow_succ', Nat.mod_mul_right_mod]
      have hbyte : UInt8.ofNat (n % 256 ^ (len + 1)) = UInt8.ofNat n := by
        rw [← UInt8.toNat_inj, UInt8.toNat_ofNat', UInt8.toNat_ofNat', hlow]
      rw [le_succ, le_succ, hbyte, hquotient, ih]

/-- A number that has been written in an array is read back there. -/
theorem leNat_overwrite_le {bs : ByteArray} {off len n : Nat} (h : off + len ≤ bs.size)
    (hn : n < 256 ^ len) : leNat (overwrite bs off (le len n)) off len = n := by
  have hfirst : (bs.extract 0 off).size = off := by
    rw [ByteArray.size_extract]
    omega
  have hread := leNat_append_right (bs.extract 0 off) (le len n) 0 len
  rw [hfirst, Nat.add_zero, leNat_le hn] at hread
  have hsize : (bs.extract 0 off ++ le len n).size = off + len := by
    rw [ByteArray.size_append, hfirst, size_le]
  rw [overwrite_eq_append (by rwa [size_le]), leNat_append_left (Nat.le_of_eq hsize.symm), hread]

/-- Writing bytes that are there changes nothing. -/
theorem overwrite_le_leNat (bs : ByteArray) {off len : Nat} (h : off + len ≤ bs.size) :
    overwrite bs off (le len (leNat bs off len)) = bs := by
  rw [le_leNat bs h]
  refine ext_byte (size_overwrite _ _ _) fun i _ => ?_
  rw [byte_overwrite, ByteArray.size_extract]
  split
  · rw [byte_extract (by omega)]
    congr 1
    omega
  · rfl

/-- What is written in one place is written over what was written there before. -/
theorem overwrite_overwrite {bs a b : ByteArray} {off : Nat} (h : a.size = b.size) :
    overwrite (overwrite bs off a) off b = overwrite bs off b := by
  refine ext_byte (by simp) fun i _ => ?_
  simp only [byte_overwrite, size_overwrite, h]
  split
  · rfl
  · rfl

/-- Bytes that are written in different places can be written in any order. -/
theorem overwrite_comm {bs a b : ByteArray} {off off' : Nat}
    (h : off + a.size ≤ off' ∨ off' + b.size ≤ off) :
    overwrite (overwrite bs off a) off' b = overwrite (overwrite bs off' b) off a := by
  refine ext_byte (by simp) fun i _ => ?_
  simp only [byte_overwrite, size_overwrite]
  split
  · rw [if_neg (by omega)]
  · rfl

end EfiLoader.Bytes
