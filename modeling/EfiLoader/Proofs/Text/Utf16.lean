import EfiLoader.Text.Utf16
import Mathlib.Data.List.TakeWhile

/-!
# EfiLoader.Proofs.Text.Utf16

UTF-16 units and their text.  A text comes back from its units, and no unit of
it is taken for one of another character:

* `decode_encodeChar_append` — one character is decoded, and the rest goes on;
* `decode_encodeChars` — the text of the units of a text is that text;
* `mem_encodeChars_iff` — characters of one unit are found where they are;
* `untilNul_encodeChars` — the units before the first NUL are those of the text before it;
* `nul_not_mem_decode` — units without NUL have a text without NUL.
-/

namespace EfiLoader.Text.Utf16

variable {c d : Char} {cs : List Char} {u v : UInt16} {units : List UInt16}

/-! ## units -/

/-- The character that ends a text. -/
def nul : Char := '\x00'

theorem isHigh_eq (u : UInt16) : isHigh u = decide (0xD800 ≤ u.toNat ∧ u.toNat < 0xDC00) := by
  simp [isHigh, UInt16.le_iff_toNat_le, UInt16.lt_iff_toNat_lt]

theorem isLow_eq (u : UInt16) : isLow u = decide (0xDC00 ≤ u.toNat ∧ u.toNat < 0xE000) := by
  simp [isLow, UInt16.le_iff_toNat_le, UInt16.lt_iff_toNat_lt]

theorem toNat_ofNat {n : Nat} (h : n < 0x10000) : (UInt16.ofNat n).toNat = n :=
  UInt16.toNat_ofNat_of_lt' h

/-- Characters are no surrogates. -/
theorem toNat_char (c : Char) :
    c.toNat < 0xD800 ∨ 0xE000 ≤ c.toNat ∧ c.toNat < 0x110000 := by
  rcases c.valid with h | ⟨hlow, hhigh⟩
  · exact .inl h
  · exact .inr ⟨hlow, hhigh⟩

/-- The surrogates of a character that has two units. -/
structure Surrogates (c : Char) (high low : UInt16) : Prop where
  isHigh : isHigh high = true
  isLow : isLow low = true
  pair : pair high low = c

/-- A character is one unit, which is no surrogate, or a pair of them. -/
theorem encodeChar_cases (c : Char) :
    (∃ u, encodeChar c = [u] ∧ u.toNat = c.toNat ∧ isHigh u = false ∧ isLow u = false) ∨
      ∃ high low, encodeChar c = [high, low] ∧ Surrogates c high low := by
  have hchar := toNat_char c
  unfold encodeChar
  by_cases hone : c.toNat < 0x10000
  · have hunit := toNat_ofNat hone
    rw [if_pos hone]
    refine .inl ⟨_, rfl, hunit, ?_, ?_⟩
    · rw [isHigh_eq, hunit, decide_eq_false_iff_not]
      omega
    · rw [isLow_eq, hunit, decide_eq_false_iff_not]
      omega
  · have hhigh := toNat_ofNat (n := 0xD800 + (c.toNat - 0x10000) / 0x400) (by omega)
    have hlow := toNat_ofNat (n := 0xDC00 + (c.toNat - 0x10000) % 0x400) (by omega)
    rw [if_neg hone]
    refine .inr ⟨_, _, rfl, ?_, ?_, ?_⟩
    · rw [isHigh_eq, hhigh, decide_eq_true_iff]
      omega
    · rw [isLow_eq, hlow, decide_eq_true_iff]
      omega
    · have hsum : 0x10000 + (0xD800 + (c.toNat - 0x10000) / 0x400 - 0xD800) * 0x400 +
          (0xDC00 + (c.toNat - 0x10000) % 0x400 - 0xDC00) = c.toNat := by
        omega
      rw [pair, hhigh, hlow, hsum, Char.ofNat_toNat]

theorem encodeChars_cons (c : Char) (cs : List Char) :
    encodeChars (c :: cs) = encodeChar c ++ encodeChars cs := rfl

/-! ## decoding what has been encoded -/

theorem decode_cons_of_not_high (h : isHigh u = false) (rest : List UInt16) :
    decode (u :: rest) = single u :: decode rest := by
  cases rest with
  | nil => rfl
  | cons v rest =>
    rw [decode, h, Bool.false_and, if_neg Bool.false_ne_true]

theorem decode_cons_pair (hu : isHigh u = true) (hv : isLow v = true) (rest : List UInt16) :
    decode (u :: v :: rest) = pair u v :: decode rest := by
  rw [decode, hu, hv, Bool.true_and, if_pos rfl]

/-- One character is decoded, and the rest goes on as it is. -/
theorem decode_encodeChar_append (c : Char) (rest : List UInt16) :
    decode (encodeChar c ++ rest) = c :: decode rest := by
  obtain ⟨u, hunits, hunit, hhigh, hlow⟩ | ⟨high, low, hunits, hpair⟩ := encodeChar_cases c
  · have hsingle : single u = c := by
      rw [single, hhigh, hlow, Bool.false_or, if_neg Bool.false_ne_true, hunit, Char.ofNat_toNat]
    rw [hunits, List.singleton_append, decode_cons_of_not_high hhigh, hsingle]
  · rw [hunits, List.cons_append, List.singleton_append,
      decode_cons_pair hpair.isHigh hpair.isLow, hpair.pair]

/-- **A text comes back from its units.** -/
theorem decode_encodeChars (cs : List Char) : decode (encodeChars cs) = cs := by
  induction cs with
  | nil => rfl
  | cons c cs ih =>
    rw [encodeChars_cons, decode_encodeChar_append, ih]

/-! ## single units -/

/-- A character below the surrogates is a unit of no other character. -/
theorem mem_encodeChar_iff (hd : d.toNat < 0xD800) :
    UInt16.ofNat d.toNat ∈ encodeChar c ↔ d = c := by
  have hunit := toNat_ofNat (n := d.toNat) (by omega)
  obtain ⟨u, hunits, hu, -, -⟩ | ⟨high, low, hunits, hpair⟩ := encodeChar_cases c
  · rw [hunits, List.mem_singleton, ← UInt16.toNat_inj, hunit, hu, Char.toNat_inj]
  · have hhigh := hpair.isHigh
    have hlow := hpair.isLow
    rw [isHigh_eq, decide_eq_true_iff] at hhigh
    rw [isLow_eq, decide_eq_true_iff] at hlow
    rw [hunits, List.mem_cons, List.mem_singleton, ← UInt16.toNat_inj, ← UInt16.toNat_inj, hunit]
    constructor
    · omega
    · rintro rfl
      have hone : encodeChar d = [UInt16.ofNat d.toNat] := if_pos (by omega)
      rw [hone] at hunits
      cases hunits

theorem mem_encodeChars_iff (hd : d.toNat < 0xD800) :
    UInt16.ofNat d.toNat ∈ encodeChars cs ↔ d ∈ cs := by
  rw [encodeChars, List.mem_flatMap]
  constructor
  · rintro ⟨c, hc, hmem⟩
    rwa [(mem_encodeChar_iff hd).mp hmem]
  · intro hmem
    exact ⟨d, hmem, (mem_encodeChar_iff hd).mpr rfl⟩

/-- Units have a NUL if the text has one. -/
theorem zero_mem_encodeChars_iff : 0 ∈ encodeChars cs ↔ nul ∈ cs :=
  mem_encodeChars_iff (d := nul) (by decide)

theorem untilNul_append_of_not_mem (h : 0 ∉ units) (rest : List UInt16) :
    untilNul (units ++ rest) = units ++ untilNul rest := by
  refine List.takeWhile_append_of_pos fun u hu => ?_
  simpa using ne_of_mem_of_not_mem hu h

theorem untilNul_cons_zero (rest : List UInt16) : untilNul (0 :: rest) = [] := rfl

/-- What follows the first NUL makes no difference. -/
theorem untilNul_append_zero (units rest : List UInt16) :
    untilNul (units ++ 0 :: rest) = untilNul units := by
  induction units with
  | nil => rfl
  | cons u units ih =>
    rw [List.cons_append, untilNul, untilNul, List.takeWhile_cons, List.takeWhile_cons,
      ← untilNul, ← untilNul, ih]

theorem zero_not_mem_untilNul (units : List UInt16) : 0 ∉ untilNul units := by
  intro hmem
  simpa using List.mem_takeWhile_imp hmem

/-- The units before the first NUL are those of the text before it. -/
theorem untilNul_encodeChars (cs : List Char) :
    untilNul (encodeChars cs) = encodeChars (cs.takeWhile (· != nul)) := by
  induction cs with
  | nil => rfl
  | cons c cs ih =>
    rw [encodeChars_cons]
    by_cases hc : c = nul
    · subst hc
      rfl
    · have hunits : 0 ∉ encodeChar c := fun hmem =>
        hc ((mem_encodeChar_iff (d := nul) (by decide)).mp hmem).symm
      rw [untilNul_append_of_not_mem hunits, ih, List.takeWhile_cons_of_pos (by simpa using hc),
        encodeChars_cons]

/-! ## units that may be no text -/

theorem toNat_charOfNat {n : Nat} (h : n.isValidChar) : (Char.ofNat n).toNat = n := by
  rw [Char.ofNat, dif_pos h]
  rfl

theorem single_ne_nul (h : u ≠ 0) : single u ≠ nul := by
  rw [single]
  by_cases hsurrogate : (isHigh u || isLow u) = true
  · rw [if_pos hsurrogate]
    decide
  · have hvalid : u.toNat.isValidChar := by
      have hlt := u.toNat_lt
      rw [isHigh_eq, isLow_eq, Bool.or_eq_true, decide_eq_true_iff, decide_eq_true_iff]
        at hsurrogate
      unfold Nat.isValidChar
      omega
    rw [if_neg hsurrogate, ← Char.toNat_inj.ne, toNat_charOfNat hvalid]
    exact fun hzero => h (UInt16.toNat_inj.mp hzero)

theorem pair_ne_nul (hu : isHigh u = true) (hv : isLow v = true) : pair u v ≠ nul := by
  rw [isHigh_eq, decide_eq_true_iff] at hu
  rw [isLow_eq, decide_eq_true_iff] at hv
  have hvalid : (0x10000 + (u.toNat - 0xD800) * 0x400 + (v.toNat - 0xDC00)).isValidChar := by
    unfold Nat.isValidChar
    omega
  rw [pair, ← Char.toNat_inj.ne, toNat_charOfNat hvalid]
  have hnul : nul.toNat = 0 := rfl
  omega

/-- Units without NUL have a text without NUL. -/
theorem nul_not_mem_decode (h : 0 ∉ units) : nul ∉ decode units := by
  induction units using decode.induct with
  | case1 => exact List.not_mem_nil
  | case2 u =>
    rw [decode, List.mem_singleton]
    exact (single_ne_nul fun hu => h (hu ▸ List.mem_singleton_self u)).symm
  | case3 u v rest hpair ih =>
    obtain ⟨hu, hv⟩ := Bool.and_eq_true_iff.mp hpair
    simp only [List.mem_cons, not_or] at h
    rw [decode_cons_pair hu hv, List.mem_cons, not_or]
    exact ⟨(pair_ne_nul hu hv).symm, ih h.2.2⟩
  | case4 u v rest hpair ih =>
    rw [List.mem_cons, not_or] at h
    rw [decode, if_neg hpair, List.mem_cons, not_or]
    exact ⟨(single_ne_nul (Ne.symm h.1)).symm, ih h.2⟩

end EfiLoader.Text.Utf16
