import EfiLoader.Lz4.Frame
import EfiLoader.Proofs.Lz4.Sequences

/-!
# EfiLoader.Proofs.Lz4.Block

The content of a block.  `Decodes history block content` says it in terms of
the grammar of sequences, with no room and no order of execution in it:

* `decode_eq_some_iff` — a block is decoded to its content, if there is room;
* `decode_drop_history` — the last 64 KiB of a history are as good as all of it.
-/

namespace EfiLoader.Lz4.Block

/-! ## content -/

/-- The sequences that a block is made up of continue `out` to `out'`.  A match
repeats bytes of what has been written so far. -/
inductive Continues : (block out out' : ByteArray) → Prop
  | last {unused : Nat} (out literals : ByteArray) (h : unused < 16) :
      Continues (encodeLast literals unused) out (out ++ literals)
  | step {out literals more rest out' : ByteArray} {m : Match} (pos : 0 < m.offset)
      (offset : m.offset < 65536) (length : 4 ≤ m.length)
      (reach : m.offset ≤ (out ++ literals).size)
      (repeats : Bytes.Repeats (out ++ literals) m.offset m.length more)
      (tail : Continues rest more out') : Continues (encodeStep literals m ++ rest) out out'

/-- The block has the given content after a history. -/
def Decodes (history block content : ByteArray) : Prop :=
  Continues block history (history ++ content)

/-- A block makes what is there longer. -/
theorem Continues.exists_append {block out out' : ByteArray} (h : Continues block out out') :
    ∃ content, out' = out ++ content := by
  induction h with
  | last out literals => exact ⟨literals, rfl⟩
  | @step out literals _ _ _ _ _ _ _ _ repeats _ ih =>
      obtain ⟨copied, rfl⟩ := repeats.exists_append
      obtain ⟨content, rfl⟩ := ih
      exact ⟨literals ++ (copied ++ content), by simp only [ByteArray.append_assoc]⟩

theorem Continues.size_le {block out out' : ByteArray} (h : Continues block out out') :
    out.size ≤ out'.size := by
  obtain ⟨content, rfl⟩ := h.exists_append
  rw [ByteArray.size_append]
  omega

/-! ## one sequence -/

theorem addLiterals_eq (block out : ByteArray) (s : Sequence) :
    addLiterals block out s = out ++ s.literalBytes block := rfl

theorem size_addLiterals {block : ByteArray} (out : ByteArray) {i : Nat} {s : Sequence}
    (h : readSequence block i = some s) :
    (addLiterals block out s).size = out.size + s.literals := by
  have hs := (readSequence_sound h).1
  rw [addLiterals, ByteArray.size_append, ByteArray.size_extract]
  omega

theorem offset_lt_of_readSequence {block : ByteArray} {i : Nat} {s : Sequence} {m : Match}
    (h : readSequence block i = some s) (hm : s.copy = some m) : m.offset < historyLimit := by
  have hsound := (readSequence_sound h).2
  rw [hm] at hsound
  exact hsound.1

/-- A match is executed if it stays within what is there and fits. -/
theorem executeMatch_eq_some_iff {limit : Nat} {out out' : ByteArray} {m : Match} :
    executeMatch limit out m = some out' ↔
      m.offset ≠ 0 ∧ m.offset ≤ out.size ∧ out'.size ≤ limit ∧
        out' = Bytes.copyBack out m.offset m.length := by
  unfold executeMatch
  split
  · next hmatch =>
    constructor
    · intro h
      cases h
    · rintro ⟨hzero, hreach, hlimit, rfl⟩
      rw [Bytes.size_copyBack] at hlimit
      omega
  · next hmatch =>
    constructor
    · intro h
      cases h
      rw [Bytes.size_copyBack]
      exact ⟨by omega, by omega, by omega, rfl⟩
    · rintro ⟨-, -, -, rfl⟩
      rfl

/-- A sequence without a match is executed if its literals fit. -/
theorem execute_of_none {block out out' : ByteArray} {limit : Nat} {s : Sequence}
    (hs : s.copy = none) : execute block limit out s = some out' ↔
      out.size + s.literals ≤ limit ∧ out' = addLiterals block out s := by
  unfold execute
  rw [hs]
  by_cases hfit : limit < out.size + s.literals
  · rw [if_pos hfit]
    constructor
    · intro h
      cases h
    · rintro ⟨hlimit, -⟩
      omega
  · rw [if_neg hfit]
    constructor
    · intro h
      cases h
      exact ⟨by omega, rfl⟩
    · rintro ⟨-, rfl⟩
      rfl

/-- A sequence with a match is executed if that can be. -/
theorem execute_of_some {block out out' : ByteArray} {limit i : Nat} {s : Sequence} {m : Match}
    (h : readSequence block i = some s) (hs : s.copy = some m) :
    execute block limit out s = some out' ↔
      executeMatch limit (addLiterals block out s) m = some out' := by
  have hliterals := size_addLiterals out h
  unfold execute
  rw [hs]
  by_cases hfit : limit < out.size + s.literals
  · rw [if_pos hfit, executeMatch_eq_some_iff]
    constructor
    · intro h
      cases h
    · rintro ⟨-, -, hlimit, rfl⟩
      rw [Bytes.size_copyBack] at hlimit
      omega
  · rw [if_neg hfit]

/-- What a sequence is executed to has at least its literals more. -/
theorem size_of_execute {block out out' : ByteArray} {limit i : Nat} {s : Sequence}
    (hs : readSequence block i = some s) (h : execute block limit out s = some out') :
    out.size + s.literals ≤ out'.size := by
  have hliterals := size_addLiterals out hs
  cases hcopy : s.copy with
  | none =>
      obtain ⟨-, rfl⟩ := (execute_of_none hcopy).mp h
      exact Nat.le_of_eq hliterals.symm
  | some m =>
      rw [execute_of_some hs hcopy, executeMatch_eq_some_iff] at h
      obtain ⟨-, -, -, rfl⟩ := h
      rw [Bytes.size_copyBack]
      omega

/-- A sequence is executed alike behind a first part that it does not reach. -/
theorem execute_append {block : ByteArray} (pre : ByteArray) {out : ByteArray} (limit : Nat)
    {s : Sequence} (hs : ∀ m, s.copy = some m → m.offset ≤ out.size) :
    execute block (pre.size + limit) (pre ++ out) s =
      (execute block limit out s).map (pre ++ ·) := by
  have hliterals : addLiterals block (pre ++ out) s = pre ++ addLiterals block out s :=
    ByteArray.append_assoc
  unfold execute
  rw [hliterals, ByteArray.size_append]
  by_cases hfit : limit < out.size + s.literals
  · rw [if_pos (by omega), if_pos hfit]
    rfl
  · rw [if_neg (by omega), if_neg hfit]
    cases hcopy : s.copy with
    | none => rfl
    | some m =>
        have hreach : m.offset ≤ (addLiterals block out s).size := by
          have := hs m hcopy
          rw [addLiterals, ByteArray.size_append]
          omega
        simp only [executeMatch, ByteArray.size_append, Bytes.copyBack_append pre _ hreach]
        by_cases hmatch : m.offset = 0 ∨ (addLiterals block out s).size < m.offset ∨
            limit < (addLiterals block out s).size + m.length
        · rw [if_pos (by omega), if_pos hmatch]
          rfl
        · rw [if_neg (by omega), if_neg hmatch]
          rfl

/-! ## all sequences -/

section

variable {block : ByteArray} {limit i : Nat}

theorem decodeFrom_of_none (out : ByteArray) (h : readSequence block i = none) :
    decodeFrom block limit out i = none := by
  rw [decodeFrom]
  split
  · rfl
  · next heq =>
    rw [h] at heq
    cases heq

/-- The sequence at a place is executed, and then the ones after it. -/
theorem decodeFrom_of_some (out : ByteArray) {s : Sequence} (h : readSequence block i = some s) :
    decodeFrom block limit out i =
      (execute block limit out s).bind fun out =>
        if s.copy.isNone then some out else decodeFrom block limit out s.next := by
  rw [decodeFrom]
  split
  · next heq =>
    rw [h] at heq
    cases heq
  · next s' heq =>
    obtain rfl : s = s' := Option.some.inj (h.symm.trans heq)
    cases execute block limit out s <;> rfl

/-- What is decoded is what the sequences are made up of, within the limit. -/
theorem continues_of_decodeFrom {out out' : ByteArray}
    (h : decodeFrom block limit out i = some out') :
    Continues (Bytes.drop block i) out out' ∧ out'.size ≤ limit := by
  -- by induction on what is left of the block, of which every sequence takes some
  generalize hn : block.size - i = n
  induction n using Nat.strongRecOn generalizing i out with
  | _ n ih =>
    cases hs : readSequence block i with
    | none =>
        rw [decodeFrom_of_none out hs] at h
        cases h
    | some s =>
        have hnext := lt_next_of_readSequence hs
        have hliterals := size_addLiterals out hs
        have hsound := (readSequence_sound hs).2
        rw [decodeFrom_of_some out hs, Option.bind_eq_some_iff] at h
        obtain ⟨out₁, hexecute, h⟩ := h
        cases hcopy : s.copy with
        | none =>
            rw [hcopy] at hsound h
            obtain ⟨unused, hunused, hdrop⟩ := hsound
            obtain ⟨hfit, rfl⟩ := (execute_of_none hcopy).mp hexecute
            cases h
            rw [hdrop, hliterals]
            exact ⟨Continues.last out (s.literalBytes block) hunused, hfit⟩
        | some m =>
            rw [hcopy] at hsound h
            obtain ⟨hoffset, hlength, hdrop⟩ := hsound
            rw [execute_of_some hs hcopy, executeMatch_eq_some_iff] at hexecute
            obtain ⟨hzero, hreach, -, hout⟩ := hexecute
            have hpos : 0 < m.offset := Nat.pos_of_ne_zero hzero
            obtain ⟨htail, hlimit⟩ := ih (block.size - s.next) (by omega) h rfl
            rw [hdrop]
            exact ⟨Continues.step hpos hoffset hlength hreach
              ((Bytes.repeats_iff hpos hreach).mpr hout) htail, hlimit⟩

/-- What sequences are made up of is decoded, within the limit. -/
theorem decodeFrom_of_continues {out out' : ByteArray}
    (h : Continues (Bytes.drop block i) out out') (hlimit : out'.size ≤ limit) :
    decodeFrom block limit out i = some out' := by
  generalize hb : Bytes.drop block i = b at h
  induction h generalizing i with
  | last out literals hunused =>
      obtain ⟨s, hs, hcopy, hbytes, hsize⟩ := readSequence_of_last hunused hb
      have hexecute : execute block limit out s = some (out ++ literals) := by
        rw [ByteArray.size_append] at hlimit
        rw [execute_of_none hcopy, addLiterals_eq, hbytes]
        exact ⟨by omega, rfl⟩
      rw [decodeFrom_of_some out hs, hexecute, Option.bind_some, hcopy]
      rfl
  | @step out literals more rest out' m hpos hoffset hlength hreach hrepeats htail ih =>
      obtain ⟨s, hs, hcopy, hbytes, hsize, hnext⟩ := readSequence_of_step hoffset hlength hb
      have hexecute : execute block limit out s = some more := by
        have hmore := htail.size_le
        have hout : addLiterals block out s = out ++ literals := by rw [addLiterals_eq, hbytes]
        rw [execute_of_some hs hcopy, executeMatch_eq_some_iff, hout]
        exact ⟨Nat.ne_of_gt hpos, hreach, by omega, (Bytes.repeats_iff hpos hreach).mp hrepeats⟩
      rw [decodeFrom_of_some out hs, hexecute, Option.bind_some, hcopy]
      exact ih hlimit hnext

/-- Decoding is what the sequences say, within the limit. -/
theorem decodeFrom_eq_some_iff {out out' : ByteArray} :
    decodeFrom block limit out i = some out' ↔
      Continues (Bytes.drop block i) out out' ∧ out'.size ≤ limit :=
  ⟨continues_of_decodeFrom, fun h => decodeFrom_of_continues h.1 h.2⟩

/-- A block is decoded alike behind a first part that no match can reach. -/
theorem decodeFrom_append (pre : ByteArray) {out : ByteArray} (hout : historyLimit ≤ out.size) :
    decodeFrom block (pre.size + limit) (pre ++ out) i =
      (decodeFrom block limit out i).map (pre ++ ·) := by
  generalize hn : block.size - i = n
  induction n using Nat.strongRecOn generalizing i out with
  | _ n ih =>
    cases hs : readSequence block i with
    | none => rw [decodeFrom_of_none _ hs, decodeFrom_of_none _ hs, Option.map_none]
    | some s =>
        have hnext := lt_next_of_readSequence hs
        have hreach : ∀ m, s.copy = some m → m.offset ≤ out.size := fun m hm =>
          Nat.le_trans (Nat.le_of_lt (offset_lt_of_readSequence hs hm)) hout
        rw [decodeFrom_of_some _ hs, decodeFrom_of_some _ hs, execute_append pre limit hreach]
        cases hexecute : execute block limit out s with
        | none => rfl
        | some out₁ =>
            have hsize := size_of_execute hs hexecute
            simp only [Option.map_some, Option.bind_some]
            by_cases hlast : s.copy.isNone = true
            · rw [if_pos hlast, if_pos hlast, Option.map_some]
            · rw [if_neg hlast, if_neg hlast]
              exact ih (block.size - s.next) (by omega) (by omega) rfl

end

/-! ## blocks -/

/-- A block is decoded to the content it has, if there is room for that. -/
theorem decode_eq_some_iff {history block content : ByteArray} {room : Nat} :
    decode history room block = some content ↔
      Decodes history block content ∧ content.size ≤ room := by
  rw [decode, Option.map_eq_some_iff]
  simp only [decodeFrom_eq_some_iff, Bytes.drop_zero]
  constructor
  · rintro ⟨out, ⟨hcontinues, hlimit⟩, rfl⟩
    obtain ⟨content, rfl⟩ := hcontinues.exists_append
    rw [ByteArray.size_append] at hlimit
    rw [Bytes.drop_append content rfl]
    exact ⟨hcontinues, by omega⟩
  · rintro ⟨hcontinues, hroom⟩
    refine ⟨history ++ content, ⟨hcontinues, ?_⟩, Bytes.drop_append content rfl⟩
    rw [ByteArray.size_append]
    omega

/-- The last bytes of a history are as good as all of it. -/
theorem decode_drop_history (history : ByteArray) (room : Nat) (block : ByteArray) :
    decode (Bytes.drop history (history.size - historyLimit)) room block =
      decode history room block := by
  by_cases hshort : history.size ≤ historyLimit
  · rw [Nat.sub_eq_zero_of_le hshort, Bytes.drop_zero]
  · generalize hpre : history.extract 0 (history.size - historyLimit) = pre
    generalize hlast : Bytes.drop history (history.size - historyLimit) = last
    have hhistory : history = pre ++ last := by
      rw [← hpre, ← hlast, Bytes.extract_append_drop]
    have hsize : last.size = historyLimit := by
      rw [← hlast, Bytes.size_drop]
      omega
    have hdrop : ∀ out,
        Bytes.drop (pre ++ out) (pre.size + last.size) = Bytes.drop out last.size := by
      intro out
      rw [← Bytes.drop_drop, Bytes.drop_append out rfl]
    rw [hhistory, decode, decode, ByteArray.size_append, Nat.add_assoc,
      decodeFrom_append pre (Nat.le_of_eq hsize.symm), Option.map_map]
    congr 1
    funext out
    exact (hdrop out).symm

end EfiLoader.Lz4.Block
