import EfiLoader.Input
import EfiLoader.Proofs.Source

/-!
# EfiLoader.Proofs.Input

Inputs whose bytes are known.  `Input.Reads src inp left` says that the bytes
left to read are `left`, wherever the current chunk ends and however few bytes
the source hands out at a time:

* `Input.Reads.refill`, `Input.Reads.read` — a step takes the next bytes;
* `Input.Reads.takeOnto_of_le`, `Input.Reads.takeOnto_of_lt` — exactly as many as
  are asked for, if they are there.
-/

namespace EfiLoader.Input

/-- The bytes that are left to read are `left`: those of the current chunk and
those that the source hands out, of which there are no more than declared. -/
def Reads (src : Source σ) (inp : Input σ) (left : ByteArray) : Prop :=
  ∃ rest, src.Delivers inp.state rest ∧ left = inp.buffered ++ rest ∧
    rest.size ≤ inp.total - inp.consumed ∧ 0 < inp.chunk.capacity

@[simp] theorem size_buffered (inp : Input σ) : inp.buffered.size = inp.chunk.unread :=
  inp.chunk.size_remaining

/-- The input that starts with a chunk reads the chunk and then the source. -/
theorem reads_start {src : Source σ} {s : σ} {rest : ByteArray} {chunk : Buffer} {total : Nat}
    (h : src.Delivers s rest) (hpos : chunk.pos = 0) (htotal : chunk.len + rest.size ≤ total)
    (hcapacity : 0 < chunk.capacity) :
    (start chunk s total).Reads src (chunk.committed ++ rest) := by
  refine ⟨rest, h, ?_, ?_, hcapacity⟩
  · rw [← Buffer.remaining_of_pos hpos]
    rfl
  · exact Nat.le_sub_of_add_le' htotal

namespace Reads

variable {src : Source σ} {inp : Input σ} {left : ByteArray}

/-- No more bytes can be read than the input has a budget for. -/
theorem size_le_budget (h : inp.Reads src left) : left.size ≤ inp.budget := by
  obtain ⟨rest, -, rfl, hrest, -⟩ := h
  have hbudget : inp.total - inp.consumed ≤
      (inp.total - inp.consumed) * (inp.chunk.capacity + 1) := Nat.le_mul_of_pos_right _ (by omega)
  rw [ByteArray.size_append, size_buffered, budget]
  omega

/-- After a refill the same bytes are left, and if there are any then the
chunk has some of them. -/
theorem refill (h : inp.Reads src left) :
    ∃ inp', inp.refill src = (.ok (decide (0 < left.size)), inp') ∧ inp'.Reads src left ∧
      (0 < left.size → 0 < inp'.chunk.unread) := by
  obtain ⟨rest, hsrc, hleft, hrest, hcapacity⟩ := h
  have hsize : left.size = inp.chunk.unread + rest.size := by
    rw [hleft, ByteArray.size_append, size_buffered]
  unfold Input.refill
  by_cases hunread : inp.chunk.unread = 0
  · have hbuffered : inp.buffered = ByteArray.empty := by
      rw [← ByteArray.size_eq_zero_iff, size_buffered]
      exact hunread
    rw [hbuffered, ByteArray.empty_append] at hleft
    subst hleft
    rw [if_neg (not_not_intro hunread)]
    by_cases htotal : inp.total ≤ inp.consumed
    · have hnone : ¬0 < left.size := by omega
      rw [if_pos htotal, decide_eq_false hnone]
      refine ⟨inp, rfl, ⟨left, hsrc, ?_, hrest, hcapacity⟩, fun h => absurd h hnone⟩
      rw [hbuffered, ByteArray.empty_append]
    · rw [if_neg htotal]
      obtain ⟨r, s', hread, hr, hs'⟩ := hsrc.read hcapacity
      have hcount : r.count ≤ (inp.chunk.clear.store r.bytes).room := by
        rw [Buffer.room_store, Buffer.room_clear]
        exact hr.count_le
      have hsome : (r.count != 0) = decide (0 < left.size) := by
        have := hr.count_pos
        have := hr.count_le_size
        rw [Bool.eq_iff_iff, bne_iff_ne, decide_eq_true_iff]
        omega
      have hchunk : ((inp.chunk.clear.store r.bytes).commitRoom r.count hcount).remaining =
          left.extract 0 r.count := by
        rw [Buffer.remaining_commitRoom_store_clear _ _ hr.count_le_bytes, hr.bytes]
      simp only [Buffer.room_clear, hread, Buffer.commit, dif_pos hcount, hsome]
      refine ⟨_, rfl, ⟨_, hs', ?_, ?_, ?_⟩, ?_⟩
      · rw [buffered, hchunk, Bytes.extract_append_drop]
      · rw [Bytes.size_drop]
        simp only
        omega
      · simp only [Buffer.capacity_commitRoom_store, Buffer.capacity_clear]
        exact hcapacity
      · intro hleft
        have hpos := hr.count_pos hleft
        have hle := hr.count_le_size
        rw [← Buffer.size_remaining, hchunk, ByteArray.size_extract]
        omega
  · have hsome : 0 < left.size := by omega
    rw [if_pos hunread, decide_eq_true hsome]
    exact ⟨inp, rfl, ⟨rest, hsrc, hleft, hrest, hcapacity⟩, fun _ => Nat.pos_of_ne_zero hunread⟩

/-- Taking bytes of the chunk leaves the others. -/
theorem advanceUnread (h : inp.Reads src left) {count : Nat} (hcount : count ≤ inp.chunk.unread) :
    { inp with chunk := inp.chunk.advanceUnread count hcount }.Reads src
      (Bytes.drop left count) := by
  obtain ⟨rest, hsrc, hleft, hrest, hcapacity⟩ := h
  refine ⟨rest, hsrc, ?_, hrest, hcapacity⟩
  rw [hleft, Bytes.drop_append_left _ (by rwa [size_buffered]), buffered, buffered,
    Buffer.remaining_advanceUnread]

/-- A read answers with some of the next bytes, and the others are left. -/
theorem read (h : inp.Reads src left) (n : Nat) :
    ∃ count inp', inp.read src n = (.ok (left.extract 0 count), inp') ∧ count ≤ n ∧
      count ≤ left.size ∧ (0 < n → 0 < left.size → 0 < count) ∧
      inp'.Reads src (Bytes.drop left count) := by
  unfold Input.read
  by_cases hn : n = 0
  · rw [if_pos hn]
    refine ⟨0, inp, ?_, Nat.zero_le _, Nat.zero_le _, by omega, ?_⟩
    · rw [ByteArray.extract_same]
    · rw [Bytes.drop_zero]
      exact h
  · rw [if_neg hn]
    obtain ⟨inp', hrefill, hinp', hunread⟩ := h.refill
    rw [hrefill]
    by_cases hleft : 0 < left.size
    · have hbytes : inp'.chunk.storage.extract inp'.chunk.pos
          (inp'.chunk.pos + min inp'.chunk.unread n) =
          left.extract 0 (min inp'.chunk.unread n) := by
        obtain ⟨rest, -, hrest, -⟩ := hinp'
        rw [Buffer.extract_pos _ (Nat.min_le_left _ _), hrest,
          Bytes.extract_append_left _ (by rw [size_buffered]; exact Nat.min_le_left _ _), buffered]
      have hsize : inp'.chunk.unread ≤ left.size := by
        obtain ⟨rest, -, hrest, -⟩ := hinp'
        rw [hrest, ByteArray.size_append, size_buffered]
        omega
      simp only [decide_eq_true hleft, hbytes]
      refine ⟨_, _, rfl, Nat.min_le_right _ _, by omega, ?_, hinp'.advanceUnread _⟩
      have := hunread hleft
      omega
    · rw [decide_eq_false hleft]
      refine ⟨0, inp', ?_, Nat.zero_le _, Nat.zero_le _, fun _ h => absurd h hleft, ?_⟩
      · rw [ByteArray.extract_same]
      · rw [Bytes.drop_zero]
        exact hinp'

/-- Bytes that are there are taken, all of those that are asked for. -/
theorem takeOnto_of_le (h : inp.Reads src left) (taken : ByteArray) {need : Nat}
    (hneed : need ≤ left.size) :
    ∃ inp', inp.takeOnto src need taken = (.ok (), taken ++ left.extract 0 need, inp') ∧
      inp'.Reads src (Bytes.drop left need) := by
  -- by induction on what is still needed, of which every read has some
  induction need using Nat.strongRecOn generalizing inp left taken with
  | _ need ih =>
    rw [takeOnto]
    by_cases hzero : need = 0
    · rw [if_pos hzero, hzero, ByteArray.extract_same, ByteArray.append_empty, Bytes.drop_zero]
      exact ⟨inp, rfl, h⟩
    · rw [if_neg hzero]
      obtain ⟨count, inp', hread, hcount, hcountLeft, hpos, hinp'⟩ := h.read need
      have hsize : (left.extract 0 count).size = count := by
        rw [ByteArray.size_extract]
        omega
      have hcountPos : 0 < count := hpos (by omega) (by omega)
      obtain ⟨inp'', htake, hinp''⟩ := ih (need - count) (by omega) hinp'
        (taken ++ left.extract 0 count) (by rw [Bytes.size_drop]; omega)
      simp only [hread, hsize, if_neg (Nat.ne_of_gt hcountPos), htake]
      refine ⟨inp'', ?_, ?_⟩
      · rw [ByteArray.append_assoc, Bytes.extract_append_extract_drop left hcount]
      · rw [Bytes.drop_drop, Nat.add_sub_cancel' hcount] at hinp''
        exact hinp''

/-- An input that ends before it is not enough. -/
theorem takeOnto_of_lt (h : inp.Reads src left) (taken : ByteArray) {need : Nat}
    (hneed : left.size < need) :
    (inp.takeOnto src need taken).1 = .error .exhausted := by
  induction need using Nat.strongRecOn generalizing inp left taken with
  | _ need ih =>
    rw [takeOnto, if_neg (by omega)]
    obtain ⟨count, inp', hread, hcount, hcountLeft, hpos, hinp'⟩ := h.read need
    have hsize : (left.extract 0 count).size = count := by
      rw [ByteArray.size_extract]
      omega
    simp only [hread, hsize]
    by_cases hend : count = 0
    · rw [if_pos hend]
    · rw [if_neg hend]
      exact ih (need - count) (by omega) hinp' _ (by rw [Bytes.size_drop]; omega)

/-- Of two readings of an input neither is shorter. -/
theorem size_le_size {a b : ByteArray} (ha : inp.Reads src a) (hb : inp.Reads src b) :
    a.size ≤ b.size := by
  apply Nat.not_lt.mp
  intro hlt
  obtain ⟨inp', htake, -⟩ := ha.takeOnto_of_le ByteArray.empty (Nat.le_refl _)
  have herror := hb.takeOnto_of_lt ByteArray.empty hlt
  rw [htake] at herror
  cases herror

/-- The bytes that are left are no others. -/
theorem unique {a b : ByteArray} (ha : inp.Reads src a) (hb : inp.Reads src b) : a = b := by
  have hsize : a.size = b.size := Nat.le_antisymm (ha.size_le_size hb) (hb.size_le_size ha)
  obtain ⟨_, htakeA, -⟩ := ha.takeOnto_of_le ByteArray.empty (Nat.le_refl _)
  obtain ⟨_, htakeB, -⟩ := hb.takeOnto_of_le ByteArray.empty (Nat.le_refl _)
  rw [hsize, htakeB, ByteArray.empty_append, ByteArray.empty_append, ByteArray.extract_zero_size,
    ← hsize, ByteArray.extract_zero_size] at htakeA
  cases htakeA
  rfl

end Reads

end EfiLoader.Input
