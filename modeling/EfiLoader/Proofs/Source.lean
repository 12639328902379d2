import EfiLoader.Source
import EfiLoader.Proofs.Buffer

/-!
# EfiLoader.Proofs.Source

Sources that hand out a byte string.  Nothing is said of how many bytes one
read returns, only that they are the next ones and that there is at least one
before the end:

* `Source.Delivers` — what is asked of such a source;
* `Source.Delivers.fill` — a buffer is filled with the next bytes;
* `Source.Serves` — the same of a source whose reads may fail or return nothing;
* `Supply.delivers`, `FaultySupply.serves` — bytes in memory are such sources.
-/

namespace EfiLoader

/-! ## handing out bytes -/

/-- What a read of `n` bytes may answer if the bytes `rest` are left: some of
the next bytes, and at least one unless there are none. -/
structure ReadResult.Continues (r : ReadResult) (n : Nat) (rest : ByteArray) : Prop where
  count_le : r.count ≤ n
  count_le_size : r.count ≤ rest.size
  count_pos : 0 < rest.size → 0 < r.count
  bytes : r.bytes.extract 0 r.count = rest.extract 0 r.count

/-- From the state `s` on, the source hands out the bytes `rest` in order and
nothing after them, without failing.  `Holds` relates the states in between
to the bytes that are left then. -/
def Source.Delivers (src : Source σ) (s : σ) (rest : ByteArray) : Prop :=
  ∃ Holds : σ → ByteArray → Prop, Holds s rest ∧
    ∀ s rest n, Holds s rest → 0 < n →
      ∃ r s', src.read n s = (.ok r, s') ∧ r.Continues n rest ∧
        Holds s' (Bytes.drop rest r.count)

namespace Source.Delivers

variable {src : Source σ} {s : σ} {rest : ByteArray}

/-- A read answers with some of the bytes, and the others are left. -/
theorem read (h : src.Delivers s rest) {n : Nat} (hn : 0 < n) :
    ∃ r s', src.read n s = (.ok r, s') ∧ r.Continues n rest ∧
      src.Delivers s' (Bytes.drop rest r.count) := by
  obtain ⟨Holds, hs, hstep⟩ := h
  obtain ⟨r, s', hread, hr, hs'⟩ := hstep s rest n hs hn
  exact ⟨r, s', hread, hr, Holds, hs', hstep⟩

end Source.Delivers

/-- What a read of `n` bytes may answer if the bytes `rest` are left and it may
also return none of them: some of the next bytes. -/
structure ReadResult.Takes (r : ReadResult) (n : Nat) (rest : ByteArray) : Prop where
  count_le : r.count ≤ n
  count_le_size : r.count ≤ rest.size
  bytes : r.bytes.extract 0 r.count = rest.extract 0 r.count

/-- From the state `s` on, the source has the bytes `rest`, of which a read
returns the next ones, as many as it likes, or fails without taking any. -/
def Source.Serves (src : Source σ) (s : σ) (rest : ByteArray) : Prop :=
  ∃ Holds : σ → ByteArray → Prop, Holds s rest ∧
    ∀ s rest n, Holds s rest →
      (∃ r s', src.read n s = (.ok r, s') ∧ r.Takes n rest ∧ Holds s' (Bytes.drop rest r.count)) ∨
        ∃ e s', src.read n s = (.error e, s') ∧ Holds s' rest

/-- A read answers with some of the bytes, or fails and takes none. -/
theorem Source.Serves.read {src : Source σ} {s : σ} {rest : ByteArray} (h : src.Serves s rest)
    (n : Nat) :
    (∃ r s', src.read n s = (.ok r, s') ∧ r.Takes n rest ∧
      src.Serves s' (Bytes.drop rest r.count)) ∨
      ∃ e s', src.read n s = (.error e, s') ∧ src.Serves s' rest := by
  obtain ⟨Holds, hs, hstep⟩ := h
  cases hstep s rest n hs with
  | inl hok =>
      obtain ⟨r, s', hread, hr, hs'⟩ := hok
      exact .inl ⟨r, s', hread, hr, Holds, hs', hstep⟩
  | inr herror =>
      obtain ⟨e, s', hread, hs'⟩ := herror
      exact .inr ⟨e, s', hread, Holds, hs', hstep⟩

/-- The bytes that a read answers with are there. -/
theorem ReadResult.Takes.count_le_bytes {r : ReadResult} {n : Nat} {rest : ByteArray}
    (h : r.Takes n rest) : r.count ≤ r.bytes.size := by
  have hsize := congrArg ByteArray.size h.bytes
  have := h.count_le_size
  simp only [ByteArray.size_extract] at hsize
  omega

theorem ReadResult.Continues.takes {r : ReadResult} {n : Nat} {rest : ByteArray}
    (h : r.Continues n rest) : r.Takes n rest := ⟨h.count_le, h.count_le_size, h.bytes⟩

theorem ReadResult.Continues.count_le_bytes {r : ReadResult} {n : Nat} {rest : ByteArray}
    (h : r.Continues n rest) : r.count ≤ r.bytes.size := h.takes.count_le_bytes

/-! ## filling a buffer -/

/-- A buffer is filled with the next bytes, as far as there are any. -/
theorem Source.Delivers.fill {src : Source σ} {s : σ} {rest : ByteArray}
    (h : src.Delivers s rest) (b : Buffer) :
    ∃ b' s', src.fill b s = (.ok (), b', s') ∧
      b'.committed = b.committed ++ rest.extract 0 b.room ∧ b'.pos = b.pos ∧
      b'.capacity = b.capacity ∧ src.Delivers s' (Bytes.drop rest b.room) := by
  -- by induction on the room, which every read before the end makes smaller
  generalize hroom : b.room = room
  induction room using Nat.strongRecOn generalizing b s rest with
  | _ room ih =>
    subst hroom
    rw [Source.fill]
    by_cases hfull : b.room = 0
    · rw [if_pos hfull, hfull]
      refine ⟨b, s, rfl, ?_, rfl, rfl, ?_⟩
      · rw [ByteArray.extract_same, ByteArray.append_empty]
      · rw [Bytes.drop_zero]
        exact h
    · rw [if_neg hfull]
      obtain ⟨r, s', hread, hr, hs'⟩ := h.read (Nat.pos_of_ne_zero hfull)
      simp only [hread]
      by_cases hend : r.count = 0
      · have hrest : rest.size ≤ 0 := by
          have := hr.count_pos
          omega
        have hdrop : Bytes.drop rest b.room = Bytes.drop rest r.count := by
          rw [Bytes.drop, Bytes.drop, Bytes.extract_of_size_le _ (by omega),
            Bytes.extract_of_size_le _ (by omega)]
        rw [if_pos hend, hdrop, Bytes.extract_of_size_le _ hrest, ByteArray.append_empty]
        exact ⟨b.store r.bytes, s', rfl, Buffer.committed_store _ _, rfl,
          Buffer.size_storage_store _ _, hs'⟩
      · have hcount : r.count ≤ (b.store r.bytes).room := by
          rw [Buffer.room_store]
          exact hr.count_le
        have hroom : ((b.store r.bytes).commitRoom r.count hcount).room = b.room - r.count := by
          rw [Buffer.room_commitRoom, Buffer.room_store]
        rw [if_neg hend, dif_pos hcount]
        obtain ⟨b', s'', hfill, hcommitted, hpos, hcapacity, hs''⟩ :=
          ih (b.room - r.count) (by omega) hs' _ hroom
        refine ⟨b', s'', hfill, ?_, hpos, ?_, ?_⟩
        · rw [hcommitted, Buffer.committed_commitRoom_store _ _ hr.count_le_bytes, hr.bytes,
            ByteArray.append_assoc, Bytes.extract_append_extract_drop rest hr.count_le]
        · rw [hcapacity, Buffer.capacity_commitRoom_store]
        · rw [Bytes.drop_drop, Nat.add_sub_cancel' hr.count_le] at hs''
          exact hs''

/-! ## bytes in memory -/

/-- A read returns some of the next bytes. -/
theorem Supply.takes_read (s : Supply) (n : Nat) :
    (s.read n).1.Takes n (Bytes.drop s.bytes s.pos) := by
  have hsize : s.readSize n ≤ min n (s.bytes.size - s.pos) := by
    unfold readSize
    cases s.maxRead with
    | none => exact Nat.le_refl _
    | some most => exact Nat.min_le_left _ _
  constructor
  · exact Nat.le_trans hsize (Nat.min_le_left _ _)
  · rw [Bytes.size_drop]
    exact Nat.le_trans hsize (Nat.min_le_right _ _)
  · have hbytes : (s.read n).1.bytes = s.bytes.extract s.pos (s.pos + s.readSize n) := rfl
    have hcount : (s.read n).1.count = s.readSize n := rfl
    rw [hbytes, hcount, ByteArray.extract_extract, Bytes.extract_drop, Nat.min_self]

/-- It returns at least one, if there are any and it may. -/
theorem Supply.continues_read (s : Supply) {n : Nat} (hn : 0 < n) (h : s.maxRead ≠ some 0) :
    (s.read n).1.Continues n (Bytes.drop s.bytes s.pos) := by
  have htakes := s.takes_read n
  have hpos : 0 < s.bytes.size - s.pos → 0 < s.readSize n := by
    intro hleft
    unfold readSize
    cases hmax : s.maxRead with
    | none => exact Nat.lt_min.mpr ⟨hn, hleft⟩
    | some most =>
        have hmost : most ≠ 0 := fun hzero => h (hzero ▸ hmax)
        exact Nat.lt_min.mpr ⟨Nat.lt_min.mpr ⟨hn, hleft⟩, Nat.pos_of_ne_zero hmost⟩
  rw [← Bytes.size_drop] at hpos
  exact ⟨htakes.count_le, htakes.count_le_size, hpos, htakes.bytes⟩

/-- Bytes in memory are handed out from the position on, unless no read may
return any. -/
theorem Supply.delivers (size : Nat) {s : Supply} (h : s.maxRead ≠ some 0) :
    (Supply.source size).Delivers s (Bytes.drop s.bytes s.pos) := by
  refine ⟨fun s rest => s.maxRead ≠ some 0 ∧ rest = Bytes.drop s.bytes s.pos, ⟨h, rfl⟩, ?_⟩
  rintro s rest n ⟨hmax, rfl⟩ hn
  exact ⟨(s.read n).1, (s.read n).2, rfl, s.continues_read hn hmax, hmax, Bytes.drop_drop _ _ _⟩

/-- So are they if a read fails or if no read may return any. -/
theorem FaultySupply.serves (size : Nat) (s : FaultySupply) :
    (FaultySupply.source size).Serves s (Bytes.drop s.supply.bytes s.supply.pos) := by
  refine ⟨fun s rest => rest = Bytes.drop s.supply.bytes s.supply.pos, rfl, ?_⟩
  intro s rest n hrest
  subst hrest
  have hsucceed : (s.succeed n).1 = .ok (s.supply.read n).1 := rfl
  have hleft : Bytes.drop (Bytes.drop s.supply.bytes s.supply.pos) (s.supply.read n).1.count =
      Bytes.drop (s.succeed n).2.supply.bytes (s.succeed n).2.supply.pos := Bytes.drop_drop _ _ _
  change (∃ r s', s.read n = (.ok r, s') ∧ _) ∨ ∃ e s', s.read n = (.error e, s') ∧ _
  unfold read
  cases s.fault with
  | none => exact .inl ⟨_, _, Prod.ext hsucceed rfl, s.supply.takes_read n, hleft⟩
  | some fault =>
      by_cases hfault : s.reads = fault.1
      · simp only [if_pos hfault]
        exact .inr ⟨_, _, rfl, rfl⟩
      · simp only [if_neg hfault]
        exact .inl ⟨_, _, Prod.ext hsucceed rfl, s.supply.takes_read n, hleft⟩

end EfiLoader
