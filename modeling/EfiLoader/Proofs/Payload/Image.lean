import EfiLoader.Proofs.Lockstep.Payload
import EfiLoader.Proofs.Payload
import EfiLoader.Proofs.Recorded

/-!
# EfiLoader.Proofs.Payload.Image

Images are handed through.  Whatever length a source reports and wherever its
bytes end, an image comes out as its first bytes, up to the reported length:

* `Source.DeliversOr` — sources whose reads may fail at any point;
* `Holding.fill` — a buffer is filled with the next bytes of a file, or a read fails;
* `Fills.readRest` — the rest of a file is read into the buffer with its start;
* `unpackFile_of_image` — a failed read is the outcome, and without one the image is.
-/

namespace EfiLoader

open Log

variable {σ : Type} {src : Source σ} {E : SourceError → Prop} {s : σ} {rest file : ByteArray}

/-! ## sources that may fail -/

/-- From the state `s` on, the source has the bytes `rest`: a read returns some of the
next ones, and at least one before the end, or it fails with `E`.  Nothing is said of
what happens after a failure. -/
def Source.DeliversOr (src : Source σ) (E : SourceError → Prop) (s : σ) (rest : ByteArray) :
    Prop :=
  ∃ Holds : σ → ByteArray → Prop, Holds s rest ∧
    ∀ s rest n, Holds s rest → 0 < n →
      (∃ r s', src.read n s = (.ok r, s') ∧ r.Continues n rest ∧
        Holds s' (Bytes.drop rest r.count)) ∨
        ∃ e s', src.read n s = (.error e, s') ∧ E e

namespace Source

/-- A read answers with some of the bytes, and the others are left, or it fails. -/
theorem DeliversOr.read (h : src.DeliversOr E s rest) {n : Nat} (hn : 0 < n) :
    (∃ r s', src.read n s = (.ok r, s') ∧ r.Continues n rest ∧
      src.DeliversOr E s' (Bytes.drop rest r.count)) ∨
      ∃ e s', src.read n s = (.error e, s') ∧ E e := by
  obtain ⟨Holds, hs, hstep⟩ := h
  obtain ⟨r, s', hread, hr, hs'⟩ | hfails := hstep s rest n hs hn
  · exact .inl ⟨r, s', hread, hr, Holds, hs', hstep⟩
  · exact .inr hfails

/-- Sources that cannot fail are those that hand out their bytes. -/
theorem deliversOr_false_iff : src.DeliversOr (fun _ => False) s rest ↔ src.Delivers s rest := by
  simp [DeliversOr, Delivers]

end Source

/-- A read that fails takes nothing, and the others return some of the next bytes. -/
theorem FaultySupply.deliversOr (size : Nat) {s : FaultySupply} (h : s.supply.maxRead ≠ some 0) :
    (FaultySupply.source size).DeliversOr (fun _ => True) s
      (Bytes.drop s.supply.bytes s.supply.pos) := by
  refine ⟨fun s rest => s.supply.maxRead ≠ some 0 ∧ rest = Bytes.drop s.supply.bytes s.supply.pos,
    ⟨h, rfl⟩, ?_⟩
  rintro s rest n ⟨hmax, rfl⟩ hn
  have hleft : Bytes.drop (Bytes.drop s.supply.bytes s.supply.pos) (s.supply.read n).1.count =
      Bytes.drop (s.succeed n).2.supply.bytes (s.succeed n).2.supply.pos := Bytes.drop_drop _ _ _
  have hsucceed : s.succeed n = (.ok (s.supply.read n).1, (s.succeed n).2) := rfl
  have hread := s.supply.continues_read hn hmax
  change (∃ r s', s.read n = (.ok r, s') ∧ _) ∨ ∃ e s', s.read n = (.error e, s') ∧ _
  unfold read
  cases s.fault with
  | none => exact .inl ⟨_, _, hsucceed, hread, hmax, hleft⟩
  | some fault =>
      by_cases hfault : s.reads = fault.1
      · simp only [if_pos hfault]
        exact .inr ⟨_, _, rfl, trivial⟩
      · simp only [if_neg hfault]
        exact .inl ⟨_, _, hsucceed, hread, hmax, hleft⟩

/-! ## buffers with the start of a file -/

namespace Payload

/-- The buffer has the first bytes of the file, which are all that the reads on record
have handed out.  None of these has failed, and the source has the other bytes. -/
structure Holding (src : Source σ) (E : SourceError → Prop) (file : ByteArray) (b : Buffer)
    (t : σ × List ReadCall) : Prop where
  pos : b.pos = 0
  committed : b.committed = file.extract 0 b.len
  bytes : handed t.2 = b.committed
  passed : ∀ c ∈ t.2, c.failure? = none
  rest : src.DeliversOr E t.1 (Bytes.drop file b.len)

/-- The last read on record has failed with `e`, and it is the first one that has.
Those before it have handed out no more than the first `n` bytes of the file. -/
structure Interrupted (E : SourceError → Prop) (file : ByteArray) (n : Nat) (e : SourceError)
    (reads : List ReadCall) : Prop where
  allowed : E e
  failed : ∀ c ∈ reads, ∀ status, c.failure? = some status → status = e.status
  last : ∃ c ∈ reads, c.failure? = some e.status
  bytes : ∃ k ≤ n, handed reads = file.extract 0 k

/-- A read on record has found nothing left. -/
def Ended (reads : List ReadCall) : Prop := ∃ c ∈ reads, ∃ r, c.answer = .ok r ∧ r.count = 0

namespace Holding

variable {b : Buffer} {t : σ × List ReadCall}

theorem len_le (h : Holding src E file b t) : b.len ≤ file.size := by
  have hsize := congrArg ByteArray.size h.committed
  rw [Buffer.size_committed, ByteArray.size_extract] at hsize
  omega

/-- The bytes of a read are added to the buffer. -/
theorem take (h : Holding src E file b t) {r : ReadResult} {s' : σ}
    (hr : r.Continues b.room (Bytes.drop file b.len))
    (hs' : src.DeliversOr E s' (Bytes.drop (Bytes.drop file b.len) r.count))
    (hcount : r.count ≤ (b.store r.bytes).room) :
    Holding src E file ((b.store r.bytes).commitRoom r.count hcount)
      (s', ⟨b.room, .ok r⟩ :: t.2) := by
  have hcommitted := b.committed_commitRoom_store hcount hr.count_le_bytes
  have hpass : ReadCall.failure? ⟨b.room, .ok r⟩ = none := if_neg (Nat.not_lt.mpr hr.count_le)
  constructor
  · exact h.pos
  · have hmore := Bytes.extract_append_extract_drop file (Nat.le_add_right b.len r.count)
    rw [Nat.add_sub_cancel_left] at hmore
    rw [hcommitted, h.committed, hr.bytes, hmore]
    rfl
  · rw [hcommitted, ← h.bytes]
    rfl
  · intro c hc
    rcases List.mem_cons.mp hc with rfl | hc
    · exact hpass
    · exact h.passed c hc
  · rw [Bytes.drop_drop] at hs'
    exact hs'

/-- A failed read leaves what has been handed out. -/
theorem interrupted (h : Holding src E file b t) {e : SourceError} (he : E e) {n m : Nat}
    (hn : b.len ≤ n) : Interrupted E file n e (⟨m, .error e⟩ :: t.2) where
  allowed := he
  failed := by
    intro c hc status hstatus
    rcases List.mem_cons.mp hc with rfl | hc
    · exact (Option.some.inj hstatus).symm
    · rw [h.passed c hc] at hstatus
      cases hstatus
  last := ⟨_, List.mem_cons_self, rfl⟩
  bytes := by
    refine ⟨b.len, hn, ?_⟩
    have hnone : handed (⟨m, .error e⟩ :: t.2) = handed t.2 ++ ByteArray.empty := rfl
    rw [hnone, ByteArray.append_empty, h.bytes, h.committed]

/-- A buffer is filled with the next bytes of the file until it is full or has all of
them, unless a read fails. -/
theorem fill (h : Holding src E file b t) :
    (∃ b' t', src.recorded.fill b t = (.ok (), b', t') ∧ Holding src E file b' t' ∧
      b'.capacity = b.capacity ∧ b'.len = min b.capacity file.size ∧
      (b'.len < b'.capacity → Ended t'.2)) ∨
      ∃ e b' t', src.recorded.fill b t = (.error (.source e), b', t') ∧
        Interrupted E file b.capacity e t'.2 := by
  -- by induction on the room, which every read before the end makes smaller
  generalize hroom : b.room = room
  induction room using Nat.strongRecOn generalizing b t with
  | _ room ih =>
    subst hroom
    have hlen := h.len_le
    have hcapacity : b.capacity = b.len + b.room := (Nat.add_sub_cancel' b.len_le).symm
    rw [Source.fill]
    by_cases hfull : b.room = 0
    · rw [if_pos hfull]
      exact .inl ⟨b, t, rfl, h, rfl, by omega, by omega⟩
    · rw [if_neg hfull]
      obtain ⟨r, s', hread, hr, hs'⟩ | ⟨e, s', hread, he⟩ :=
        h.rest.read (Nat.pos_of_ne_zero hfull)
      · have hcount : r.count ≤ (b.store r.bytes).room := by
          rw [Buffer.room_store]
          exact hr.count_le
        have htake := h.take hr hs' hcount
        simp only [Source.recorded, hread]
        by_cases hend : r.count = 0
        · have hall : file.size ≤ b.len := by
            have hleft := hr.count_pos
            rw [Bytes.size_drop] at hleft
            omega
          have hsame : (b.store r.bytes).commitRoom r.count hcount = b.store r.bytes := by
            simp [Buffer.commitRoom, hend]
          rw [hsame] at htake
          rw [if_pos hend]
          refine .inl ⟨_, _, rfl, htake, Buffer.size_storage_store _ _, ?_, fun _ =>
            ⟨_, List.mem_cons_self, r, rfl, hend⟩⟩
          change b.len = _
          omega
        · rw [if_neg hend, dif_pos hcount]
          have hless : ((b.store r.bytes).commitRoom r.count hcount).room < b.room := by
            rw [Buffer.room_commitRoom, Buffer.room_store]
            omega
          have hsame := b.capacity_commitRoom_store r.bytes r.count hcount
          have hfilled := ih _ hless htake rfl
          rw [hsame] at hfilled
          exact hfilled
      · simp only [Source.recorded, hread]
        exact .inr ⟨e, b, _, rfl, h.interrupted he (by omega)⟩

/-- So is a buffer that has been grown. -/
theorem grow [Allocator] (h : Holding src E file b t) {b' : Buffer} {n : Nat}
    (hgrow : b.grow n = .ok b') :
    Holding src E file b' t := by
  obtain ⟨hcommitted, hpos, -⟩ := Buffer.committed_of_grow hgrow
  have hlen : b'.len = b.len := by
    rw [← b'.size_committed, hcommitted, b.size_committed]
  exact ⟨hpos.trans h.pos, by rw [hcommitted, hlen, h.committed], by rw [hcommitted, h.bytes],
    h.passed, by rw [hlen]; exact h.rest⟩

end Holding

/-! ## unpacking -/

/-- From the state `t`, the computation makes a buffer for `n` bytes and fills it with
the first bytes of the file, until a read finds nothing left if there are fewer.  Or it
ends with a read that has failed. -/
def Fills (src : Source σ) (E : SourceError → Prop) (file : ByteArray) (n : Nat)
    (m : Unpack (σ × List ReadCall) Buffer) (t : σ × List ReadCall) : Prop :=
  (∃ b t', (m t).value = (.ok b, t') ∧ Holding src E file b t' ∧ b.capacity = n ∧
    b.len = min n file.size ∧ (b.len < n → Ended t'.2)) ∨
    ∃ e t', (m t).value = (.error (.read (.source e)), t') ∧ Interrupted E file n e t'.2

namespace Fills

variable {b : Buffer} {t : σ × List ReadCall} {n : Nat} {m : Unpack (σ × List ReadCall) Buffer}

theorem of_fill (h : Holding src E file b t) :
    Fills src E file b.capacity (fill src.recorded b) t := by
  obtain ⟨b', t', hfill, hholding, hcapacity, hlen, hended⟩ |
    ⟨e, b', t', hfill, hinterrupted⟩ := h.fill
  · refine .inl ⟨b', t', ?_, hholding, hcapacity, hlen, hcapacity ▸ hended⟩
    rw [fill, hfill]
    rfl
  · refine .inr ⟨e, t', ?_, hinterrupted⟩
    rw [fill, hfill]
    rfl

/-- What follows goes on with the buffer, and is not run after a failed read. -/
theorem bind {k : Nat} {f : Buffer → Unpack (σ × List ReadCall) Buffer}
    (h : Fills src E file k m t) (hk : k ≤ n)
    (hf : ∀ b t', Holding src E file b t' → b.capacity = k → b.len = min k file.size →
      (b.len < k → Ended t'.2) → Fills src E file n (f b) t') : Fills src E file n (m >>= f) t := by
  obtain ⟨b, t', hm, hholding, hcapacity, hlen, hended⟩ | ⟨e, t', hm, hinterrupted⟩ := h
  · have hnext := hf b t' hholding hcapacity hlen hended
    unfold Fills at hnext ⊢
    rwa [Unpack.value_bind_of_ok hm]
  · obtain ⟨j, hj, hbytes⟩ := hinterrupted.bytes
    exact .inr ⟨e, t', Unpack.value_bind_of_error hm,
      { hinterrupted with bytes := ⟨j, Nat.le_trans hj hk, hbytes⟩ }⟩

/-- What follows may also do nothing but write log lines. -/
theorem bind_of_logged {f : Buffer → Unpack (σ × List ReadCall) Buffer} (h : Fills src E file n m t)
    (hf : ∀ b t', (f b t').value = (.ok b, t')) : Fills src E file n (m >>= f) t :=
  h.bind (Nat.le_refl _) fun b t' hb hcapacity hlen hended =>
    .inl ⟨b, t', hf b t', hb, hcapacity, hlen, hended⟩

/-- Log lines make no difference. -/
theorem of_value_eq {m' : Unpack (σ × List ReadCall) Buffer} (h : Fills src E file n m t)
    (hm : (m' t).value = (m t).value) : Fills src E file n m' t := by
  unfold Fills at h ⊢
  rwa [hm]

end Fills

section

variable {b : Buffer} {t : σ × List ReadCall}

/-- A buffer without bytes has the start of every file. -/
theorem Holding.start (h : src.DeliversOr E s file) {b : Buffer} (hpos : b.pos = 0)
    (hcommitted : b.committed = ByteArray.empty) : Holding src E file b (s, []) := by
  have hlen : b.len = 0 := by
    rw [← b.size_committed, hcommitted]
    rfl
  refine ⟨hpos, ?_, hcommitted.symm, fun c hc => (List.not_mem_nil hc).elim, ?_⟩
  · rw [hcommitted, hlen, ByteArray.extract_same]
  · rw [hlen, Bytes.drop_zero]
    exact h

/-- The first chunk is filled with the first bytes. -/
theorem Fills.readChunk [Allocator] (h : src.DeliversOr E s file)
    (hmemory : Allocator.grants src.size) :
    Fills src E file (min src.size maxChunk) (readChunk src.recorded) (s, []) := by
  have hchunk : Allocator.grants (min src.size maxChunk) :=
    Allocator.grants_of_le (Nat.min_le_left _ _) hmemory
  obtain ⟨b, hallocate, hcommitted, hpos, hcapacity, -⟩ := Buffer.allocate_eq_ok hchunk
  have hfill := Fills.of_fill (Holding.start h hpos hcommitted)
  rw [hcapacity] at hfill
  have hread := hfill.bind_of_logged (f := fun b => do
    note (Component.payload.debug s!"read: {b.len}")
    return b) fun _ _ => rfl
  have hsize : src.recorded.size = src.size := rfl
  refine hread.of_value_eq ?_
  rw [Payload.readChunk, hsize]
  simp only [hallocate]
  rw [Unpack.value_note_bind]

/-- The rest of the file is read into the buffer with its start. -/
theorem Fills.readRest [Allocator] (h : Holding src E file b t) {total : Nat}
    (hcapacity : b.capacity ≤ total) (hlen : b.len = min b.capacity file.size)
    (hmemory : Allocator.grants total) :
    Fills src E file total (readRest src.recorded b total) t := by
  unfold Payload.readRest
  by_cases hmore : b.len < total
  · obtain ⟨b', hgrow⟩ := Buffer.grow_eq_ok (b := b) (.inr hmemory)
    have hfill := Fills.of_fill (h.grow hgrow)
    rw [Buffer.capacity_of_grow hcapacity hgrow] at hfill
    rwa [if_pos hmore, hgrow]
  · rw [if_neg hmore]
    have hle : b.len ≤ b.capacity := b.len_le
    exact .inl ⟨b, t, rfl, h, by omega, by omega, fun hless => absurd hless hmore⟩

/-- An image is handed through. -/
theorem Fills.handThrough [Allocator] (h : Holding src E file b t) {total : Nat}
    (hcapacity : b.capacity ≤ total) (hlen : b.len = min b.capacity file.size)
    (hmemory : Allocator.grants total) :
    Fills src E file total (handThrough src.recorded b total) t := by
  refine (Fills.readRest h hcapacity hlen hmemory).bind_of_logged fun b' t' => ?_
  by_cases hshort : b'.len < total
  · rw [if_pos hshort]
    rfl
  · rw [if_neg hshort]
    rfl

end

/-! ## formats -/

/-- What starts with the two bytes of an image is of none of the other formats. -/
theorem detect?_of_image {bytes : ByteArray} (h : bytes.extract 0 2 = [0x4D, 0x5A].toByteArray) :
    Format.detect? bytes = some .image := by
  have hfirst : (bytes.extract 0 4).data.toList.take 2 = [0x4D, 0x5A] := by
    have hlist := congrArg (fun b : ByteArray => b.data.toList) h
    simp only [ByteArray.data_extract, Array.toList_extract, List.extract_eq_take_drop] at hlist ⊢
    simpa [List.take_take] using hlist
  obtain ⟨tail, htail⟩ : ∃ tail, (bytes.extract 0 4).data.toList = 0x4D :: 0x5A :: tail :=
    ⟨_, by rw [← List.take_append_drop 2 (bytes.extract 0 4).data.toList, hfirst]; rfl⟩
  rw [Format.detect?, htail]
  rfl

/-! ## files -/

/-- A file that starts as an image does is read whole, up to the size of the source. -/
theorem Fills.unpackFile [Allocator] [Zstd.Decoder] (h : src.DeliversOr E s file)
    (hmagic : file.extract 0 2 = [0x4D, 0x5A].toByteArray) (hsize : 2 ≤ src.size)
    (hmemory : Allocator.grants src.size) :
    Fills src E file src.size (unpackFile src.recorded) (s, []) := by
  have hsame : src.recorded.size = src.size := rfl
  have hfile : 2 ≤ file.size := by
    have hbytes := congrArg ByteArray.size hmagic
    have htwo : [0x4D, 0x5A].toByteArray.size = 2 := rfl
    rw [ByteArray.size_extract, htwo] at hbytes
    omega
  unfold Payload.unpackFile
  rw [hsame, if_neg (by omega)]
  refine (Fills.readChunk h hmemory).bind (Nat.min_le_left _ _) fun b t hb hcapacity hlen _ => ?_
  have htwo : 2 ≤ b.len := by
    rw [hlen, maxChunk]
    omega
  have hempty : b.isEmpty = false := by
    rw [Buffer.isEmpty, beq_eq_false_iff_ne]
    omega
  have hformat : Format.detect? b.remaining = some .image := by
    refine detect?_of_image ?_
    rw [Buffer.remaining_of_pos hb.pos, hb.committed, ByteArray.extract_extract, Nat.zero_add,
      Nat.zero_add, Nat.min_eq_left htwo, hmagic]
  have hhanded := Fills.handThrough hb (hcapacity ▸ Nat.min_le_left _ _) (hcapacity ▸ hlen) hmemory
  unfold unpack
  rw [hempty, hformat]
  exact hhanded.bind_of_logged fun _ _ => rfl

/-- **Images are handed through.**  Let a source have the bytes of a file that starts as
an image does, and let there be memory for as many bytes as it says it has, which may be
more or fewer than there are.  If no read fails, the outcome is the file up to that many
bytes, with the cursor at the start, and the source has the others.  If reads may fail,
the outcome is what it would be without a record of them, and what they hand out are
first bytes of the file, never more than that many; a read that has failed gives the
outcome its status, and if none has, the file is handed through and, where it ends
early, its end has been seen. -/
theorem unpackFile_of_image [Allocator] [Zstd.Decoder]
    (hmagic : file.extract 0 2 = [0x4D, 0x5A].toByteArray) (hsize : 2 ≤ src.size)
    (hmemory : Allocator.grants src.size) :
    (src.Delivers s file →
      ∃ b s', (unpackFile src s).value = (.ok b, s') ∧ b.pos = 0 ∧
        b.committed = file.extract 0 (min src.size file.size) ∧
        src.Delivers s' (Bytes.drop file src.size)) ∧
    (src.DeliversOr (fun _ => True) s file →
      let run := (unpackFile src.recorded (s, [])).value
      run.1 = (unpackFile src s).value.1 ∧
      (∃ k ≤ src.size, handed run.2.2 = file.extract 0 k) ∧
      (∀ c ∈ run.2.2, ∀ status, c.failure? = some status →
        ∃ e, run.1 = .error e ∧ Fault.status e = status) ∧
      ((∀ c ∈ run.2.2, c.failure? = none) →
        ∃ b, run.1 = .ok b ∧ b.pos = 0 ∧
          b.committed = file.extract 0 (min src.size file.size) ∧
          (file.size < src.size → Ended run.2.2))) := by
  obtain ⟨-, hanswer, -, hleft⟩ := maintains_unpackFile src.keeps_recorded (fun _ => trivial)
    s (s, []) rfl
  constructor
  · intro hdelivers
    obtain ⟨b, t, hrun, hb, -, hlen, -⟩ | ⟨e, t, -, hinterrupted⟩ :=
      Fills.unpackFile (Source.deliversOr_false_iff.mpr hdelivers) hmagic hsize hmemory
    · have hplain : (unpackFile src s).value.1 = .ok b := hanswer.trans (congrArg Prod.fst hrun)
      have hstate : (unpackFile src s).value.2 = t.1 :=
        hleft.symm.trans (congrArg (fun r => r.2.1) hrun)
      have hrest : Bytes.drop file b.len = Bytes.drop file src.size := by
        by_cases hfile : src.size ≤ file.size
        · rw [hlen, Nat.min_eq_left hfile]
        · rw [Bytes.drop, Bytes.drop, Bytes.extract_of_size_le _ (by omega),
            Bytes.extract_of_size_le _ (by omega)]
      refine ⟨b, t.1, Prod.ext hplain hstate, hb.pos, hlen ▸ hb.committed, ?_⟩
      rw [← hrest]
      exact Source.deliversOr_false_iff.mp hb.rest
    · exact hinterrupted.allowed.elim
  · intro hdelivers
    dsimp only
    refine ⟨hanswer.symm, ?_⟩
    obtain ⟨b, t, hrun, hb, -, hlen, hended⟩ | ⟨e, t, hrun, hinterrupted⟩ :=
      Fills.unpackFile hdelivers hmagic hsize hmemory
    · rw [hrun]
      refine ⟨⟨b.len, by omega, hb.bytes.trans hb.committed⟩, ?_, fun _ => ?_⟩
      · intro c hc status hstatus
        rw [hb.passed c hc] at hstatus
        cases hstatus
      · exact ⟨b, rfl, hb.pos, hlen ▸ hb.committed, fun hless => hended (by omega)⟩
    · rw [hrun]
      refine ⟨hinterrupted.bytes, ?_, fun hnone => ?_⟩
      · intro c hc status hstatus
        exact ⟨_, rfl, (hinterrupted.failed c hc status hstatus).symm⟩
      · obtain ⟨c, hc, hfailure⟩ := hinterrupted.last
        rw [hnone c hc] at hfailure
        cases hfailure

/-- An image of five bytes, two at a time, from a source that says it has seven.  It is
handed through, unless the second read fails. -/
theorem unpackFile_of_image_short :
    let _ := Allocator.unlimited
    let _ := Zstd.Blocks.decoder
    let image := [0x4D, 0x5A, 1, 2, 3].toByteArray
    let supply : Supply := { bytes := image, maxRead := some 2 }
    let run := (unpackFile (FaultySupply.source 7).recorded
      ({ supply, fault := some (1, Status.timeout) }, [])).value
    image.extract 0 2 = [0x4D, 0x5A].toByteArray ∧ (2 ≤ 7 ∧ Allocator.grants 7) ∧
      (∃ b s', (unpackFile (Supply.source 7) supply).value = (.ok b, s') ∧ b.pos = 0 ∧
        b.committed = image) ∧
      ∃ e, run.1 = .error e ∧ Fault.status e = Status.timeout := by
  intro _ _ image supply run
  have hmagic : image.extract 0 2 = [0x4D, 0x5A].toByteArray := by decide
  have hdelivers : (Supply.source 7).Delivers supply image := by
    have h := Supply.delivers 7 (s := supply) (by decide)
    rwa [Bytes.drop_zero] at h
  have hfaulty : (FaultySupply.source 7).DeliversOr (fun _ => True)
      { supply, fault := some (1, Status.timeout) } image := by
    have h := FaultySupply.deliversOr 7
      (s := { supply, fault := some (1, Status.timeout) }) (by decide)
    rwa [Bytes.drop_zero] at h
  refine ⟨hmagic, ⟨by decide, by decide⟩, ?_, ?_⟩
  · obtain ⟨b, s', hrun, hpos, hbytes, -⟩ :=
      (unpackFile_of_image hmagic (by decide) (by decide)).1 hdelivers
    exact ⟨b, s', hrun, hpos, hbytes.trans (by decide)⟩
  · obtain ⟨-, -, hfails, -⟩ :=
      (unpackFile_of_image hmagic (by decide) (by decide)).2 hfaulty
    have hfailed : ∃ c ∈ run.2.2, c.failure? = some Status.timeout := by decide +kernel
    obtain ⟨c, hc, hfailure⟩ := hfailed
    exact hfails c hc _ hfailure

end Payload

end EfiLoader
