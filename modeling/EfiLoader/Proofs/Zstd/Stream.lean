import EfiLoader.Zstd.Frame
import EfiLoader.Proofs.Buffer
import EfiLoader.Proofs.Except
import EfiLoader.Proofs.Zstd.Decoding

/-!
# EfiLoader.Proofs.Zstd.Stream

Frames from a decoder that hands out the content in pieces.  A buffer of the
declared size is filled with the pieces, then one more byte is asked for:

* `Decoder.Yields`, `Decoder.Decodes` — what is asked of a decoder;
* `Frame.fill_of_yields` — what the loop leaves in the buffer;
* `Frame.stream_of_decodes` — what streaming comes to;
* `Frame.settle_of_decodes` — and what is made of it, with the reads that have failed.
-/

namespace EfiLoader.Zstd

open Decoding

/-! ## checks -/

/-- The checksums, where there are both, are the same. -/
def Checksums.Agrees (sums : Checksums) : Prop :=
  ∀ expected actual, sums.stored = some expected → sums.computed = some actual → actual = expected

namespace Frame

/-- A content in the buffer passes the checks if it has the size that was
declared and the checksum that is stored. -/
theorem check_eq_ok_iff {size : Nat} {b : Buffer} {sums : Checksums} {out : ByteArray} :
    check size b sums = .ok out ↔ b.len = size ∧ out = b.committed ∧ sums.Agrees := by
  unfold check Checksums.Agrees
  by_cases hsize : b.len ≠ size
  · rw [if_pos hsize]
    simp [hsize]
  · rw [if_neg hsize]
    rw [Decidable.not_not] at hsize
    cases sums.stored with
    | none => simp [hsize, eq_comm]
    | some expected =>
        cases sums.computed with
        | none => simp [hsize, eq_comm]
        | some actual =>
            by_cases hequal : actual ≠ expected
            · simp [hequal]
            · rw [Decidable.not_not] at hequal
              simp [hsize, hequal, eq_comm]

theorem status_of_check {size : Nat} {b : Buffer} {sums : Checksums} {e : FrameError}
    (h : check size b sums = .error e) : Fault.status e = Status.compromisedData := by
  unfold check at h
  by_cases hsize : b.len ≠ size
  · rw [if_pos hsize] at h
    cases h
    rfl
  · rw [if_neg hsize] at h
    cases hstored : sums.stored with
    | none => simp [hstored] at h
    | some expected =>
        cases hcomputed : sums.computed with
        | none => simp [hstored, hcomputed] at h
        | some actual =>
            by_cases hequal : actual ≠ expected
            · simp only [hstored, hcomputed, if_pos hequal] at h
              cases h
              rfl
            · simp [hstored, hcomputed, hequal] at h

/-- If no read has failed then there is a content or the data is damaged. -/
theorem status_settle {size : Nat} {streamed : Except StreamError Checksums × Buffer}
    {e : FrameError} (h : settle size none streamed = .error e) :
    Fault.status e = Status.compromisedData := by
  obtain ⟨_ | sums, b⟩ := streamed
  · cases h
    rfl
  · exact status_of_check h

end Frame

variable {σ : Type} {src : Source σ} [Decoder]

/-! ## decoders that yield a content -/

namespace Decoder

/-- From the session `d` and the input of `f` on, repeated reads of any sizes
yield the bytes `content` in pieces, and then no bytes, or, if `ending` is
`none`, an error there or before. -/
def Yields (src : Source σ) (ending : Option Checksums) (d : Session) (f : Feed σ)
    (content : ByteArray) : Prop :=
  ∃ Holds : Session → Feed σ → ByteArray → Prop, Holds d f content ∧
    ∀ d f rest n, Holds d f rest → 0 < n →
      (∃ piece rest' d' f', (read n d).run.run src f = (some (piece, d'), f') ∧
        rest = piece ++ rest' ∧ 0 < piece.size ∧ piece.size ≤ n ∧ Holds d' f' rest') ∨
      (∃ d' f', (read n d).run.run src f = (some (ByteArray.empty, d'), f') ∧
        rest = ByteArray.empty ∧ ending = some (checksums d') ∧ Holds d' f' ByteArray.empty) ∨
      ∃ f', (read n d).run.run src f = (none, f') ∧ ending = none

/-- The decoder yields the bytes `content` of the frame at the start of an
input, and it ends with the checksums `ending`.  If `ending` is `none` then the
frame does not decode. -/
inductive Decodes (src : Source σ) (inp : Input σ) (content : ByteArray) :
    Option Checksums → Prop
  | start {ending : Option Checksums} {d : Session} {f : Feed σ}
      (h : start.run.run src { input := inp } = (some d, f))
      (yields : Yields src ending d f content) : Decodes src inp content ending
  | error {f : Feed σ} (h : start.run.run src { input := inp } = (none, f)) :
      Decodes src inp content none

/-- A read yields a piece, or nothing at the end, or an error. -/
theorem Yields.read {ending : Option Checksums} {d : Session} {f : Feed σ} {content : ByteArray}
    (h : Yields src ending d f content) {n : Nat} (hn : 0 < n) :
    (∃ piece rest d' f', (Decoder.read n d).run.run src f = (some (piece, d'), f') ∧
      content = piece ++ rest ∧ 0 < piece.size ∧ piece.size ≤ n ∧ Yields src ending d' f' rest) ∨
    (∃ d' f', (Decoder.read n d).run.run src f = (some (ByteArray.empty, d'), f') ∧
      content = ByteArray.empty ∧ ending = some (checksums d') ∧
      Yields src ending d' f' ByteArray.empty) ∨
    ∃ f', (Decoder.read n d).run.run src f = (none, f') ∧ ending = none := by
  obtain ⟨Holds, hstart, hstep⟩ := h
  rcases hstep d f content n hstart hn with
    ⟨piece, rest, d', f', hread, hcontent, hpos, hsize, hholds⟩ |
      ⟨d', f', hread, hcontent, hend, hholds⟩ | herror
  · exact .inl ⟨piece, rest, d', f', hread, hcontent, hpos, hsize, Holds, hholds, hstep⟩
  · exact .inr (.inl ⟨d', f', hread, hcontent, hend, Holds, hholds, hstep⟩)
  · exact .inr (.inr herror)

end Decoder

namespace Frame

/-! ## the loop -/

section

variable {b : Buffer} {d d' : Decoder.Session} {f f' : Feed σ} {piece : ByteArray}

theorem run_fill_of_full (h : b.room = 0) : (fill b d).run src f = ((.ok d, b), f) := by
  rw [fill, if_pos h]
  rfl

theorem run_fill_of_none (hroom : b.room ≠ 0)
    (h : (Decoder.read b.room d).run.run src f = (none, f')) :
    (fill b d).run src f = ((.error .content, b), f') := by
  rw [fill, if_neg hroom, run_bind_of_run h]
  rfl

/-- What the loop makes of the bytes of a read. -/
theorem run_fill_of_some (hroom : b.room ≠ 0)
    (h : (Decoder.read b.room d).run.run src f = (some (piece, d'), f')) :
    (fill b d).run src f =
      if piece.size = 0 then ((.ok d', b), f')
      else if h : piece.size ≤ (b.store piece).room then
        (fill ((b.store piece).commitRoom piece.size h) d').run src f'
      else ((.error .overlong, b.store piece), f') := by
  rw [fill, if_neg hroom, run_bind_of_run h]
  by_cases hend : piece.size = 0
  · simp only [if_pos hend]
    rfl
  · simp only [if_neg hend]
    by_cases hfits : piece.size ≤ (b.store piece).room
    · simp only [dif_pos hfits]
    · simp only [dif_neg hfits]
      rfl

/-- A piece is added to the buffer, and the loop goes on. -/
theorem run_fill_of_piece (h : (Decoder.read b.room d).run.run src f = (some (piece, d'), f'))
    (hpos : 0 < piece.size) (hsize : piece.size ≤ b.room) :
    ∃ b', (fill b d).run src f = (fill b' d').run src f' ∧
      b'.committed = b.committed ++ piece ∧ b'.room = b.room - piece.size := by
  have hfits : piece.size ≤ (b.store piece).room := by
    rw [Buffer.room_store]
    exact hsize
  refine ⟨(b.store piece).commitRoom piece.size hfits, ?_, ?_, ?_⟩
  · rw [run_fill_of_some (by omega) h, if_neg (Nat.ne_of_gt hpos), dif_pos hfits]
  · rw [Buffer.committed_commitRoom_store _ _ (Nat.le_refl _), ByteArray.extract_zero_size]
  · rw [Buffer.room_commitRoom, Buffer.room_store]

end

/-- However the loop ends, the buffer has as much storage as it had. -/
theorem capacity_fill (src : Source σ) (b : Buffer) (d : Decoder.Session) (f : Feed σ) :
    ((fill b d).run src f).1.2.capacity = b.capacity := by
  -- by induction on the room, as the buffer is filled
  generalize hroom : b.room = room
  induction room using Nat.strongRecOn generalizing b d f with
  | _ room ih =>
    subst hroom
    by_cases hfull : b.room = 0
    · rw [run_fill_of_full hfull]
    · rcases hread : (Decoder.read b.room d).run.run src f with ⟨_ | ⟨piece, d'⟩, f'⟩
      · rw [run_fill_of_none hfull hread]
      · rw [run_fill_of_some hfull hread]
        by_cases hend : piece.size = 0
        · rw [if_pos hend]
        · rw [if_neg hend]
          by_cases hfits : piece.size ≤ (b.store piece).room
          · have hless : ((b.store piece).commitRoom piece.size hfits).room < b.room := by
              rw [Buffer.room_store] at hfits
              rw [Buffer.room_commitRoom, Buffer.room_store]
              omega
            rw [dif_pos hfits, ih _ hless _ _ _ rfl, Buffer.capacity_commitRoom_store]
          · rw [dif_neg hfits]
            exact Buffer.size_storage_store b piece

/-- However streaming ends, the buffer has as much storage as it had. -/
theorem capacity_stream (src : Source σ) (b : Buffer) (f : Feed σ) :
    ((stream b).run src f).1.2.capacity = b.capacity := by
  unfold stream
  rcases hstart : Decoder.start.run.run src f with ⟨_ | d, f₁⟩
  · rw [run_bind_of_run hstart]
    rfl
  · have hcapacity := capacity_fill src b d f₁
    rw [run_bind_of_run hstart]
    rcases hfill : (fill b d).run src f₁ with ⟨⟨_ | d', b'⟩, f₂⟩
    · rw [hfill] at hcapacity
      rw [run_bind_of_run hfill]
      exact hcapacity
    · rw [hfill] at hcapacity
      rw [run_bind_of_run hfill, run_bind]
      exact hcapacity

/-- No more is written than there is storage for. -/
theorem len_stream_le (src : Source σ) (b : Buffer) (f : Feed σ) :
    ((stream b).run src f).1.2.len ≤ b.capacity := by
  rw [← capacity_stream src b f]
  exact Buffer.len_le _

section

variable {ending : Option Checksums} {d : Decoder.Session} {f : Feed σ} {content : ByteArray}

/-- The loop fills the buffer with the next bytes of the content, as far as
there are any, or ends with an error. -/
theorem fill_of_yields (h : Decoder.Yields src ending d f content) (b : Buffer) :
    (∃ d' b' f', (fill b d).run src f = ((.ok d', b'), f') ∧
      b'.committed = b.committed ++ content.extract 0 b.room ∧
      Decoder.Yields src ending d' f' (Bytes.drop content b.room)) ∨
    ∃ e b' f', (fill b d).run src f = ((.error e, b'), f') ∧ ending = none := by
  -- by induction on the room, which every piece makes smaller
  generalize hroom : b.room = room
  induction room using Nat.strongRecOn generalizing b d f content with
  | _ room ih =>
    subst hroom
    by_cases hfull : b.room = 0
    · rw [hfull, ByteArray.extract_same, ByteArray.append_empty, Bytes.drop_zero]
      exact .inl ⟨d, b, f, run_fill_of_full hfull, rfl, h⟩
    · rcases h.read (Nat.pos_of_ne_zero hfull) with
        ⟨piece, rest, d', f', hread, hcontent, hpos, hsize, hrest⟩ |
          ⟨d', f', hread, hcontent, -, hrest⟩ | ⟨f', hread, hend⟩
      · obtain ⟨b', hfill, hnew, hroom⟩ := run_fill_of_piece hread hpos hsize
        have hparts : content.extract 0 b.room = piece ++ rest.extract 0 (b.room - piece.size) := by
          rw [hcontent]
          exact Bytes.extract_append_size rest (by omega)
        have hdrop : Bytes.drop content b.room = Bytes.drop rest (b.room - piece.size) := by
          have htwo := Bytes.drop_drop content piece.size (b.room - piece.size)
          rw [Nat.add_sub_cancel' hsize, hcontent, Bytes.drop_append rest rfl] at htwo
          rw [hcontent, htwo]
        rw [hfill, hparts, hdrop, ← ByteArray.append_assoc, ← hnew]
        exact ih _ (by omega) hrest b' hroom
      · have hnone : content.size ≤ 0 := by simp [hcontent]
        refine .inl ⟨d', b, f', ?_, ?_, ?_⟩
        · rw [run_fill_of_some hfull hread, if_pos ByteArray.size_empty]
        · rw [Bytes.extract_of_size_le _ hnone, ByteArray.append_empty]
        · rw [Bytes.drop, Bytes.extract_of_size_le _ (by omega)]
          exact hrest
      · exact .inr ⟨_, b, f', run_fill_of_none hfull hread, hend⟩

/-- Behind all of the content there is not one byte more. -/
theorem probe_of_yields (h : Decoder.Yields src ending d f content) :
    (∃ sums f', (probe d).run src f = (.ok sums, f') ∧ ending = some sums ∧ content.size = 0) ∨
    ∃ e f', (probe d).run src f = (.error e, f') ∧ (ending = none ∨ 0 < content.size) := by
  unfold probe
  rcases h.read Nat.one_pos with
    ⟨piece, rest, d', f', hread, hcontent, hpos, -, -⟩ |
      ⟨d', f', hread, hcontent, hend, -⟩ | ⟨f', hread, hend⟩
  · have hsize := congrArg ByteArray.size hcontent
    rw [ByteArray.size_append] at hsize
    rw [run_bind_of_run hread]
    simp only [if_pos (Nat.ne_of_gt hpos)]
    exact .inr ⟨_, f', rfl, .inr (by omega)⟩
  · rw [run_bind_of_run hread]
    exact .inl ⟨_, f', rfl, hend, by rw [hcontent, ByteArray.size_empty]⟩
  · rw [run_bind_of_run hread]
    exact .inr ⟨_, f', rfl, .inl hend⟩

/-- Streaming leaves all of a content that fits in the buffer, and then there is
not one byte more.  Otherwise it ends with an error. -/
theorem stream_of_decodes {inp : Input σ} (h : Decoder.Decodes src inp content ending)
    (b : Buffer) :
    (∃ sums b' f', ending = some sums ∧ content.size ≤ b.room ∧
      (stream b).run src { input := inp } = ((.ok sums, b'), f') ∧
      b'.committed = b.committed ++ content) ∨
    ∃ e b' f', (ending = none ∨ b.room < content.size) ∧
      (stream b).run src { input := inp } = ((.error e, b'), f') := by
  unfold stream
  cases h with
  | error hstart =>
      rw [run_bind_of_run hstart]
      exact .inr ⟨_, _, _, .inl rfl, rfl⟩
  | start hstart hyields =>
      rw [run_bind_of_run hstart]
      cases fill_of_yields hyields b with
      | inr herror =>
          obtain ⟨e, b', f', hfill, hend⟩ := herror
          rw [run_bind_of_run hfill]
          exact .inr ⟨e, b', f', .inl hend, rfl⟩
      | inl hok =>
          obtain ⟨d', b', f', hfill, hcommitted, hleft⟩ := hok
          rw [run_bind_of_run hfill]
          rcases probe_of_yields hleft with
            ⟨sums, f'', hprobe, hend, hdrop⟩ | ⟨e, f'', hprobe, hreason⟩
          · rw [Bytes.size_drop] at hdrop
            have hall : content.extract 0 b.room = content := Bytes.extract_of_le (by omega)
            rw [hall] at hcommitted
            rw [run_bind_of_run hprobe]
            exact .inl ⟨sums, b', f'', hend, by omega, rfl, hcommitted⟩
          · rw [Bytes.size_drop] at hreason
            rw [run_bind_of_run hprobe]
            exact .inr ⟨e, b', f'', hreason.imp_right fun h => by omega, rfl⟩

end

/-! ## what streaming comes to -/

/-- What decoding comes to if there is memory for the content. -/
theorem value_decode [Allocator] {inp : Input σ} {size : Nat} {b : Buffer}
    (hsize : contentSize inp.buffered = .ok size) (hmemory : Buffer.allocate size = .ok b) :
    (decode src inp).value =
      (settle size ((stream b).run src { input := inp }).2.failed
        ((stream b).run src { input := inp }).1,
        ((stream b).run src { input := inp }).2.input) := by
  unfold decode
  simp only [hsize, hmemory]
  rfl

/-- There is a content exactly if no read has failed and the frame decodes to as
many bytes as it declares, with the checksum that it stores. -/
theorem settle_of_decodes {inp : Input σ} {content : ByteArray} {ending : Option Checksums}
    (h : Decoder.Decodes src inp content ending) {b : Buffer} {size : Nat}
    (hempty : b.committed = ByteArray.empty) (hroom : b.room = size)
    {streamed : Except StreamError Checksums × Buffer} {f : Feed σ}
    (hrun : (stream b).run src { input := inp } = (streamed, f)) (out : ByteArray) :
    settle size f.failed streamed = .ok out ↔ f.failed = none ∧
      (content.size = size ∧ ∃ sums, ending = some sums ∧ sums.Agrees) ∧ out = content := by
  cases hfailed : f.failed with
  | some e => simp [settle]
  | none =>
      simp only [settle, true_and]
      rcases stream_of_decodes h b with
        ⟨sums, b', f', hend, hfits, hstream, hcommitted⟩ | ⟨e, b', f', hreason, hstream⟩
      · rw [hrun] at hstream
        obtain ⟨hstreamed, -⟩ := Prod.mk.inj hstream
        rw [hempty, ByteArray.empty_append] at hcommitted
        have hlen : b'.len = content.size := by rw [← Buffer.size_committed, hcommitted]
        rw [hstreamed, check_eq_ok_iff, hlen, hcommitted]
        constructor
        · intro ⟨hsize, hout, hagrees⟩
          exact ⟨⟨hsize, sums, hend, hagrees⟩, hout⟩
        · intro ⟨⟨hsize, sums', hsome, hagrees⟩, hout⟩
          have hsame : sums = sums' := Option.some.inj (hend.symm.trans hsome)
          exact ⟨hsize, hout, hsame ▸ hagrees⟩
      · rw [hrun] at hstream
        obtain ⟨hstreamed, -⟩ := Prod.mk.inj hstream
        rw [hstreamed]
        constructor
        · intro hout
          cases hout
        · intro ⟨⟨hsize, sums, hsome, _⟩, _⟩
          cases hreason with
          | inl hnone =>
              rw [hnone] at hsome
              cases hsome
          | inr hless => omega

end Frame

end EfiLoader.Zstd
