import EfiLoader.Proofs.Zstd.Blocks
import EfiLoader.Proofs.Zstd.Stream

/-!
# EfiLoader.Proofs.Zstd.Decoder

Reading blocks until enough content can be handed out is a decoder that hands
out the content of frames, whatever numbers of bytes it is asked for:

* `Blocks.Pending` — what is left to read and to hand out at any time;
* `Blocks.decoder_decodes` — the content of a frame is yielded in pieces.
-/

namespace EfiLoader.Zstd.Blocks

open Hash Decoding

variable {σ : Type} {src : Source σ} {start : Start} {content : ByteArray}
  {stored : Option UInt32} {s : State} {left : ByteArray}

/-! ## pieces -/

theorem State.available_le (s : State) (window : Nat) :
    s.available window ≤ s.out.size - s.drained := by
  unfold State.available
  split <;> omega

theorem Session.size_piece (d : Session) (n : Nat) : (d.piece n).size = d.count n := by
  have hcount : d.count n ≤ d.state.out.size - d.state.drained :=
    Nat.le_trans (Nat.min_le_right _ _) (d.state.available_le _)
  rw [Session.piece, ByteArray.size_extract]
  omega

theorem Session.after_of_count {d : Session} {n : Nat} (h : d.count n = 0) : d.after n = d := by
  rw [Session.after, h]
  rfl

/-- The bytes that are left are blocks that continue what has been decoded to
`content` and refer to nothing behind the window, or the frame has ended.  All
that has been handed out is behind the window. -/
inductive Pending (start : Start) (content : ByteArray) (stored : Option UInt32) :
    (s : State) → (left : ByteArray) → Prop
  | blocks {s : State} {blocks : List RawBlock} (more : s.finished = false)
      (nosum : s.stored = none) (nonempty : blocks ≠ [])
      (contents : Contents (fun n => n - start.window) blocks s.context s.out content)
      (present : stored.isSome = start.checksum)
      (held : s.drained ≤ s.out.size - start.window) (rest : ByteArray)
      (size : (encodeBlocks blocks ++ checksumField stored).size < mostBlocks) :
      Pending start content stored s (encodeBlocks blocks ++ checksumField stored ++ rest)
  | finished {s : State} (finished : s.finished) (out : s.out = content)
      (sum : s.stored = stored) (held : s.drained ≤ s.out.size) (left : ByteArray) :
      Pending start content stored s left

namespace Pending

/-- What has been decoded is the first part of the content. -/
theorem exists_append (h : Pending start content stored s left) :
    ∃ more, content = s.out ++ more := by
  cases h with
  | blocks _ _ _ contents => exact contents.exists_append
  | finished _ out => exact ⟨ByteArray.empty, out ▸ ByteArray.append_empty.symm⟩

/-- What can be handed out may be handed out. -/
theorem handOut (h : Pending start content stored s left) {count : Nat}
    (hcount : count ≤ s.available start.window) :
    Pending start content stored { s with drained := s.drained + count } left := by
  cases h with
  | blocks more nosum nonempty contents present held rest size =>
      simp only [State.available, more, Bool.false_eq_true, if_false] at hcount
      exact .blocks (s := { s with drained := s.drained + count }) more nosum nonempty contents
        present (by dsimp only; omega) rest size
  | finished finished out sum held =>
      simp only [State.available, finished, if_true] at hcount
      exact .finished (s := { s with drained := s.drained + count }) finished out sum
        (by dsimp only; omega) left

/-- Blocks are read until enough content can be handed out, and what is left
goes on from there. -/
theorem exists_steps (h : Pending start content stored s left) (need : Nat) :
    ∃ s' bs left', Steps start need s s' bs ∧ left = bs ++ left' ∧ bs.size < mostBlocks ∧
      Pending start content stored s' left' := by
  cases h with
  | finished finished out sum held =>
      exact ⟨s, _, left, .stop (.inl finished), ByteArray.empty_append.symm, by decide,
        .finished finished out sum held left⟩
  | @blocks blocks more nosum nonempty contents present held rest size =>
      obtain ⟨s', first, others, hsteps, hbytes, hleft⟩ :=
        Blocks.exists_steps need more nosum nonempty contents (fun m hm => by omega) present
      obtain ⟨⟨added, hadded⟩, hdrained⟩ := hsteps.grows
      have hsize : s'.out.size = s.out.size + added.size := by rw [hadded, ByteArray.size_append]
      rw [hbytes] at size ⊢
      rw [ByteArray.size_append] at size
      refine ⟨s', first, others ++ rest, hsteps, ByteArray.append_assoc, by omega, ?_⟩
      rcases hleft with
        ⟨hfinished, hout, hstored, -⟩ | ⟨hmore, hnosum, blocks', hne, hothers, hrest'⟩
      · exact .finished hfinished hout hstored (by omega) _
      · rw [hrest'] at size ⊢
        exact .blocks hmore hnosum hne hothers present (by omega) rest (by omega)

/-- What is handed out are the next bytes of the content. -/
theorem drop_eq_piece_append (h : Pending start content stored s left) (n : Nat) :
    Bytes.drop content s.drained = (⟨start, s⟩ : Session).piece n ++
      Bytes.drop content (s.drained + (⟨start, s⟩ : Session).count n) := by
  obtain ⟨more, hmore⟩ := h.exists_append
  have hcount : (⟨start, s⟩ : Session).count n ≤ s.out.size - s.drained :=
    Nat.le_trans (Nat.min_le_right _ _) (s.available_le _)
  have hheld : s.drained ≤ s.out.size := by
    cases h with
    | blocks _ _ _ _ _ held => omega
    | finished _ _ _ held => exact held
  have hpiece : (⟨start, s⟩ : Session).piece n =
      (Bytes.drop content s.drained).extract 0 ((⟨start, s⟩ : Session).count n) := by
    rw [Bytes.extract_drop, hmore, Bytes.extract_append_left _ (by omega)]
    rfl
  rw [hpiece, ← Bytes.drop_drop, Bytes.extract_append_drop]

/-- If nothing can be handed out then the frame has ended, and all of it has been
handed out. -/
theorem eq_of_available (h : Pending start content stored s left)
    (hnone : s.available start.window = 0) (hfinished : s.finished) :
    s.out = content ∧ s.stored = stored ∧ s.drained = content.size := by
  cases h with
  | blocks more =>
      rw [hfinished] at more
      cases more
  | finished finished out sum held =>
      rw [State.available, if_pos finished] at hnone
      subst out
      exact ⟨rfl, sum, by omega⟩

end Pending

/-! ## the decoder -/

/-- The checksums that a frame ends with. -/
def ending (content : ByteArray) (stored : Option UInt32) : Checksums :=
  ⟨stored, some (Xxh64.hash content).toUInt32⟩

/-- Every read hands out the next bytes of the content. -/
theorem Pending.yields {f : Feed σ} (h : Pending start content stored s left)
    (hf : f.Reads src left) :
    @Decoder.Yields σ decoder src (some (ending content stored)) ⟨start, s⟩ f
      (Bytes.drop content s.drained) := by
  refine ⟨fun (d : Session) f rest => ∃ left, Pending d.start content stored d.state left ∧
    f.Reads src left ∧ rest = Bytes.drop content d.state.drained, ⟨left, h, hf, rfl⟩, ?_⟩
  rintro ⟨start, s⟩ f rest n ⟨left, h, hf, hrest⟩ hn
  dsimp only at h hf hrest
  obtain ⟨s', bs, left', hsteps, rfl, hfuel, h'⟩ := h.exists_steps n
  have htakes : Takes (Session.read n ⟨start, s⟩) bs
      ((⟨start, s'⟩ : Session).piece n, (⟨start, s'⟩ : Session).after n) :=
    (takes_readBlocks hsteps hfuel).bind_pure rfl
  obtain ⟨f', hread, hf'⟩ := htakes.run (steady_read n _) hf
  have hsize := (⟨start, s'⟩ : Session).size_piece n
  have hpending := h'.handOut (Nat.min_le_right n (s'.available start.window))
  have hparts := h'.drop_eq_piece_append n
  rw [← hsteps.grows.2] at hrest
  rw [← hrest] at hparts
  by_cases hcount : (⟨start, s'⟩ : Session).count n = 0
  · -- nothing is handed out only at the end
    have hnone : s'.available start.window = 0 := by
      unfold Session.count at hcount
      simp only at hcount
      omega
    have hfinished : s'.finished := hsteps.enough.resolve_right (by omega)
    obtain ⟨hout, hstored, hall⟩ := h'.eq_of_available hnone hfinished
    have hempty : rest = ByteArray.empty := by
      rw [hrest, hall]
      exact Bytes.extract_of_size_le _ (Nat.le_refl _)
    have hpiece : (⟨start, s'⟩ : Session).piece n = ByteArray.empty :=
      ByteArray.size_eq_zero_iff.mp (hsize.trans hcount)
    rw [hpiece, Session.after_of_count hcount] at hread
    have hsums : some (ending content stored) =
        some ((⟨start, s'⟩ : Session).checksums) := by
      simp only [ending, Session.checksums, hout, hstored, hall, ByteArray.extract_zero_size]
    exact .inr (.inl ⟨_, f', hread, hempty, hsums, left', h', hf', by rw [← hempty, hrest]⟩)
  · have hmost : (⟨start, s'⟩ : Session).count n ≤ n := Nat.min_le_left _ _
    exact .inl ⟨_, _, _, f', hread, hparts, by omega, by omega, left', hpending, hf', rfl⟩

/-- **Pieces**: frames are handed out in pieces of any sizes, and end with their
checksum and that of the content. -/
theorem decoder_decodes {inp : Input σ} {n : Nat} {frame content rest : ByteArray}
    {stored : Option UInt32} (h : IsFrame n frame content stored)
    (hsize : frame.size < mostBlocks) (hinp : inp.Reads src (frame ++ rest)) :
    @Decoder.Decodes σ decoder src inp content (some (ending content stored)) := by
  cases h with
  | @intro f window blocks _ _ holds hwindow nonempty contents present =>
      rw [ByteArray.append_assoc] at hinp
      rw [ByteArray.size_append] at hsize
      let _ := decoder
      have htakes : Takes Decoder.start (f.encode window n)
          (⟨⟨f.window window n, f.checksum⟩, {}⟩ : Session) :=
        (takes_readStart holds hwindow).bind_pure rfl
      obtain ⟨f', hstart, hf'⟩ := htakes.run steady_start (f := { input := inp }) ⟨rfl, hinp⟩
      have hpending : Pending ⟨f.window window n, f.checksum⟩ content stored {}
          (encodeBlocks blocks ++ checksumField stored ++ rest) :=
        .blocks rfl rfl nonempty contents present (Nat.zero_le _) rest (by omega)
      have hyields := hpending.yields hf'
      rw [Bytes.drop_zero] at hyields
      exact .start hstart hyields

end EfiLoader.Zstd.Blocks
