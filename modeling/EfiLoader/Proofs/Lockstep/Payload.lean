import EfiLoader.Proofs.Lockstep.Reader
import EfiLoader.Proofs.Lz4.Frame
import EfiLoader.Proofs.Zstd.Stream
import EfiLoader.Payload

/-!
# EfiLoader.Proofs.Lockstep.Payload

Decoders in lockstep.  Whatever two sources hand out, if both hand out the
same then the decoders over them do the same, and fail with a status of their
own or with that of a source:

* `Lz4.Frame.lockstep_decode`, `Zstd.Frame.lockstep_decode` — frames;
* `Payload.maintains_unpackFile` — whole payload files.
-/

namespace EfiLoader

open Log Reader

variable {σ τ : Type} {R : σ → τ → Prop} {E : Status → Prop} {src : Source σ} {src' : Source τ}

/-! ## LZ4 frames -/

namespace Lz4

/-- Whatever the size is refused for has an error code. -/
theorem Frame.coded_contentSize [Allocator] (hE : ∀ n, E (Status.error n)) {d : Descriptor}
    {e : FrameError} (h : contentSize d = .error e) : E (Fault.status e) := by
  unfold contentSize at h
  split at h
  · cases h
    exact hE 3
  · cases h
    exact hE 3
  · split at h
    · cases h
      exact Buffer.coded_error.status hE _
    · split at h
      · cases h
      · cases h
        exact hE 9

variable (h : src.Keeps R E src') (hE : ∀ n, E (Status.error n))

include h hE

theorem Descriptor.keeps_readField (present : Bool) (n : Nat) :
    Reader.Keeps R E (readField src present n) (readField src' present n) := by
  unfold readField
  exact Keeps.ite (Keeps.map _ (Keeps.bytes h hE (fun _ he => he) _)) (Keeps.pure _)

theorem Descriptor.keeps_readFields (bits : ByteArray) (blockMaximum : BlockMaximum) :
    Reader.Keeps R E (readFields src bits blockMaximum) (readFields src' bits blockMaximum) := by
  unfold readFields
  refine Keeps.bind (keeps_readField h hE _ _) fun size => ?_
  refine Keeps.bind (keeps_readField h hE _ _) fun dictionary => ?_
  refine Keeps.bind (Keeps.bytes h hE (fun _ he => he) _) fun found => ?_
  exact Keeps.check (hE 33) (Keeps.pure _)

/-- Frame headers are read in lockstep. -/
theorem Descriptor.keeps_read : Reader.Keeps R E (read src) (read src') := by
  unfold read
  refine Keeps.bind (Keeps.le h hE (fun _ he => he) _) fun found => Keeps.check (hE 3) ?_
  refine Keeps.bind (Keeps.bytes h hE (fun _ he => he) _) fun bits => ?_
  rcases hmaximum : blockMaximumOf (Bytes.byte bits 0) (Bytes.byte bits 1) with e | blockMaximum
  · refine Keeps.throw ?_
    unfold blockMaximumOf at hmaximum
    split at hmaximum
    · cases hmaximum
      exact hE 3
    · split at hmaximum
      · cases hmaximum
        exact hE 33
      · split at hmaximum
        · cases hmaximum
          exact hE 33
        · cases hmaximum
  · exact keeps_readFields h hE bits blockMaximum

namespace Frame

theorem keeps_readHash (present : Bool) (actual : UInt32) {mismatch : UInt32 → FrameError}
    (hmismatch : ∀ stored, E (Fault.status (mismatch stored))) :
    Reader.Keeps R E (readHash src present actual mismatch)
      (readHash src' present actual mismatch) := by
  unfold readHash
  refine Keeps.ite ?_ (Keeps.pure _)
  refine Keeps.bind (Keeps.le h hE (fun _ he => he) _) fun stored => ?_
  exact Keeps.ite (Keeps.throw (hmismatch _)) (Keeps.pure _)

theorem keeps_readBlock (d : Descriptor) (size : Nat) (out : ByteArray) (word : Nat) :
    Reader.Keeps R E (readBlock src d size out word) (readBlock src' d size out word) := by
  unfold readBlock
  refine Keeps.check (hE 33) ?_
  refine Keeps.bind (Keeps.bytes h hE (fun _ he => he) _) fun payload => ?_
  refine Keeps.bind (keeps_readHash h hE _ _ fun _ => hE 33) fun _ => ?_
  rcases hcontent : blockContent d out (size - out.size) (0x80000000 ≤ word) payload
    with e | content
  · refine Keeps.throw ?_
    unfold blockContent at hcontent
    split at hcontent
    · split at hcontent
      · cases hcontent
      · cases hcontent
        exact hE 33
    · split at hcontent
      · cases hcontent
      · cases hcontent
        exact hE 33
  · exact Keeps.pure _

theorem keeps_readBlocks (d : Descriptor) (size fuel : Nat) (p : Progress) :
    Reader.Keeps R E (readBlocks src d size fuel p) (readBlocks src' d size fuel p) := by
  induction fuel generalizing p with
  | zero => exact Keeps.throw (hE 33)
  | succ fuel ih =>
      rw [readBlocks, readBlocks]
      refine Keeps.bind (Keeps.le h hE (fun _ he => he) _) fun word => ?_
      refine Keeps.ite (Keeps.pure _) ?_
      exact Keeps.bind (keeps_readBlock h hE d size p.out word) fun content => ih _

theorem keeps_readBody [Allocator] (d : Descriptor) :
    Reader.Keeps R E (readBody src d) (readBody src' d) := by
  unfold readBody
  rcases hsize : contentSize d with e | size
  · exact Keeps.throw (coded_contentSize hE hsize)
  · unfold readContent
    refine Keeps.get_bind fun inp inp' hbudget => ?_
    rw [hbudget]
    refine Keeps.bind (keeps_readBlocks h hE d size _ _) fun p => ?_
    refine Keeps.bind (keeps_readHash h hE _ _ fun _ => hE 33) fun _ => ?_
    exact Keeps.check (hE 33) (Keeps.pure _)

/-- Frames are decoded in lockstep. -/
theorem lockstep_decode [Allocator] :
    Lockstep (Input.InStep R) (decode src) (decode src') fun r inp inp' =>
      OnlyFails (fun e => E (Fault.status e)) r ∧ inp.InStep R inp' := by
  intro inp inp' hstep
  obtain ⟨hanswer, hfails, hleft⟩ := Descriptor.keeps_read h hE inp inp' hstep
  unfold decode
  rcases hread : (Descriptor.read src).run.run inp with ⟨r, next⟩
  rcases hread' : (Descriptor.read src').run.run inp' with ⟨r', next'⟩
  have hrun : (Descriptor.read src).run inp = (r, next) := hread
  have hrun' : (Descriptor.read src').run inp' = (r', next') := hread'
  rw [hrun, hrun'] at hanswer hleft
  rw [hrun] at hfails
  cases hanswer
  cases r with
  | error e => exact ⟨rfl, rfl, OnlyFails.error (hfails e rfl), hleft⟩
  | ok d =>
      obtain ⟨hanswer', hfails', hleft'⟩ := keeps_readBody h hE d next next' hleft
      exact ⟨rfl, hanswer', hfails', hleft'⟩

end Frame

end Lz4

/-! ## zstd frames -/

namespace Zstd.Frame

theorem coded_headerError : Fault.Coded HeaderError := by
  intro e
  cases e with
  | magic | dictionary _ | noContentSize => exact ⟨3, rfl⟩
  | truncated | reservedBit => exact ⟨33, rfl⟩

/-- What streaming has come to is a failed read, or the data is damaged. -/
theorem onlyFails_settle (hE : ∀ n, E (Status.error n)) {f : Feed σ} (hf : f.FailsOnly E)
    (size : Nat) (streamed : Except StreamError Checksums × Buffer) :
    OnlyFails (fun e => E (Fault.status e)) (settle size f.failed streamed) := by
  intro e he
  cases hfailed : f.failed with
  | some failed =>
      rw [hfailed] at he
      cases he
      exact hf failed hfailed
  | none =>
      rw [hfailed] at he
      rw [status_settle he]
      exact hE 33

/-- Frames are decoded in lockstep. -/
theorem lockstep_decode [Allocator] [Decoder] (h : src.Keeps R E src')
    (hE : ∀ n, E (Status.error n)) :
    Lockstep (Input.InStep R) (decode src) (decode src') fun r inp inp' =>
      OnlyFails (fun e => E (Fault.status e)) r ∧ inp.InStep R inp' := by
  intro inp inp' hstep
  have hbuffered : inp'.buffered = inp.buffered := by
    rw [Input.buffered, Input.buffered, hstep.chunk]
  unfold decode
  rw [hbuffered]
  rcases contentSize inp.buffered with e | size
  · exact ⟨rfl, rfl, OnlyFails.error (coded_headerError.status hE e), hstep⟩
  · dsimp only
    cases Buffer.allocate size with
    | error e => exact ⟨rfl, rfl, OnlyFails.error (Buffer.coded_error.status hE e), hstep⟩
    | ok b =>
        obtain ⟨hanswer, -, ⟨hinput, hfailed, hreport⟩, hfails⟩ :=
          Decoding.alike_run h hE (stream b) { input := inp } { input := inp' } ⟨⟨hstep, rfl, rfl⟩,
            fun e he => absurd he.symm (Option.some_ne_none e)⟩
        rcases hrun : (stream b).run src { input := inp } with ⟨streamed, f⟩
        rcases hrun' : (stream b).run src' { input := inp' } with ⟨streamed', f'⟩
        rw [hrun, hrun'] at hanswer hinput hfailed hreport
        rw [hrun] at hfails
        cases hanswer
        dsimp only at hfailed hreport
        simp only [hrun, hrun', hfailed, hreport]
        exact ⟨rfl, rfl, onlyFails_settle hE hfails size streamed, hinput⟩

end Zstd.Frame

/-! ## payloads -/

namespace Payload

theorem maintains_fill (h : src.Keeps R E src') (hE : ∀ n, E (Status.error n)) (b : Buffer) :
    Maintains R (fun e => E (Fault.status e)) (fill src b) (fill src' b) := by
  intro s t hst
  obtain ⟨r, b', s', t', hfill, hfill', hfails, hleft⟩ := h.fill hE b hst
  simp only [fill, ExceptT.run, hfill, hfill']
  cases r with
  | ok _ => exact ⟨rfl, rfl, OnlyFails.ok b', hleft⟩
  | error e => exact ⟨rfl, rfl, OnlyFails.error (hfails e rfl), hleft⟩

/-- A decoder of frames is run in lockstep if it decodes in lockstep. -/
theorem maintains_decodeFrame {ε : Type} [Fault ε] {wrap : ε → Error}
    {decode : Input σ → Logged (Except ε ByteArray × Input σ)}
    {decode' : Input τ → Logged (Except ε ByteArray × Input τ)}
    (hdecode : Lockstep (Input.InStep R) decode decode' fun r inp inp' =>
      OnlyFails (fun e => E (Fault.status e)) r ∧ inp.InStep R inp')
    (hwrap : ∀ e, Fault.status (wrap e) = Fault.status e) (chunk : Buffer) (total : Nat) :
    Maintains R (fun e => E (Fault.status e)) (decodeFrame wrap decode chunk total)
      (decodeFrame wrap decode' chunk total) := by
  intro s t hst
  obtain ⟨hlines, hanswer, hfails, hleft⟩ :=
    hdecode _ _ (Input.inStep_start chunk total hst)
  unfold decodeFrame
  simp only [ExceptT.run, Logged.lines_bind, Logged.value_bind]
  rcases hd : decode (Input.start chunk s total) with ⟨lines, r, inp⟩
  rcases hd' : decode' (Input.start chunk t total) with ⟨lines', r', inp'⟩
  rw [hd, hd'] at hlines hanswer hleft
  rw [hd] at hfails
  cases hlines
  cases hanswer
  cases r with
  | ok out => exact ⟨rfl, rfl, OnlyFails.ok _, hleft.state⟩
  | error e =>
      refine ⟨rfl, rfl, OnlyFails.error ?_, hleft.state⟩
      rw [hwrap]
      exact hfails e rfl

variable (h : src.Keeps R E src') (hE : ∀ n, E (Status.error n))

include h hE

/-- The rest of an image is read in lockstep. -/
theorem maintains_handThrough [Allocator] (chunk : Buffer) (total : Nat) :
    Maintains R (fun e => E (Fault.status e)) (handThrough src chunk total)
      (handThrough src' chunk total) := by
  unfold handThrough
  dsimp only
  refine Maintains.bind ?_ fun b => ?_
  · unfold readRest
    split
    · cases chunk.grow total with
      | error e => exact Maintains.throw (Buffer.coded_error.status hE e)
      | ok b => exact maintains_fill h hE b
    · exact Maintains.pure _
  · split
    · exact Maintains.note_bind (Maintains.note_bind (Maintains.pure b))
    · exact Maintains.note_bind (Maintains.pure b)

theorem maintains_unpack [Allocator] [Zstd.Decoder] (chunk : Buffer) (total : Nat) :
    Maintains R (fun e => E (Fault.status e)) (unpack src chunk total)
      (unpack src' chunk total) := by
  unfold unpack
  dsimp only
  split
  · exact Maintains.throw (hE 2)
  · cases Format.detect? chunk.remaining with
    | none => exact Maintains.throw (hE 3)
    | some format =>
        refine Maintains.bind ?_ fun b => Maintains.note_bind (Maintains.pure b)
        have hzstd : ∀ e, Fault.status (Error.zstd e) = Fault.status e := fun _ => rfl
        have hlz4 : ∀ e, Fault.status (Error.lz4 e) = Fault.status e := fun _ => rfl
        cases format with
        | zstd => exact maintains_decodeFrame (Zstd.Frame.lockstep_decode h hE) hzstd _ _
        | lz4 => exact maintains_decodeFrame (Lz4.Frame.lockstep_decode h hE) hlz4 _ _
        | image => exact maintains_handThrough h hE chunk total

/-- Payload files are unpacked in lockstep. -/
theorem maintains_unpackFile [Allocator] [Zstd.Decoder] :
    Maintains R (fun e => E (Fault.status e)) (unpackFile src) (unpackFile src') := by
  unfold unpackFile readChunk
  rw [h.size_eq]
  dsimp only
  split
  · exact Maintains.throw (hE 2)
  · refine Maintains.bind ?_ fun b => maintains_unpack h hE b src.size
    refine Maintains.note_bind ?_
    cases Buffer.allocate (min src.size maxChunk) with
    | error e => exact Maintains.throw (Buffer.coded_error.status hE e)
    | ok b =>
        refine Maintains.bind (maintains_fill h hE b) fun b => ?_
        exact Maintains.note_bind (Maintains.pure b)

end Payload

end EfiLoader
