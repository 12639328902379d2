import EfiLoader.Proofs.Lockstep.Payload
import EfiLoader.Proofs.Zstd.Decoder

/-!
# EfiLoader.Proofs.Zstd.Decode

What decoding a frame with a declared content size comes to, for every source,
also one that fails, and however its bytes are cut into chunks:

* `Frame.failure?_reads` — the error that is kept is that of a failed read;
* `Frame.decode_settles` — which frames are decoded, and what becomes of the others.
-/

namespace EfiLoader.Zstd.Frame

variable {σ : Type} {src : Source σ} {inp : Input σ} {n : Nat}

section

variable [Allocator] [Decoder]

/-! ## failed reads -/

/-- The reads that decoding makes, the last one first. -/
def reads (src : Source σ) (inp : Input σ) : List ReadCall :=
  (decode src.recorded inp.recorded).value.2.state.2

/-- The error that is kept while a frame is streamed is that of the last failed read. -/
theorem failure?_reads {b : Buffer} (hsize : contentSize inp.buffered = .ok n)
    (hmemory : Buffer.allocate n = .ok b) :
    failure? (reads src inp) =
      ((stream b).run src { input := inp }).2.failed.map ReadError.status := by
  have hrecorded : contentSize inp.recorded.buffered = .ok n := hsize
  have hnoted : ((stream b).run src.recorded { input := inp.recorded }).2.Noted :=
    Decoding.noted_run (stream b) _ rfl
  obtain ⟨-, -, hstep, -⟩ := Decoding.alike_run src.keeps_recorded (fun _ => trivial) (stream b)
    { input := inp } { input := inp.recorded }
    ⟨⟨inp.inStep_recorded, rfl, rfl⟩, fun _ _ => trivial⟩
  rw [reads, value_decode hrecorded hmemory, ← hstep.failed]
  exact hnoted

/-! ## decoding -/

/-- What becomes of a frame that declares `n` bytes, for which the decoder yields
`content` and ends with the checksums `ending`. -/
structure Settles (src : Source σ) (inp : Input σ) (n : Nat) (content : ByteArray)
    (ending : Option Checksums) : Prop where
  /-- The reads are those of this run. -/
  recorded : (decode src.recorded inp.recorded).value.1 = (decode src inp).value.1
  /-- The content is handed over if and only if no read fails, it has just as many
  bytes as declared, and the checksum that is stored, if there is one, is its own. -/
  ok_iff : ∀ out, (decode src inp).value.1 = .ok out ↔ failure? (reads src inp) = none ∧
    (content.size = n ∧ ∃ sums, ending = some sums ∧ sums.Agrees) ∧ out = content
  /-- The status of a read that fails goes before all else. -/
  failed : ∀ status, failure? (reads src inp) = some status →
    (decode src inp).value.1.mapError Fault.status = .error status
  /-- In every other case the data is damaged. -/
  damaged : failure? (reads src inp) = none →
    ¬(content.size = n ∧ ∃ sums, ending = some sums ∧ sums.Agrees) →
    (decode src inp).value.1.mapError Fault.status = .error Status.compromisedData
  /-- The frame is streamed to a buffer of `n` bytes, and no more are written. -/
  written : ∃ b, Buffer.allocate n = .ok b ∧ b.capacity = n ∧
    ((stream b).run src { input := inp }).1.2.capacity = n ∧
    ((stream b).run src { input := inp }).1.2.len ≤ n

/-- **Decoding**: a frame that declares a content size for which memory is granted
is handed over if and only if no read of the source fails, the frame decodes to
just as many bytes, and the checksum that is stored, if there is one, is that of
the content.  The status of a read that fails goes before all else; in every
other case the data is damaged.  This holds with any decoder that, reading the
source it is given, yields the content of the frame, or an error, in pieces of
any sizes. -/
theorem decode_settles {content : ByteArray} {ending : Option Checksums}
    (hsize : contentSize inp.buffered = .ok n) (hmemory : Allocator.grants n)
    (hD : Decoder.Decodes src inp content ending) : Settles src inp n content ending := by
  obtain ⟨b, hallocate, hempty, hpos, hcapacity, hroom⟩ := Buffer.allocate_eq_ok hmemory
  have hreads : failure? (reads src inp) =
      ((stream b).run src { input := inp }).2.failed.map ReadError.status :=
    failure?_reads hsize hallocate
  have hcapacity' := capacity_stream src b { input := inp }
  have hlen := len_stream_le src b { input := inp }
  rw [hcapacity] at hcapacity' hlen
  have hvalue : (decode src inp).value.1 =
      settle n ((stream b).run src { input := inp }).2.failed
        ((stream b).run src { input := inp }).1 :=
    congrArg Prod.fst (value_decode hsize hallocate)
  rcases hrun : (stream b).run src { input := inp } with ⟨streamed, f⟩
  rw [hrun] at hreads hvalue
  have hok := settle_of_decodes hD hempty hroom hrun
  dsimp only at hreads hvalue
  refine ⟨?_, fun out => ?_, fun status hstatus => ?_, fun hnone hcontent => ?_,
    b, hallocate, hcapacity, hcapacity', hlen⟩
  · exact (lockstep_decode src.keeps_recorded (fun _ => trivial) inp inp.recorded
      inp.inStep_recorded).2.1.symm
  · rw [hvalue, hok, hreads, Option.map_eq_none_iff]
  · rw [hreads, Option.map_eq_some_iff] at hstatus
    obtain ⟨e, hfailed, rfl⟩ := hstatus
    rw [hvalue, hfailed]
    rfl
  · rw [hreads, Option.map_eq_none_iff] at hnone
    rw [hvalue]
    cases hsettle : settle n f.failed streamed with
    | ok out => exact absurd ((hok out).mp hsettle).2.1 hcontent
    | error e =>
        rw [hnone] at hsettle
        rw [mapError_error, status_settle hsettle]

end

/-- A header without a window field, for one byte of content and its checksum. -/
def shortHeader : Form := .ofByte 0x24

/-- The checksum of the byte 7. -/
def shortSum : UInt32 := (Hash.Xxh64.hash [7].toByteArray).toUInt32

/-- The frame with this header whose one block is stored. -/
def shortFrame : ByteArray :=
  shortHeader.encode 0 1 ++
    (encodeBlocks [.stored [7].toByteArray] ++ checksumField (some shortSum))

/-- The header is in the first chunk, and every read has one more byte. -/
def shortInput : Input Supply :=
  Input.start (Buffer.ofBytes (shortHeader.encode 0 1)) ⟨shortFrame, 6, some 1⟩ shortFrame.size

theorem size_shortHeader : (shortHeader.encode 0 1).size = 6 := by decide

theorem holds_shortHeader : shortHeader.Holds 1 := ⟨by decide, by decide, by decide⟩

theorem isFrame_shortFrame : IsFrame 1 shortFrame [7].toByteArray (some shortSum) := by
  have hlast : ∀ reach, Contents reach [] {} (ByteArray.empty ++ [7].toByteArray)
      [7].toByteArray := by
    intro reach
    rw [ByteArray.empty_append]
    exact .nil _ _
  exact .intro holds_shortHeader (by decide) (by simp) (.cons (by decide) rfl (hlast _)) rfl

/-- The input hands out the frame. -/
theorem reads_shortInput : shortInput.Reads (Supply.source shortFrame.size) shortFrame := by
  have hmax : (some 1 : Option Nat) ≠ some 0 := by decide
  have hdelivers := @Supply.delivers shortFrame.size ⟨shortFrame, 6, some 1⟩ hmax
  have hrest : shortHeader.encode 0 1 ++ Bytes.drop shortFrame 6 = shortFrame := by
    rw [shortFrame, Bytes.drop_append _ size_shortHeader.symm]
  have htotal : (Buffer.ofBytes (shortHeader.encode 0 1)).len + (Bytes.drop shortFrame 6).size ≤
      shortFrame.size := by
    have hlen : (Buffer.ofBytes (shortHeader.encode 0 1)).len = 6 := size_shortHeader
    have hparts := congrArg ByteArray.size hrest
    rw [ByteArray.size_append, size_shortHeader] at hparts
    omega
  have hreads := Input.reads_start hdelivers rfl htotal (by decide)
  rwa [Buffer.committed_ofBytes, hrest] at hreads

/-- The frame is decoded by the decoder that reads its blocks. -/
theorem decode_settles_short :
    let _ := Allocator.unlimited
    let _ := Blocks.decoder
    contentSize shortInput.buffered = .ok 1 ∧ Allocator.grants 1 ∧
      Decoder.Decodes (Supply.source shortFrame.size) shortInput [7].toByteArray
        (some ⟨some shortSum, some shortSum⟩) ∧
      Settles (Supply.source shortFrame.size) shortInput 1 [7].toByteArray
        (some ⟨some shortSum, some shortSum⟩) := by
  intro _ _
  have hsize : contentSize shortInput.buffered = .ok 1 := by
    have hbuffered : shortInput.buffered = shortHeader.encode 0 1 ++ ByteArray.empty := by
      rw [ByteArray.append_empty]
      exact (Buffer.remaining_of_pos rfl).trans (Buffer.committed_ofBytes _)
    rw [hbuffered, Form.contentSize_encode holds_shortHeader]
  have hmemory : Allocator.grants 1 := by decide
  have hreads := reads_shortInput
  rw [← @ByteArray.append_empty shortFrame] at hreads
  have hD := Blocks.decoder_decodes isFrame_shortFrame (by decide) hreads
  exact ⟨hsize, hmemory, hD, decode_settles hsize hmemory hD⟩

end EfiLoader.Zstd.Frame
