import EfiLoader.Proofs.Zstd.Decode
import EfiLoader.Proofs.Zstd.Frame

/-!
# EfiLoader.Proofs.Payload

Unpacking does not depend on how the payload is cut up.  Whatever part of it
is in memory at first and however few bytes a read returns, the outcome is the
same:

* `outcome_handThrough` — an image comes out as it is;
* `outcome_unpack` — two ways to cut up a payload have one outcome;
* `outcome_unpackFile` — a whole file is unpacked from the chunk it starts with;
* `outcome_pieces` — every source comes to what the bytes in memory come to.
-/

namespace EfiLoader.Payload

open Log Reader

variable {σ σ₁ σ₂ α β : Type}

/-! ## outcomes -/

namespace Unpack

/-- What unpacking comes to: the unpacked bytes, or the status of the error. -/
def outcome (m : Unpack σ Buffer) (s : σ) : Except Status ByteArray :=
  match (m s).value.1 with
  | .ok b => .ok b.committed
  | .error e => .error (Fault.status e)

theorem value_bind_of_ok {m : Unpack σ β} {f : β → Unpack σ α} {s s' : σ} {b : β}
    (h : (m s).value = (.ok b, s')) : ((m >>= f) s).value = (f b s').value := by
  change (ExceptT.bindCont f (m s).value.1 (m s).value.2).value = (f b s').value
  rw [h]
  rfl

theorem value_bind_of_error {m : Unpack σ β} {f : β → Unpack σ α} {s s' : σ} {e : Error}
    (h : (m s).value = (.error e, s')) : ((m >>= f) s).value = (.error e, s') := by
  change (ExceptT.bindCont f (m s).value.1 (m s).value.2).value = (.error e, s')
  rw [h]
  rfl

theorem value_note_bind (line : Entry) (m : Unpack σ α) (s : σ) :
    (((liftM (note line) : Unpack σ Unit) >>= fun _ => m) s).value = (m s).value := rfl

/-- Log lines that follow do not change the outcome. -/
theorem outcome_bind_of_logged {m : Unpack σ Buffer} {f : Buffer → Unpack σ Buffer} {s : σ}
    (h : ∀ b s', (f b s').value = (.ok b, s')) : (m >>= f).outcome s = m.outcome s := by
  rcases hm : (m s).value with ⟨_ | b, s'⟩
  · rw [outcome, outcome, value_bind_of_error hm, hm]
  · rw [outcome, outcome, value_bind_of_ok hm, h, hm]

end Unpack

/-- A payload whose first bytes are in `first` and whose others the source
hands out.  The first bytes are enough to tell the format, and for a zstd frame
enough to have the declared size. -/
structure Opened (src : Source σ) (first : Buffer) (s : σ) (payload : ByteArray) : Prop where
  pos : first.pos = 0
  rest : ∃ rest, src.Delivers s rest ∧ payload = first.committed ++ rest
  enough : min 18 payload.size ≤ first.len ∨
    4 ≤ first.len ∧ Format.detect? payload ≠ some .zstd

namespace Opened

variable {src : Source σ} {first : Buffer} {s : σ} {payload : ByteArray}

theorem len_le (h : Opened src first s payload) : first.len ≤ payload.size := by
  obtain ⟨rest, -, rfl⟩ := h.rest
  rw [ByteArray.size_append, Buffer.size_committed]
  omega

/-- Nothing is at hand only if there is nothing. -/
theorem isEmpty_eq (h : Opened src first s payload) : first.isEmpty = (payload.size == 0) := by
  have hlen := h.len_le
  have henough := h.enough
  rw [Buffer.isEmpty, Bool.eq_iff_iff, beq_iff_eq, beq_iff_eq]
  omega

theorem remaining_eq (h : Opened src first s payload) :
    first.remaining = payload.extract 0 first.len := by
  obtain ⟨rest, -, rfl⟩ := h.rest
  have hfirst : (first.committed ++ rest).extract 0 first.committed.size = first.committed :=
    ByteArray.extract_append_eq_left rfl
  rw [Buffer.remaining_of_pos h.pos, ← Buffer.size_committed, hfirst]

/-- The first four bytes, or as many as there are, are at hand. -/
theorem detect?_eq (h : Opened src first s payload) :
    Format.detect? first.remaining = Format.detect? payload := by
  have hlen := h.len_le
  have henough : min 4 payload.size ≤ first.len := by
    rcases h.enough with h | ⟨h, -⟩ <;> omega
  have hbytes : first.remaining.extract 0 4 = payload.extract 0 4 := by
    rw [h.remaining_eq, ByteArray.extract_extract, Nat.zero_add, Nat.zero_add,
      ← Bytes.extract_min_size payload 0 4, ← Bytes.extract_min_size payload]
    congr 1
    omega
  rw [Format.detect?, Format.detect?, hbytes]

/-- An input that starts with the bytes at hand reads the whole payload. -/
theorem reads (h : Opened src first s payload) (hpayload : 0 < payload.size) :
    (Input.start first s payload.size).Reads src payload := by
  have hlen : 0 < first.len := by
    have henough := h.enough
    omega
  obtain ⟨rest, hrest, heq⟩ := h.rest
  have hsize : payload.size = first.len + rest.size := by
    rw [heq, ByteArray.size_append, Buffer.size_committed]
  have hcapacity : 0 < first.capacity := Nat.lt_of_lt_of_le hlen first.len_le
  rw [hsize, heq]
  exact Input.reads_start hrest h.pos (Nat.le_refl _) hcapacity

/-- The declared size of a zstd frame is at hand. -/
theorem contentSize_eq (h : Opened src first s payload)
    (hformat : Format.detect? payload = some .zstd) :
    Zstd.contentSize first.remaining = Zstd.contentSize payload := by
  obtain ⟨rest, -, hpayload⟩ := h.rest
  have hsize : payload.size = first.len + rest.size := by
    rw [hpayload, ByteArray.size_append, Buffer.size_committed]
  have henough : 18 ≤ first.len ∨ rest.size = 0 := by
    rcases h.enough with h | ⟨-, h⟩
    · omega
    · exact absurd hformat h
  rw [Buffer.remaining_of_pos h.pos, hpayload]
  rcases henough with hlen | hrest
  · rw [Zstd.contentSize_append rest (by rwa [Buffer.size_committed])]
  · rw [ByteArray.size_eq_zero_iff.mp hrest, ByteArray.append_empty]

end Opened

/-! ## formats -/

/-- The rest of the payload is read, if there is memory for all of it. -/
theorem outcome_readRest [Allocator] {src : Source σ} {first : Buffer} {s : σ}
    {payload : ByteArray} (h : Opened src first s payload)
    (hmemory : Allocator.grants payload.size) :
    (readRest src first payload.size).outcome s = .ok payload := by
  obtain ⟨rest, hrest, hpayload⟩ := h.rest
  have hsize : payload.size = first.len + rest.size := by
    rw [hpayload, ByteArray.size_append, Buffer.size_committed]
  unfold readRest
  by_cases hmore : first.len < payload.size
  · obtain ⟨b, hgrow⟩ := Buffer.grow_eq_ok (b := first) (Or.inr hmemory)
    obtain ⟨hcommitted, hpos, hroom⟩ := Buffer.committed_of_grow hgrow
    obtain ⟨b', s', hfill, hbytes, -⟩ := hrest.fill b
    -- the room in the grown buffer is enough for all that is left
    have hlen : b.len = first.len := by
      rw [← Buffer.size_committed, hcommitted, Buffer.size_committed]
    have hall : rest.extract 0 b.room = rest := by
      refine Bytes.extract_of_le ?_
      rw [Buffer.room, hlen]
      rw [Buffer.capacity] at hroom
      omega
    rw [if_pos hmore, hgrow, Unpack.outcome]
    simp only [fill, hfill, Logged.value_pure, hbytes, hcommitted, hall, hpayload]
  · have hnone : rest = ByteArray.empty := by
      rw [← ByteArray.size_eq_zero_iff]
      omega
    rw [if_neg hmore, hpayload, hnone, ByteArray.append_empty]
    rfl

/-- An image comes out as it is, if there is memory for it. -/
theorem outcome_handThrough [Allocator] {src : Source σ} {first : Buffer} {s : σ}
    {payload : ByteArray} (h : Opened src first s payload)
    (hmemory : Allocator.grants payload.size) :
    (handThrough src first payload.size).outcome s = .ok payload := by
  rw [← outcome_readRest h hmemory, handThrough]
  refine Unpack.outcome_bind_of_logged fun b s' => ?_
  by_cases hshort : b.len < payload.size
  · rw [if_pos hshort]
    rfl
  · rw [if_neg hshort]
    rfl

/-- A frame comes out as the decoder decodes it. -/
theorem outcome_decodeFrame {ε : Type} (wrap : ε → Error)
    (decode : Input σ → Logged (Except ε ByteArray × Input σ)) (chunk : Buffer) (total : Nat)
    (s : σ) :
    (decodeFrame wrap decode chunk total).outcome s =
      match (decode (Input.start chunk s total)).value.1 with
      | .ok out => .ok out
      | .error e => .error (Fault.status (wrap e)) := by
  simp only [Unpack.outcome, decodeFrame, Logged.value_bind]
  rcases (decode (Input.start chunk s total)).value with ⟨e | out, inp⟩
  · rfl
  · simp only [Logged.value_pure, Buffer.committed_ofBytes]

section

variable [Allocator] [Zstd.Decoder] {src₁ : Source σ₁} {src₂ : Source σ₂} {first₁ first₂ : Buffer}
  {s₁ : σ₁} {s₂ : σ₂} {payload : ByteArray}

/-- A payload of a given format has one outcome, however it is cut up. -/
theorem outcome_unpackAs (hD : Zstd.Decoder.DependsOnBytes) (h₁ : Opened src₁ first₁ s₁ payload)
    (h₂ : Opened src₂ first₂ s₂ payload) (hpayload : 0 < payload.size) {format : Format}
    (hformat : Format.detect? payload = some format)
    (hmemory : Format.detect? payload = some .image → Allocator.grants payload.size) :
    (unpackAs src₁ first₁ payload.size format).outcome s₁ =
      (unpackAs src₂ first₂ payload.size format).outcome s₂ := by
  have hreads₁ := h₁.reads hpayload
  have hreads₂ := h₂.reads hpayload
  cases format with
  | image =>
      have hgranted := hmemory hformat
      rw [unpackAs, unpackAs, outcome_handThrough h₁ hgranted, outcome_handThrough h₂ hgranted]
  | lz4 =>
      rw [unpackAs, unpackAs, outcome_decodeFrame, outcome_decodeFrame,
        Lz4.Frame.decode_agree hreads₁ hreads₂]
  | zstd =>
      have hsize : Zstd.contentSize (Input.start first₁ s₁ payload.size).buffered =
          Zstd.contentSize (Input.start first₂ s₂ payload.size).buffered :=
        (h₁.contentSize_eq hformat).trans (h₂.contentSize_eq hformat).symm
      rw [unpackAs, unpackAs, outcome_decodeFrame, outcome_decodeFrame,
        Zstd.Frame.decode_agree hD hreads₁ hreads₂ hsize]

/-- Two ways to cut up a payload have one outcome. -/
theorem outcome_unpack (hD : Zstd.Decoder.DependsOnBytes) (h₁ : Opened src₁ first₁ s₁ payload)
    (h₂ : Opened src₂ first₂ s₂ payload)
    (hmemory : Format.detect? payload = some .image → Allocator.grants payload.size) :
    (unpack src₁ first₁ payload.size).outcome s₁ =
      (unpack src₂ first₂ payload.size).outcome s₂ := by
  unfold unpack
  rw [h₁.isEmpty_eq, h₂.isEmpty_eq, h₁.detect?_eq, h₂.detect?_eq]
  by_cases hempty : (payload.size == 0) = true
  · rw [if_pos hempty, if_pos hempty]
    rfl
  · have hpayload : 0 < payload.size := by
      rw [beq_iff_eq] at hempty
      omega
    rw [if_neg hempty, if_neg hempty]
    cases hformat : Format.detect? payload with
    | none => rfl
    | some format =>
        simp only
        rw [Unpack.outcome_bind_of_logged fun _ _ => rfl,
          Unpack.outcome_bind_of_logged fun _ _ => rfl]
        exact outcome_unpackAs hD h₁ h₂ hpayload hformat hmemory

end

/-! ## files -/

/-- The first chunk of a file is at hand once it has been read. -/
theorem value_readChunk [Allocator] {src : Source σ} {s : σ} {payload : ByteArray}
    (hsize : src.size = payload.size) (h : src.Delivers s payload)
    (hchunk : Allocator.grants (min payload.size maxChunk)) :
    ∃ first s', (readChunk src s).value = (.ok first, s') ∧ Opened src first s' payload := by
  obtain ⟨b, hallocate, hcommitted, hpos, -, hroom⟩ := Buffer.allocate_eq_ok hchunk
  obtain ⟨first, s', hfill, hbytes, hfirst, -, hs'⟩ := h.fill b
  rw [hcommitted, ByteArray.empty_append, hroom] at hbytes
  rw [hroom] at hs'
  have hlen : first.len = min payload.size maxChunk := by
    rw [← Buffer.size_committed, hbytes, ByteArray.size_extract]
    omega
  refine ⟨first, s', ?_, hfirst.trans hpos, ⟨_, hs', ?_⟩, Or.inl ?_⟩
  · have hread : (fill src b s).value = (.ok first, s') := by
      rw [fill, hfill]
      rfl
    unfold readChunk
    simp only [hsize, hallocate]
    rw [Unpack.value_note_bind, Unpack.value_bind_of_ok hread]
    rfl
  · rw [hbytes, Bytes.extract_append_drop]
  · rw [hlen, maxChunk]
    omega

/-- A file is unpacked from the chunk it starts with. -/
theorem outcome_unpackFile [Allocator] [Zstd.Decoder] {src : Source σ} {s : σ}
    {payload : ByteArray} (hsize : src.size = payload.size) (h : src.Delivers s payload)
    (hchunk : Allocator.grants (min payload.size maxChunk)) :
    ∃ first s', Opened src first s' payload ∧
      (unpackFile src).outcome s = (unpack src first payload.size).outcome s' := by
  by_cases hempty : payload.size = 0
  · -- no chunk is read, and unpacking nothing fails with the same status
    have hnone : payload = Buffer.empty.committed ++ payload := by
      rw [Buffer.committed_empty, ByteArray.empty_append]
    have hopened : Opened src Buffer.empty s payload :=
      ⟨rfl, ⟨payload, h, hnone⟩, Or.inl (by omega)⟩
    have hfile : (unpackFile src).outcome s = .error Status.invalidParameter := by
      unfold unpackFile
      rw [if_pos (hsize.trans hempty)]
      rfl
    exact ⟨Buffer.empty, s, hopened, hfile⟩
  · obtain ⟨first, s', hchunk, hopened⟩ := value_readChunk hsize h hchunk
    refine ⟨first, s', hopened, ?_⟩
    unfold unpackFile
    rw [hsize, if_neg hempty, Unpack.outcome, Unpack.outcome, Unpack.value_bind_of_ok hchunk]

/-- **Unpacking does not depend on how the payload is cut up.**  A source that
hands out a payload, a few bytes at a time, comes to what the bytes in memory
come to; and so does a first chunk of the payload with a source for the rest,
if the chunk has the first 18 bytes or all of them, or, unless the payload is a
zstd frame, the first four.  The decoder of zstd frames may be any that depends
on nothing but the bytes that it reads; there is memory for the first chunk of a
file and for all of an image. -/
theorem outcome_pieces [Allocator] [Zstd.Decoder] (hD : Zstd.Decoder.DependsOnBytes)
    (payload : ByteArray) (hchunk : Allocator.grants (min payload.size maxChunk))
    (hmemory : Format.detect? payload = some .image → Allocator.grants payload.size) :
    (∀ (σ : Type) (src : Source σ) (s : σ), src.size = payload.size → src.Delivers s payload →
      (unpackFile src).outcome s =
        (unpackFile (Supply.source payload.size)).outcome { bytes := payload }) ∧
    ∀ (σ : Type) (src : Source σ) (s : σ) (first : Buffer) (rest : ByteArray),
      first.pos = 0 → payload = first.committed ++ rest → src.Delivers s rest →
      min 18 payload.size ≤ first.len ∨
        4 ≤ first.len ∧ Format.detect? payload ≠ some .zstd →
      (unpack src first payload.size).outcome s =
        (unpackFile (Supply.source payload.size)).outcome { bytes := payload } := by
  have hwhole : (Supply.source payload.size).Delivers { bytes := payload } payload := by
    have h := Supply.delivers payload.size (s := { bytes := payload }) (by simp)
    rwa [Bytes.drop_zero] at h
  obtain ⟨first₀, s₀, hopened₀, heq₀⟩ := outcome_unpackFile rfl hwhole hchunk
  constructor
  · intro σ src s hsize hsrc
    obtain ⟨first, s', hopened, heq⟩ := outcome_unpackFile hsize hsrc hchunk
    rw [heq, heq₀, outcome_unpack hD hopened hopened₀ hmemory]
  · intro σ src s first rest hpos hpayload hsrc henough
    have hopened : Opened src first s payload := ⟨hpos, ⟨rest, hsrc, hpayload⟩, henough⟩
    rw [heq₀, outcome_unpack hD hopened hopened₀ hmemory]

/-- A zstd frame a byte at a time, and an image with four of its five bytes in
memory. -/
theorem outcome_pieces_short :
    let _ := Allocator.unlimited
    let _ := Zstd.Blocks.decoder
    let frame := Zstd.Frame.shortFrame
    Zstd.Decoder.DependsOnBytes ∧
    (unpackFile (Supply.source frame.size)).outcome { bytes := frame, maxRead := some 1 } =
      (unpackFile (Supply.source frame.size)).outcome { bytes := frame } ∧
    (unpack (Supply.source 1) (Buffer.ofBytes [0x4D, 0x5A, 1, 2].toByteArray) 5).outcome
        { bytes := [3].toByteArray } =
      (unpackFile (Supply.source 5)).outcome { bytes := [0x4D, 0x5A, 1, 2, 3].toByteArray } := by
  intro _ _ frame
  have hD : Zstd.Decoder.DependsOnBytes :=
    Zstd.Decoder.dependsOnBytes_of_steady Zstd.Blocks.steady_start Zstd.Blocks.steady_read
  refine ⟨hD, ?_, ?_⟩
  · refine (outcome_pieces hD frame (by decide) fun _ => by decide).1 Supply
      (Supply.source frame.size) _ rfl ?_
    have h := Supply.delivers frame.size (s := { bytes := frame, maxRead := some 1 }) (by decide)
    rwa [Bytes.drop_zero] at h
  · have hsplit := (outcome_pieces hD [0x4D, 0x5A, 1, 2, 3].toByteArray (by decide)
      fun _ => by decide).2
    refine hsplit Supply (Supply.source 1) _ _ [3].toByteArray rfl ?_ ?_
      (Or.inr ⟨by decide, by decide⟩)
    · rw [Buffer.committed_ofBytes, ← List.toByteArray_append]
      rfl
    · have h := Supply.delivers 1 (s := { bytes := [3].toByteArray }) (by decide)
      rwa [Bytes.drop_zero] at h

end EfiLoader.Payload
