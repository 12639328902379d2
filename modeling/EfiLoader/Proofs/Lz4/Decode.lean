import EfiLoader.Proofs.Lz4.Frame
import EfiLoader.Proofs.Lz4.Grammar

/-!
# EfiLoader.Proofs.Lz4.Decode

A stream decodes to a content exactly if it starts with a frame of that
content:

* `readBlocks_sound` — blocks that are read follow the grammar;
* `readBlocks_encode` — blocks that follow the grammar are read;
* `outcome_of_stream` — what every stream comes to.
-/

namespace EfiLoader.Lz4.Frame

open Hash Reader

variable {σ : Type} {src : Source σ} {left : ByteArray}

/-! ## blocks -/

/-- A stored hash that is read is the right one. -/
theorem readHash_sound (present : Bool) (actual : UInt32) {mismatch : UInt32 → FrameError}
    (h : ∀ stored, (mismatch stored).status = Status.compromisedData) :
    Meets src (readHash src present actual mismatch) left fun
      | .ok ((), rest) => left = hashField present actual ++ rest
      | .error e => e.status = Status.compromisedData := by
  unfold readHash
  cases present with
  | false => exact Meets.pure ByteArray.empty_append.symm
  | true =>
      rw [if_pos rfl]
      refine Meets.le_bind (fun stored rest hstored hleft => ?_) fun _ => rfl
      refine Meets.ite (fun _ => Meets.throw (h _)) fun hequal => Meets.pure ?_
      rw [Decidable.not_not] at hequal
      simp only [hashField, if_pos]
      rw [hleft, Bytes.ofU32, hequal]

/-- The right hash is read. -/
theorem readHash_append (present : Bool) (actual : UInt32) (mismatch : UInt32 → FrameError)
    (rest : ByteArray) :
    Meets src (readHash src present actual mismatch) (hashField present actual ++ rest)
      (· = .ok ((), rest)) := by
  unfold readHash
  cases present with
  | false =>
      rw [hashField, if_neg Bool.false_ne_true, if_neg Bool.false_ne_true,
        ByteArray.empty_append]
      exact Meets.pure rfl
  | true =>
      rw [hashField, if_pos rfl, if_pos rfl]
      refine Meets.le_append actual.toNat_lt ?_
      exact Meets.ite (fun h => absurd rfl h) fun _ => Meets.pure rfl

/-- The content of a block is what the block holds, if that fits. -/
theorem blockContent_eq_ok_iff {d : Descriptor} {out content payload : ByteArray} {room : Nat}
    {stored : Bool} :
    blockContent d out room stored payload = .ok content ↔
      RawBlock.Holds ⟨stored, payload⟩ d out content ∧ content.size ≤ room := by
  have hhistory : Block.decode (history d out) room payload =
      Block.decode (if d.independentBlocks then ByteArray.empty else out) room payload := by
    unfold history
    split
    · rfl
    · exact Block.decode_drop_history out room payload
  cases stored with
  | true =>
      simp only [blockContent, RawBlock.Holds, if_pos]
      split
      · next hfit =>
        constructor
        · rintro ⟨⟩
          exact ⟨rfl, hfit⟩
        · rintro ⟨rfl, -⟩
          rfl
      · next hfit =>
        constructor
        · rintro ⟨⟩
        · rintro ⟨rfl, h⟩
          exact absurd h hfit
  | false =>
      simp only [blockContent, RawBlock.Holds, Bool.false_eq_true, if_false, hhistory]
      rw [← Block.decode_eq_some_iff]
      split
      · next hdecode => rw [hdecode, Except.ok.injEq, Option.some.injEq]
      · next hdecode =>
        rw [hdecode]
        constructor <;> rintro ⟨⟩

/-- Otherwise the block is damaged. -/
theorem status_of_blockContent {d : Descriptor} {out payload : ByteArray} {room : Nat}
    {stored : Bool} {e : FrameError} (h : blockContent d out room stored payload = .error e) :
    e.status = Status.compromisedData := by
  unfold blockContent at h
  split at h
  · split at h
    · cases h
    · cases h
      rfl
  · split at h
    · cases h
    · cases h
      rfl

/-- A block that is read is as it is written, and its content fits. -/
theorem readBlock_sound (d : Descriptor) (size : Nat) (out : ByteArray) (word : Nat) :
    Meets src (readBlock src d size out word) left fun
      | .ok (content, rest) => ∃ payload : ByteArray, payload.size = word % 0x80000000 ∧
          payload.size ≤ d.blockMaximum.bytes ∧
          left = payload ++ (hashField d.blockChecksums (Xxh32.hash payload) ++ rest) ∧
          RawBlock.Holds ⟨0x80000000 ≤ word, payload⟩ d out content
      | .error e => e.status = Status.compromisedData := by
  unfold readBlock
  refine Meets.check (fun _ => rfl) fun hlength => ?_
  refine Meets.bytes_bind (fun payload rest hpayload hleft => ?_) fun _ => rfl
  refine Meets.bind ((readHash_sound _ _ fun _ => rfl).mono fun r hr => ?_)
  cases r with
  | error e => exact hr
  | ok a =>
      obtain ⟨⟨⟩, rest'⟩ := a
      simp only at hr ⊢
      split
      · next content hcontent =>
        refine Meets.pure ⟨payload, hpayload, by omega, ?_, (blockContent_eq_ok_iff.mp hcontent).1⟩
        rw [hleft, hr]
      · next e he => exact Meets.throw (status_of_blockContent he)

/-- A block that is as it is written is read, if its content fits. -/
theorem readBlock_append {d : Descriptor} {size : Nat} {out content : ByteArray} {b : RawBlock}
    (hsize : b.payload.size ≤ d.blockMaximum.bytes) (hholds : b.Holds d out content)
    (hcontent : out.size + content.size ≤ size) (rest : ByteArray) :
    Meets src (readBlock src d size out b.word)
      (b.payload ++ (hashField d.blockChecksums (Xxh32.hash b.payload) ++ rest))
      (· = .ok (content, rest)) := by
  have hshort := BlockMaximum.lt_of_le_bytes hsize
  have hblock : blockContent d out (size - out.size) b.stored b.payload = .ok content :=
    blockContent_eq_ok_iff.mpr ⟨hholds, by omega⟩
  unfold readBlock
  rw [RawBlock.word_mod hshort]
  refine Meets.check (fun h => absurd hsize (Nat.not_le.mpr h)) fun _ => ?_
  refine Meets.bytes_append rfl (Meets.bind ((readHash_append _ _ _ rest).mono fun r hr => ?_))
  rw [hr]
  simp only [RawBlock.le_word hshort, hblock]
  exact Meets.pure rfl

/-! ## runs of blocks -/

/-- The hash in the making is that of the content so far. -/
def Progress.Sound (p : Progress) (d : Descriptor) : Prop :=
  p.hasher = if d.contentChecksum then Xxh32.Hasher.write {} p.out else {}

theorem Progress.sound_empty (d : Descriptor) : Progress.Sound {} d := by
  unfold Progress.Sound
  rw [Xxh32.Hasher.write_empty, ite_self]

/-- It remains so. -/
theorem Progress.Sound.add {p : Progress} {d : Descriptor} (h : p.Sound d) (content : ByteArray) :
    (p.add d content).Sound d := by
  unfold Progress.Sound at h ⊢
  simp only [Progress.add]
  split
  · next hchecksum => rw [h, if_pos hchecksum, Xxh32.Hasher.write_append]
  · next hchecksum => rw [h, if_neg hchecksum]

/-- Where a hash is stored, it is that of the content. -/
theorem Progress.Sound.hashField_eq {p : Progress} {d : Descriptor} (h : p.Sound d) :
    hashField d.contentChecksum p.hasher.finish =
      hashField d.contentChecksum (Xxh32.hash p.out) := by
  unfold Progress.Sound at h
  unfold hashField
  split
  · next hchecksum => rw [h, if_pos hchecksum, Xxh32.hash]
  · rfl

/-- Blocks that are read follow the grammar. -/
theorem readBlocks_sound (d : Descriptor) (size fuel : Nat) {p : Progress} (hp : p.Sound d) :
    Meets src (readBlocks src d size fuel p) left fun
      | .ok (p', rest) => p'.Sound d ∧ ∃ blocks, Contents d blocks p.out p'.out ∧
          left = encodeBlocks d blocks ++ rest
      | .error e => e.status = Status.compromisedData := by
  induction fuel generalizing p left with
  | zero => exact Meets.throw rfl
  | succ fuel ih =>
      rw [readBlocks]
      refine Meets.le_bind (fun word rest₁ hword hleft => ?_) fun _ => rfl
      refine Meets.ite (fun hzero => ?_) fun hzero => ?_
      · -- the zero word after the blocks
        refine Meets.pure ⟨hp, [], .nil _, ?_⟩
        rw [hleft, hzero, encodeBlocks]
      · refine Meets.bind ((readBlock_sound d size p.out word).mono fun r hr => ?_)
        cases r with
        | error e => exact hr
        | ok a =>
            obtain ⟨payload, hpayload, hmaximum, hrest₁, hholds⟩ := hr
            refine (ih (hp.add a.1)).mono fun r hr => ?_
            cases r with
            | error e => exact hr
            | ok a' =>
                obtain ⟨hp', blocks, hcontents, hrest⟩ := hr
                have hb := RawBlock.word_mk hword hpayload
                refine ⟨hp', ⟨0x80000000 ≤ word, payload⟩ :: blocks, ?_, ?_⟩
                · exact .cons (by rwa [hb]) hmaximum hholds hcontents
                · rw [encodeBlocks, RawBlock.encode, hb, hleft, hrest₁, hrest]
                  simp only [ByteArray.append_assoc]

/-- Blocks that follow the grammar are read, if the content fits. -/
theorem readBlocks_encode {d : Descriptor} {size fuel : Nat} {blocks : List RawBlock}
    {out' : ByteArray} {p : Progress} (hp : p.Sound d) (h : Contents d blocks p.out out')
    (hsize : out'.size ≤ size) (rest : ByteArray)
    (hfuel : (encodeBlocks d blocks ++ rest).size < fuel) :
    Meets src (readBlocks src d size fuel p) (encodeBlocks d blocks ++ rest)
      fun r => ∃ p', r = .ok (p', rest) ∧ p'.Sound d ∧ p'.out = out' := by
  -- by induction on the blocks: the size word of each is paid for with fuel
  generalize hout : p.out = out at h
  induction h generalizing p fuel with
  | nil out =>
      obtain ⟨fuel, rfl⟩ : ∃ n, fuel = n + 1 := ⟨fuel - 1, by omega⟩
      rw [readBlocks, encodeBlocks]
      refine Meets.le_append (by decide) (Meets.ite (fun _ => ?_) fun h => absurd rfl h)
      exact Meets.pure ⟨p, rfl, hp, hout⟩
  | @cons b blocks out content out' hword hmaximum hholds hcontents ih =>
      obtain ⟨fuel, rfl⟩ : ∃ n, fuel = n + 1 := ⟨fuel - 1, by omega⟩
      have hparts : encodeBlocks d (b :: blocks) ++ rest = Bytes.le 4 b.word ++
          (b.payload ++ (hashField d.blockChecksums (Xxh32.hash b.payload) ++
            (encodeBlocks d blocks ++ rest))) := by
        rw [encodeBlocks, RawBlock.encode]
        simp only [ByteArray.append_assoc]
      have hlt := RawBlock.word_lt (BlockMaximum.lt_of_le_bytes hmaximum)
      have hfits : p.out.size + content.size ≤ size := by
        have := hcontents.size_le
        rw [ByteArray.size_append] at this
        rw [hout]
        omega
      have hless : (encodeBlocks d blocks ++ rest).size < fuel := by
        rw [hparts] at hfuel
        simp only [ByteArray.size_append, Bytes.size_le] at hfuel ⊢
        omega
      rw [readBlocks, hparts]
      refine Meets.le_append hlt (Meets.ite (fun h => absurd h hword) fun _ => ?_)
      rw [← hout] at hholds
      refine Meets.bind ((readBlock_append hmaximum hholds hfits _).mono fun r hr => ?_)
      rw [hr]
      exact ih (hp.add content) hsize hless (congrArg (· ++ content) hout)

/-! ## frames -/

/-- What is read after a header follows the grammar. -/
theorem readContent_sound (d : Descriptor) (size : Nat) :
    Meets src (readContent src d size) left fun
      | .ok (out, rest) => out.size = size ∧ ∃ blocks, Contents d blocks ByteArray.empty out ∧
          left = encodeBlocks d blocks ++ (hashField d.contentChecksum (Xxh32.hash out) ++ rest)
      | .error e => e.status = Status.compromisedData := by
  unfold readContent
  refine Meets.get_bind fun inp hbudget => Meets.bind ?_
  refine (readBlocks_sound d size _ (Progress.sound_empty d)).mono fun r hr => ?_
  cases r with
  | error e => exact hr
  | ok a =>
      obtain ⟨p, rest⟩ := a
      obtain ⟨hp, blocks, hcontents, hleft⟩ := hr
      refine Meets.bind ((readHash_sound _ _ fun _ => rfl).mono fun r hr => ?_)
      cases r with
      | error e => exact hr
      | ok a' =>
          obtain ⟨⟨⟩, rest'⟩ := a'
          simp only at hr hleft ⊢
          refine Meets.check (fun _ => rfl) fun hsize => Meets.pure ?_
          rw [Decidable.not_not] at hsize
          refine ⟨hsize, blocks, hcontents, ?_⟩
          rw [hleft, hr, hp.hashField_eq]

/-- What follows the grammar is read after a header. -/
theorem readContent_append {d : Descriptor} {blocks : List RawBlock} {out : ByteArray}
    (h : Contents d blocks ByteArray.empty out) (rest : ByteArray) :
    Meets src (readContent src d out.size)
      (encodeBlocks d blocks ++ (hashField d.contentChecksum (Xxh32.hash out) ++ rest))
      (· = .ok (out, rest)) := by
  unfold readContent
  refine Meets.get_bind fun inp hbudget => Meets.bind ?_
  refine (readBlocks_encode (Progress.sound_empty d) h (Nat.le_refl _) _ (by omega)).mono
    fun r hr => ?_
  obtain ⟨p, rfl, hp, rfl⟩ := hr
  rw [← hp.hashField_eq]
  refine Meets.bind ((readHash_append _ _ _ rest).mono fun r hr => ?_)
  rw [hr]
  exact Meets.check (fun h => absurd rfl h) fun _ => Meets.pure rfl

/-- A header that needs a dictionary or has no content size is not supported. -/
theorem contentSize_of_foreign [Allocator] {d : Descriptor}
    (h : d.dictionary ≠ none ∨ d.contentSize = none) :
    ∃ e, contentSize d = .error e ∧ e.status = Status.unsupported := by
  unfold contentSize
  cases hdictionary : d.dictionary with
  | some id => exact ⟨_, rfl, rfl⟩
  | none =>
      have hsize : d.contentSize = none := h.resolve_left (not_not_intro hdictionary)
      rw [hsize]
      exact ⟨_, rfl, rfl⟩

/-- Any other header has the content size that it says, if the memory is granted. -/
theorem contentSize_of_granted [Allocator] {d : Descriptor} {n : UInt64}
    (hdictionary : d.dictionary = none) (hn : d.contentSize = some n)
    (h : Allocator.grants n.toNat ∧ Allocator.grants d.blockMaximum.bytes) :
    contentSize d = .ok n.toNat := by
  unfold contentSize
  simp only [hdictionary, hn, Buffer.allocate, h, if_true]

/-- If it is not granted then there are no resources for the frame. -/
theorem contentSize_of_refused [Allocator] {d : Descriptor} {n : UInt64}
    (hdictionary : d.dictionary = none) (hn : d.contentSize = some n)
    (h : ¬(Allocator.grants n.toNat ∧ Allocator.grants d.blockMaximum.bytes)) :
    ∃ e, contentSize d = .error e ∧ e.status = Status.outOfResources := by
  unfold contentSize
  by_cases hcontent : Allocator.grants n.toNat
  · have hblock : ¬Allocator.grants d.blockMaximum.bytes := fun hblock => h ⟨hcontent, hblock⟩
    simp only [hdictionary, hn, Buffer.allocate, hcontent, hblock, if_true]
    exact ⟨_, rfl, rfl⟩
  · simp only [hdictionary, hn, Buffer.allocate, hcontent]
    exact ⟨_, rfl, rfl⟩

section

variable [Allocator]

/-- A stream that is read starts with a frame, and one that is not is foreign or
damaged, or its memory is refused. -/
theorem readFrame_sound :
    Meets src (Descriptor.read src >>= readBody src) left fun
      | .ok (out, _) => IsFrame left out
      | .error e => e.status = Status.unsupported ∧ Foreign left ∨
          e.status = Status.outOfResources ∧ Refused left ∨
          e.status = Status.compromisedData := by
  refine Meets.bind (Descriptor.read_sound.mono fun r hr => ?_)
  cases r with
  | error e =>
      rcases hr with ⟨hstatus, hunknown⟩ | ⟨hstatus, -⟩
      · exact Or.inl ⟨hstatus, .unknown hunknown⟩
      · exact Or.inr (Or.inr hstatus)
  | ok a =>
      obtain ⟨d, rest⟩ := a
      simp only at hr ⊢
      subst hr
      unfold readBody
      by_cases hforeign : d.dictionary ≠ none ∨ d.contentSize = none
      · obtain ⟨e, he, hstatus⟩ := contentSize_of_foreign hforeign
        rw [he]
        refine Meets.throw (Or.inl ⟨hstatus, ?_⟩)
        rcases hforeign with h | h
        · exact .dictionary h rest
        · exact .contentSize h rest
      · rw [not_or, Decidable.not_not] at hforeign
        obtain ⟨hdictionary, hsome⟩ := hforeign
        obtain ⟨n, hn⟩ := Option.ne_none_iff_exists'.mp hsome
        by_cases hgranted : Allocator.grants n.toNat ∧ Allocator.grants d.blockMaximum.bytes
        · rw [contentSize_of_granted hdictionary hn hgranted]
          refine (readContent_sound d n.toNat).mono fun r hr => ?_
          cases r with
          | error e => exact Or.inr (Or.inr hr)
          | ok a =>
              obtain ⟨out, rest'⟩ := a
              obtain ⟨hout, blocks, hcontents, hrest⟩ := hr
              rw [hrest]
              exact .intro hdictionary hn hcontents hout rest'
        · obtain ⟨e, he, hstatus⟩ := contentSize_of_refused hdictionary hn hgranted
          rw [he]
          exact Meets.throw (Or.inr (Or.inl ⟨hstatus, .intro hdictionary hn hgranted rest⟩))

/-- A stream that starts with a frame is read, unless its memory is refused. -/
theorem readFrame_of_isFrame {out : ByteArray} (h : IsFrame left out) (hmemory : ¬Refused left) :
    Meets src (Descriptor.read src >>= readBody src) left fun r => ∃ rest, r = .ok (out, rest) := by
  obtain ⟨hdictionary, hn, hcontents, hsize, rest⟩ := h
  have hgranted := Decidable.not_not.mp fun h => hmemory (.intro hdictionary hn h _)
  refine Meets.bind ((Descriptor.read_encode _ _).mono fun r hr => ?_)
  rw [hr]
  simp only [readBody, contentSize_of_granted hdictionary hn hgranted, ← hsize]
  exact (readContent_append hcontents rest).mono fun r hr => ⟨rest, hr⟩

/-- A header without a usable size is not read further. -/
theorem readFrame_of_error {d : Descriptor} {e : FrameError} (h : contentSize d = .error e)
    (rest : ByteArray) :
    Meets src (Descriptor.read src >>= readBody src) (d.encode ++ rest) (· = .error e) := by
  refine Meets.bind ((Descriptor.read_encode _ _).mono fun r hr => ?_)
  rw [hr]
  simp only [readBody, h]
  exact Meets.throw rfl

/-- A foreign stream is not supported. -/
theorem readFrame_of_foreign (h : Foreign left) :
    Meets src (Descriptor.read src >>= readBody src) left
      fun r => ∃ e, r = .error e ∧ e.status = Status.unsupported := by
  cases h with
  | unknown hunknown =>
      refine Meets.bind (Descriptor.read_sound.mono fun r hr => ?_)
      cases r with
      | ok a =>
          simp only at hr
          rw [hr] at hunknown
          exact absurd hunknown (Descriptor.not_unknown_encode _ _)
      | error e =>
          rcases hr with ⟨hstatus, -⟩ | ⟨-, hknown⟩
          · exact ⟨e, rfl, hstatus⟩
          · exact absurd hunknown hknown
  | dictionary h rest =>
      obtain ⟨e, he, hstatus⟩ := contentSize_of_foreign (Or.inl h)
      exact (readFrame_of_error he rest).mono fun r hr => ⟨e, hr, hstatus⟩
  | contentSize h rest =>
      obtain ⟨e, he, hstatus⟩ := contentSize_of_foreign (Or.inr h)
      exact (readFrame_of_error he rest).mono fun r hr => ⟨e, hr, hstatus⟩

/-- There are no resources for a frame whose memory is refused. -/
theorem readFrame_of_refused (h : Refused left) :
    Meets src (Descriptor.read src >>= readBody src) left
      fun r => ∃ e, r = .error e ∧ e.status = Status.outOfResources := by
  obtain ⟨hdictionary, hn, hrefused, rest⟩ := h
  obtain ⟨e, he, hstatus⟩ := contentSize_of_refused hdictionary hn hrefused
  exact (readFrame_of_error he rest).mono fun r hr => ⟨e, hr, hstatus⟩

/-! ## streams -/

/-- What decoding comes to: the content, or the status of the error. -/
def outcome (src : Source σ) (inp : Input σ) : Except Status ByteArray :=
  (decode src inp).value.1.mapError FrameError.status

/-- The outcome is what reading the frame ends with. -/
theorem outcome_of_meets {inp : Input σ} (hinp : inp.Reads src left)
    {Q : Except FrameError (ByteArray × ByteArray) → Prop}
    (h : Meets src (Descriptor.read src >>= readBody src) left Q) :
    (∃ out rest, outcome src inp = .ok out ∧ Q (.ok (out, rest))) ∨
      ∃ e : FrameError, outcome src inp = .error e.status ∧ Q (.error e) := by
  have hend := h inp hinp
  rw [outcome, value_decode]
  generalize (Descriptor.read src >>= readBody src) inp = run at hend ⊢
  rcases run with ⟨e | out, inp'⟩
  · exact Or.inr ⟨e, rfl, hend⟩
  · obtain ⟨rest, -, hQ⟩ := hend
    exact Or.inl ⟨out, rest, rfl, hQ⟩

variable {inp : Input σ} {stream : ByteArray}

/-- A frame comes to its content, unless its memory is refused. -/
theorem outcome_of_isFrame (hinp : inp.Reads src stream) {out : ByteArray}
    (h : IsFrame stream out) (hmemory : ¬Refused stream) : outcome src inp = .ok out := by
  rcases outcome_of_meets hinp (readFrame_of_isFrame h hmemory) with
    ⟨out', rest, hout, rest', hr⟩ | ⟨e, -, rest', hr⟩
  · cases hr
    exact hout
  · cases hr

/-- An error that reading ends with is the outcome. -/
theorem outcome_of_error (hinp : inp.Reads src stream) {status : Status}
    (h : Meets src (Descriptor.read src >>= readBody src) stream
      fun r => ∃ e, r = .error e ∧ e.status = status) :
    outcome src inp = .error status := by
  rcases outcome_of_meets hinp h with ⟨out, rest, -, e, hr, -⟩ | ⟨e, hout, e', hr, hstatus⟩
  · cases hr
  · cases hr
    rw [hout, hstatus]

/-- There are no resources for a frame exactly if its memory is refused. -/
theorem outcome_eq_outOfResources_iff (hinp : inp.Reads src stream) :
    outcome src inp = .error Status.outOfResources ↔ Refused stream := by
  refine ⟨fun h => ?_, fun h => outcome_of_error hinp (readFrame_of_refused h)⟩
  rcases outcome_of_meets hinp readFrame_sound with
    ⟨out, rest, hout, -⟩ | ⟨e, hout, ⟨hstatus, -⟩ | ⟨-, h'⟩ | hstatus⟩
  · cases hout.symm.trans h
  · have hequal : e.status = Status.outOfResources := Except.error.inj (hout.symm.trans h)
    rw [hstatus] at hequal
    cases hequal
  · exact h'
  · have hequal : e.status = Status.outOfResources := Except.error.inj (hout.symm.trans h)
    rw [hstatus] at hequal
    cases hequal

/-- Whether the memory for a frame is refused is for its header to say. -/
theorem not_refused_of_granted {d : Descriptor} {n : UInt64} (hn : d.contentSize = some n)
    (h : Allocator.grants n.toNat ∧ Allocator.grants d.blockMaximum.bytes) (rest : ByteArray) :
    ¬Refused (d.encode ++ rest) := by
  generalize hstream : d.encode ++ rest = stream
  rintro ⟨-, hn', hrefused, rest'⟩
  obtain ⟨rfl, -⟩ := Descriptor.encode_append_inj hstream
  cases hn.symm.trans hn'
  exact hrefused h

/-- **A stream decodes to a content exactly if it starts with a frame of that
content**, if the memory is granted that its header asks for.  Every other stream
ends with an error: a foreign one is not supported, and all others are damaged. -/
theorem outcome_of_stream (hinp : inp.Reads src stream) (hmemory : ¬Refused stream) :
    (∀ out, outcome src inp = .ok out ↔ IsFrame stream out) ∧
      (outcome src inp = .error Status.unsupported ↔ Foreign stream) ∧
      (outcome src inp = .error Status.compromisedData ↔
        ¬Foreign stream ∧ ∀ out, ¬IsFrame stream out) := by
  have hframe : ∀ out, IsFrame stream out → outcome src inp = .ok out :=
    fun out h => outcome_of_isFrame hinp h hmemory
  have hforeign : Foreign stream → outcome src inp = .error Status.unsupported :=
    fun h => outcome_of_error hinp (readFrame_of_foreign h)
  have hcases : (∃ out, outcome src inp = .ok out ∧ IsFrame stream out) ∨
      (outcome src inp = .error Status.unsupported ∧ Foreign stream) ∨
      outcome src inp = .error Status.compromisedData := by
    rcases outcome_of_meets hinp readFrame_sound with
      ⟨out, rest, hout, h⟩ | ⟨e, hout, ⟨hstatus, h⟩ | ⟨-, h⟩ | hstatus⟩
    · exact Or.inl ⟨out, hout, h⟩
    · exact Or.inr (Or.inl ⟨hstatus ▸ hout, h⟩)
    · exact absurd h hmemory
    · exact Or.inr (Or.inr (hstatus ▸ hout))
  have hne : Status.unsupported ≠ Status.compromisedData := by decide
  refine ⟨fun out => ⟨fun h => ?_, hframe out⟩, ⟨fun h => ?_, hforeign⟩, ⟨fun h => ?_, fun h => ?_⟩⟩
  · rcases hcases with ⟨out', hout, h'⟩ | ⟨hout, -⟩ | hout
    · cases hout.symm.trans h
      exact h'
    all_goals cases hout.symm.trans h
  · rcases hcases with ⟨out', hout, -⟩ | ⟨-, h'⟩ | hout
    · cases hout.symm.trans h
    · exact h'
    · exact absurd (Except.error.inj (h.symm.trans hout)) hne
  · refine ⟨fun h' => ?_, fun out h' => ?_⟩
    · exact hne (Except.error.inj ((hforeign h').symm.trans h))
    · cases (hframe out h').symm.trans h
  · rcases hcases with ⟨out', -, h'⟩ | ⟨-, h'⟩ | hout
    · exact absurd h' (h.2 out')
    · exact absurd h' h.1
    · exact hout

end

/-- A frame with one stored block, all of it in memory. -/
theorem outcome_of_stored_block :
    let _ := Allocator.unlimited
    ∃ (inp : Input Supply) (stream : ByteArray), IsFrame stream [7].toByteArray ∧
      inp.Reads (Supply.source 0) stream ∧ ¬Refused stream ∧
      outcome (Supply.source 0) inp = .ok [7].toByteArray := by
  intro _
  -- independent blocks, no hashes, and one byte of content
  obtain ⟨d, hd⟩ : ∃ d : Descriptor, d = ⟨true, false, false, .kib64, some 1, none⟩ := ⟨_, rfl⟩
  have hdictionary : d.dictionary = none := by rw [hd]
  have hsize : d.contentSize = some 1 := by rw [hd]
  have hmaximum : d.blockMaximum = .kib64 := by rw [hd]
  have hcontents : Contents d [⟨true, [7].toByteArray⟩] ByteArray.empty [7].toByteArray := by
    have hlast : Contents d [] (ByteArray.empty ++ [7].toByteArray) [7].toByteArray := by
      rw [ByteArray.empty_append]
      exact .nil _
    have hshort : [7].toByteArray.size ≤ d.blockMaximum.bytes := by
      rw [hmaximum]
      decide
    exact .cons (by decide) hshort rfl hlast
  have hframe := IsFrame.intro hdictionary hsize hcontents rfl ByteArray.empty
  have hmemory : Allocator.grants (1 : UInt64).toNat ∧ Allocator.grants d.blockMaximum.bytes := by
    rw [hmaximum]
    decide
  have hgranted := not_refused_of_granted hsize hmemory (encodeBlocks d [⟨true, [7].toByteArray⟩] ++
    (hashField d.contentChecksum (Xxh32.hash [7].toByteArray) ++ ByteArray.empty))
  generalize hstream : d.encode ++ _ = stream at hframe hgranted
  have hpos : 0 < stream.size := by
    rw [← hstream, Descriptor.encode_append, ByteArray.size_append, Bytes.size_le]
    omega
  have hsource : (Supply.source 0).Delivers { bytes := ByteArray.empty } ByteArray.empty := by
    have h := Supply.delivers 0 (s := { bytes := ByteArray.empty }) (by decide)
    rwa [Bytes.drop_zero] at h
  have hreads : (Input.start (Buffer.ofBytes stream) { bytes := ByteArray.empty }
      stream.size).Reads (Supply.source 0) ((Buffer.ofBytes stream).committed ++ ByteArray.empty) :=
    Input.reads_start hsource rfl (Nat.le_refl _) hpos
  rw [Buffer.committed_ofBytes, ByteArray.append_empty] at hreads
  exact ⟨_, stream, hframe, hreads, hgranted,
    (outcome_of_stream hreads hgranted).1 _ |>.mpr hframe⟩

end EfiLoader.Lz4.Frame
