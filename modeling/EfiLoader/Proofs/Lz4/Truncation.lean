import EfiLoader.Proofs.Except
import EfiLoader.Proofs.Consumption
import EfiLoader.Proofs.Lz4.Decode

/-!
# EfiLoader.Proofs.Lz4.Truncation

Frames say themselves where they end.  `Encodes frame out` is a frame of the
content `out` without anything behind it:

* `exists_encodes_of_decode`, `decode_of_encodes` — decoding uses up one frame;
* `Encodes.unique` — no frame is the beginning of another one;
* `Foreign.append`, `Refused.append` — what a stream starts with does not
  depend on how it goes on;
* `outcome_of_cut` — so a frame that is cut off is damaged.
-/

namespace EfiLoader.Lz4

open Hash Reader

variable {σ : Type} {src : Source σ} {inp inp' : Input σ} {left frame out rest : ByteArray}

/-! ## streams that go on -/

/-- Another magic number or version remains one. -/
theorem Descriptor.Unknown.append {bs : ByteArray} (h : Descriptor.Unknown bs)
    (more : ByteArray) : Descriptor.Unknown (bs ++ more) := by
  have hnumber : 4 ≤ bs.size → Bytes.leNat (bs ++ more) 0 4 = Bytes.leNat bs 0 4 := fun hsize =>
    Bytes.leNat_append_left (by omega)
  unfold Descriptor.Unknown at h ⊢
  rw [ByteArray.size_append]
  cases h with
  | inl h =>
      left
      rw [hnumber h.1]
      exact ⟨by omega, h.2⟩
  | inr h =>
      right
      have hbyte : Bytes.byte (bs ++ more) 4 = Bytes.byte bs 4 :=
        Bytes.byte_append_left (by omega)
      rw [hnumber (by omega), hbyte]
      exact ⟨by omega, h.2⟩

/-- A foreign stream remains foreign however it goes on. -/
theorem Foreign.append (h : Foreign left) (more : ByteArray) : Foreign (left ++ more) := by
  cases h with
  | unknown h => exact .unknown (h.append more)
  | dictionary h rest =>
      rw [ByteArray.append_assoc]
      exact .dictionary h _
  | contentSize h rest =>
      rw [ByteArray.append_assoc]
      exact .contentSize h _

/-- So does a header whose memory is refused. -/
theorem Refused.append [Allocator] (h : Refused left) (more : ByteArray) :
    Refused (left ++ more) := by
  obtain ⟨hdictionary, hn, hrefused, rest⟩ := h
  rw [ByteArray.append_assoc]
  exact .intro hdictionary hn hrefused _

namespace Frame

/-! ## frames and what follows them -/

section

variable [Allocator]

/-- The bytes are a frame with the given content, for which memory is granted,
and no more than that. -/
inductive Encodes : (frame out : ByteArray) → Prop
  | intro {d : Descriptor} {n : UInt64} {blocks : List RawBlock} {out : ByteArray}
      (dictionary : d.dictionary = none) (contentSize : d.contentSize = some n)
      (contents : Contents d blocks ByteArray.empty out) (size : out.size = n.toNat)
      (memory : Allocator.grants n.toNat ∧ Allocator.grants d.blockMaximum.bytes) :
      Encodes (d.encode ++ (encodeBlocks d blocks ++
        hashField d.contentChecksum (Xxh32.hash out))) out

theorem Encodes.size_pos (h : Encodes frame out) : 0 < frame.size := by
  obtain ⟨-, -, -, -, -⟩ := h
  rw [ByteArray.size_append, Descriptor.encode_eq, ByteArray.size_append, Bytes.size_le]
  omega

/-- A usable size is one that the header says and for which memory is granted. -/
theorem of_contentSize_eq_ok {d : Descriptor} {size : Nat} (h : contentSize d = .ok size) :
    d.dictionary = none ∧ ∃ n, d.contentSize = some n ∧ size = n.toNat ∧
      (Allocator.grants n.toNat ∧ Allocator.grants d.blockMaximum.bytes) := by
  by_cases hforeign : d.dictionary ≠ none ∨ d.contentSize = none
  · obtain ⟨e, he, -⟩ := contentSize_of_foreign hforeign
    rw [he] at h
    cases h
  · simp only [not_or, Decidable.not_not] at hforeign
    obtain ⟨hdictionary, hsome⟩ := hforeign
    obtain ⟨n, hn⟩ := Option.ne_none_iff_exists'.mp hsome
    by_cases hmemory : Allocator.grants n.toNat ∧ Allocator.grants d.blockMaximum.bytes
    · rw [contentSize_of_granted hdictionary hn hmemory] at h
      cases h
      exact ⟨hdictionary, n, hn, rfl, hmemory⟩
    · obtain ⟨e, he, -⟩ := contentSize_of_refused hdictionary hn hmemory
      rw [he] at h
      cases h

/-- What is read is one frame, and what follows it is left. -/
theorem readFrame_encodes :
    Meets src (Descriptor.read src >>= readBody src) left fun
      | .ok (out, rest) => ∃ frame, Encodes frame out ∧ left = frame ++ rest
      | .error _ => True := by
  apply Meets.bind
  apply Descriptor.read_sound.mono
  intro r hr
  cases r with
  | error e => trivial
  | ok a =>
      obtain ⟨d, rest⟩ := a
      simp only at hr ⊢
      unfold readBody
      cases hsize : contentSize d with
      | error e => exact Meets.throw trivial
      | ok size =>
          obtain ⟨hdictionary, n, hn, hsame, hmemory⟩ := of_contentSize_eq_ok hsize
          apply (readContent_sound d size).mono
          intro r hr'
          cases r with
          | error e => trivial
          | ok a =>
              obtain ⟨out, rest'⟩ := a
              obtain ⟨hout, blocks, hcontents, hrest⟩ := hr'
              have hencodes := Encodes.intro hdictionary hn hcontents (hout.trans hsame) hmemory
              have hbytes : left = d.encode ++ (encodeBlocks d blocks ++
                  hashField d.contentChecksum (Xxh32.hash out)) ++ rest' := by
                rw [hr, hrest]
                simp only [ByteArray.append_assoc]
              exact ⟨_, hencodes, hbytes⟩

/-- A frame is read, and what follows it is left. -/
theorem readFrame_append (h : Encodes frame out) (rest : ByteArray) :
    Meets src (Descriptor.read src >>= readBody src) (frame ++ rest) (· = .ok (out, rest)) := by
  obtain ⟨hdictionary, hn, hcontents, hsize, hmemory⟩ := h
  simp only [ByteArray.append_assoc]
  apply Meets.bind
  apply (Descriptor.read_encode _ _).mono
  intro r hr
  rw [hr]
  simp only [readBody, contentSize_of_granted hdictionary hn hmemory, ← hsize]
  exact readContent_append hcontents rest

/-- Decoding uses up one frame. -/
theorem exists_encodes_of_decode (hinp : inp.Reads src left)
    (hrun : (decode src inp).value = (.ok out, inp')) :
    ∃ frame rest, Encodes frame out ∧ left = frame ++ rest ∧ inp'.Reads src rest := by
  have hends := readFrame_encodes inp hinp
  rw [← value_decode, hrun] at hends
  obtain ⟨rest, hrest, frame, hframe, hleft⟩ := hends
  exact ⟨frame, rest, hframe, hleft, hrest⟩

/-- A frame is decoded, whatever follows it. -/
theorem decode_of_encodes (h : Encodes frame out) (hinp : inp.Reads src (frame ++ rest)) :
    ∃ inp', (decode src inp).value = (.ok out, inp') ∧ inp'.Reads src rest := by
  have hends := readFrame_append h rest inp hinp
  rw [← value_decode] at hends
  cases hrun : (decode src inp).value with
  | mk answer inp' =>
    rw [hrun] at hends
    cases answer with
    | error e => cases hends
    | ok out' =>
        obtain ⟨rest', hrest', heq⟩ := hends
        cases heq
        exact ⟨inp', rfl, hrest'⟩

/-- **No frame is the beginning of another one**: streams with the same bytes
start with the same frame. -/
theorem Encodes.unique {frame' out' rest' : ByteArray} (h : Encodes frame out)
    (h' : Encodes frame' out') (heq : frame ++ rest = frame' ++ rest') :
    frame = frame' ∧ out = out' := by
  -- both are what one and the same run uses up
  have hpos : 0 < (frame ++ rest).size := by
    have := h.size_pos
    rw [ByteArray.size_append]
    omega
  have hinp := @Input.reads_supply (frame ++ rest) 1 1 hpos Nat.one_pos Nat.one_pos
  obtain ⟨inp₁, hrun, hleft⟩ := decode_of_encodes h hinp
  rw [heq] at hinp
  obtain ⟨inp₂, hrun', hleft'⟩ := decode_of_encodes h' hinp
  rw [← heq, hrun] at hrun'
  cases hrun'
  rw [← heq] at hleft'
  rw [hleft.unique hleft', ByteArray.append_left_inj] at heq
  exact ⟨heq, rfl⟩

/-! ## streams that are cut off -/

theorem outcome_eq_ok_iff :
    outcome src inp = .ok out ↔ ∃ inp', (decode src inp).value = (.ok out, inp') := by
  unfold outcome
  cases hrun : (decode src inp).value with
  | mk answer inp' =>
    cases answer with
    | error e => simp
    | ok out' => simp

theorem Encodes.not_foreign (h : Encodes frame out) : ¬Foreign frame := by
  intro hforeign
  have hinp := @Input.reads_supply frame 1 1 h.size_pos Nat.one_pos Nat.one_pos
  have hfailed := outcome_of_error hinp (readFrame_of_foreign hforeign)
  rw [← @ByteArray.append_empty frame] at hinp
  obtain ⟨inp', hrun, -⟩ := decode_of_encodes h hinp
  have hok := outcome_eq_ok_iff.mpr ⟨inp', hrun⟩
  rw [ByteArray.append_empty, hfailed] at hok
  cases hok

theorem Encodes.not_refused (h : Encodes frame out) : ¬Refused frame := by
  obtain ⟨-, hn, -, -, hmemory⟩ := h
  exact not_refused_of_granted hn hmemory _

/-- A frame that is cut off is damaged. -/
theorem outcome_of_cut {more : ByteArray} (h : Encodes (left ++ more) out)
    (hmore : more.size ≠ 0) (hinp : inp.Reads src left) :
    outcome src inp = .error Status.compromisedData := by
  cases outcome_of_meets hinp readFrame_sound with
  | inl hok =>
      -- a frame that is read would be a beginning of the one that is cut off
      obtain ⟨out', -, hout, -⟩ := hok
      obtain ⟨inp', hrun⟩ := outcome_eq_ok_iff.mp hout
      obtain ⟨frame, rest, hframe, hleft, -⟩ := exists_encodes_of_decode hinp hrun
      have hbytes : (left ++ more) ++ ByteArray.empty = frame ++ (rest ++ more) := by
        rw [ByteArray.append_empty, hleft, ByteArray.append_assoc]
      have hsize := congrArg ByteArray.size (h.unique hframe hbytes).1
      rw [hleft] at hsize
      simp only [ByteArray.size_append] at hsize
      omega
  | inr herror =>
      obtain ⟨e, hout, hreason⟩ := herror
      rw [hout]
      rcases hreason with ⟨-, hforeign⟩ | ⟨-, hrefused⟩ | hstatus
      · exact absurd (hforeign.append more) h.not_foreign
      · exact absurd (hrefused.append more) h.not_refused
      · rw [hstatus]

/-- **Frames delimit themselves.**  If a stream is decoded and its first `n`
bytes are used for that, then no fewer of them are ever decoded or said to be
anything but damaged, and with those `n` bytes any other stream is decoded to
the same content and goes on after them.  Both hold however the bytes are cut
into chunks. -/
theorem decode_self_delimiting {stream : ByteArray} (hinp : inp.Reads src stream)
    (hrun : (decode src inp).value = (.ok out, inp')) :
    ∃ n, n ≤ stream.size ∧
      (∀ m, m ≤ stream.size → (inp'.Reads src (Bytes.drop stream m) ↔ m = n)) ∧
      (∀ k, k < n → ∀ {τ : Type} (cut : Source τ) (short : Input τ),
        short.Reads cut (stream.extract 0 k) →
          outcome cut short = .error Status.compromisedData) ∧
      ∀ (more : ByteArray) {τ : Type} (joined : Source τ) (long : Input τ),
        long.Reads joined (stream.extract 0 n ++ more) →
          ∃ long', (decode joined long).value = (.ok out, long') ∧ long'.Reads joined more := by
  obtain ⟨frame, rest, hframe, hstream, hrest⟩ := exists_encodes_of_decode hinp hrun
  have hsize : stream.size = frame.size + rest.size := by
    rw [hstream, ByteArray.size_append]
  have hfirst : stream.extract 0 frame.size = frame := by
    rw [hstream, ByteArray.extract_append_eq_left rfl]
  have hused : ∀ m, m ≤ stream.size →
      (inp'.Reads src (Bytes.drop stream m) ↔ m = frame.size) := by
    intro m hm
    constructor
    · intro hleft
      have hleftSize := congrArg ByteArray.size (hleft.unique hrest)
      rw [Bytes.size_drop] at hleftSize
      omega
    · intro hequal
      rw [hequal, hstream, Bytes.drop_append rest rfl]
      exact hrest
  have hcut : ∀ k, k < frame.size → ∀ {τ : Type} (cut : Source τ) (short : Input τ),
      short.Reads cut (stream.extract 0 k) →
        outcome cut short = .error Status.compromisedData := by
    intro k hk τ cut short hshort
    have hparts : stream.extract 0 k ++ Bytes.drop frame k = frame := by
      rw [hstream, Bytes.extract_append_left rest (by omega), Bytes.extract_append_drop]
    rw [← hparts] at hframe
    have hmore : (Bytes.drop frame k).size ≠ 0 := by
      rw [Bytes.size_drop]
      omega
    exact outcome_of_cut hframe hmore hshort
  refine ⟨frame.size, by omega, hused, hcut, ?_⟩
  intro more τ joined long hlong
  rw [hfirst] at hlong
  exact decode_of_encodes hframe hlong

end

/-- A header without hashes, for one byte of content. -/
def shortDescriptor : Descriptor where
  independentBlocks := true
  blockChecksums := false
  contentChecksum := false
  blockMaximum := .kib64
  contentSize := some 1
  dictionary := none

/-- The frame with this header whose one block is stored. -/
def shortFrame : ByteArray :=
  shortDescriptor.encode ++ (encodeBlocks shortDescriptor [⟨true, [7].toByteArray⟩] ++
    ByteArray.empty)

theorem encodes_shortFrame [Allocator]
    (h : Allocator.grants 1 ∧ Allocator.grants shortDescriptor.blockMaximum.bytes) :
    Encodes shortFrame [7].toByteArray := by
  have hlast : Contents shortDescriptor [] (ByteArray.empty ++ [7].toByteArray)
      [7].toByteArray := by
    rw [ByteArray.empty_append]
    exact .nil _
  have hcontents : Contents shortDescriptor [⟨true, [7].toByteArray⟩] ByteArray.empty
      [7].toByteArray := .cons (by decide) (by decide) rfl hlast
  exact .intro rfl rfl hcontents rfl h

/-- The frame with two bytes behind it, of which every read has at most three. -/
theorem decode_self_delimiting_short :
    let _ := Allocator.unlimited
    ∃ inp inp' : Input Supply,
      inp.Reads (Supply.source 26) (shortFrame ++ Bytes.zeros 2) ∧
      (decode (Supply.source 26) inp).value = (.ok [7].toByteArray, inp') ∧
      ∀ k, k < 24 → ∀ {τ : Type} (cut : Source τ) (short : Input τ),
        short.Reads cut (shortFrame.extract 0 k) →
          outcome cut short = .error Status.compromisedData := by
  intro _
  have hsize : shortFrame.size = 24 := by
    simp only [shortFrame, Descriptor.encode_eq, Descriptor.fields_eq, encodeBlocks,
      RawBlock.encode, ByteArray.size_append, Bytes.size_le]
    rfl
  have hall : (shortFrame ++ Bytes.zeros 2).size = 26 := by
    rw [ByteArray.size_append, hsize, Bytes.size_zeros]
  have hpos : 0 < (shortFrame ++ Bytes.zeros 2).size := by omega
  have hinp := @Input.reads_supply (shortFrame ++ Bytes.zeros 2) 5 3 hpos (by decide) (by decide)
  obtain ⟨inp', hrun, hrest⟩ := decode_of_encodes (encodes_shortFrame (by decide)) hinp
  obtain ⟨n, hn, hused, hcut, -⟩ := decode_self_delimiting hinp hrun
  have hsame : 24 = n := by
    apply (hused 24 (by omega)).mp
    rw [Bytes.drop_append (Bytes.zeros 2) hsize.symm]
    exact hrest
  rw [hall] at hinp hrun
  refine ⟨_, inp', hinp, hrun, ?_⟩
  intro k hk τ cut short hshort
  have hfirst : (shortFrame ++ Bytes.zeros 2).extract 0 k = shortFrame.extract 0 k :=
    Bytes.extract_append_left _ (by omega)
  exact hcut k (by omega) cut short (hfirst ▸ hshort)

end Frame

end EfiLoader.Lz4
