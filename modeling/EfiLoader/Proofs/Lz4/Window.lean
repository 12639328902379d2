import EfiLoader.Proofs.Consumption
import EfiLoader.Proofs.Lz4.Decode

/-!
# EfiLoader.Proofs.Lz4.Window

The window of linked blocks.  A block that continues the content before it is
decoded with the last 64 KiB of that content.  Here the blocks of a frame are
decoded in three ways, which differ in what a match can reach:

* `window` — the last 64 KiB of the content, as frames are decoded;
* `whole` — all of the content in front of the block;
* `onto` — one output that only grows, where a block goes on where the one
  before it has ended.

`trace` follows a list of blocks up to the first that is damaged, and
`readBodyWith` reads them from an input.  `decode_of_linked` says that it is
the same with each of the three, block by block.
-/

namespace EfiLoader.Lz4.Frame

open Hash Reader

/-! ## ways to decode blocks -/

/-- The content `out` with that of a compressed block after it, of at most
`size` bytes in all. -/
abbrev Extension := (size : Nat) → (out payload : ByteArray) → Option ByteArray

/-- A match reaches into the last 64 KiB. -/
def window : Extension := fun size out payload =>
  (Block.decode (Bytes.drop out (out.size - historyLimit)) (size - out.size) payload).map (out ++ ·)

/-- A match reaches into all content before the block. -/
def whole : Extension := fun size out payload =>
  (Block.decode out (size - out.size) payload).map (out ++ ·)

/-- The sequences of a block are executed on the output itself. -/
def onto : Extension := fun size out payload => Block.decodeFrom payload size out 0

/-- The content after a block. -/
def addBlock (extend : Extension) (size : Nat) (out : ByteArray) (b : RawBlock) :
    Except FrameError ByteArray :=
  if b.stored then
    if b.payload.size ≤ size - out.size then .ok (out ++ b.payload) else .error .overflow
  else
    match extend size out b.payload with
    | some out => .ok out
    | none => .error .malformedBlock

/-- What becomes of blocks. -/
structure Trace where
  /-- The content after each block that could be decoded. -/
  outputs : List ByteArray := []
  /-- What is wrong with the block after those. -/
  failure : Option FrameError := none

namespace Trace

/-- The content in the end, after the content `out`. -/
def content (t : Trace) (out : ByteArray) : ByteArray := t.outputs.getLastD out

/-- What a frame with `size` bytes of content comes to. -/
def answer (t : Trace) (size : Nat) : Except FrameError ByteArray :=
  match t.failure with
  | some e => .error e
  | none =>
    if (t.content ByteArray.empty).size = size then
      .ok (t.content ByteArray.empty)
    else
      .error (.contentSize (t.content ByteArray.empty).size size)

end Trace

/-- Decode blocks after the content `out`, up to the first that is damaged. -/
def trace (extend : Extension) (size : Nat) : ByteArray → List RawBlock → Trace
  | _, [] => {}
  | out, b :: blocks =>
    match addBlock extend size out b with
    | .error e => { failure := some e }
    | .ok out =>
      let rest := trace extend size out blocks
      { rest with outputs := out :: rest.outputs }

/-! ## frames -/

section

variable {σ : Type} (src : Source σ) (d : Descriptor) (extend : Extension) (size : Nat)

/-- Read the rest of a block whose size word is `word`; the answer is the
content after it. -/
def readBlockWith (out : ByteArray) (word : Nat) : Reader σ FrameError ByteArray := do
  let length := word % 0x80000000
  if d.blockMaximum.bytes < length then
    throw (.blockLength length)
  let payload ← Reader.bytes src .input length
  readHash src d.blockChecksums (Xxh32.hash payload) fun _ => .blockChecksum
  liftExcept (addBlock extend size out ⟨0x80000000 ≤ word, payload⟩)

/-- Read blocks up to the zero word; the answer is the content after them. -/
def readBlocksWith : (fuel : Nat) → (out : ByteArray) → Reader σ FrameError ByteArray
  | 0, _ => throw (.input .exhausted)
  | fuel + 1, out => do
    let word ← Reader.le src .input 4
    if word = 0 then
      return out
    else
      let out ← readBlockWith src d extend size out word
      readBlocksWith fuel out

/-- Read everything after the header of a frame with `size` bytes of content;
the content is hashed when all of it is there. -/
def readContentWith : Reader σ FrameError ByteArray := do
  let inp ← get
  let out ← readBlocksWith src d extend size (inp.budget + 1) ByteArray.empty
  readHash src d.contentChecksum (Xxh32.hash out) (.contentChecksum (Xxh32.hash out))
  if out.size ≠ size then
    throw (.contentSize out.size size)
  return out

/-- Read everything after the header of a frame. -/
def readBodyWith [Allocator] : Reader σ FrameError ByteArray :=
  match contentSize d with
  | .error e => throw e
  | .ok size => readContentWith src d extend size

end

/-! ## blocks that are read -/

/-- Blocks that can be written in a frame: no size word is zero, which would
end the frame, and no payload is too long. -/
def Writable (d : Descriptor) (blocks : List RawBlock) : Prop :=
  ∀ b ∈ blocks, b.word ≠ 0 ∧ b.payload.size ≤ d.blockMaximum.bytes

section

variable {σ : Type} {src : Source σ} {d : Descriptor} {extend : Extension} {size : Nat}

/-- A block that is written is read, and decoded. -/
theorem readBlockWith_append {b : RawBlock} (hsize : b.payload.size ≤ d.blockMaximum.bytes)
    (out rest : ByteArray) :
    Meets src (readBlockWith src d extend size out b.word)
      (b.payload ++ (hashField d.blockChecksums (Xxh32.hash b.payload) ++ rest))
      (· = (addBlock extend size out b).map (·, rest)) := by
  have hshort := BlockMaximum.lt_of_le_bytes hsize
  unfold readBlockWith
  rw [RawBlock.word_mod hshort, RawBlock.le_word hshort]
  apply Meets.check
  · intro hlong
    exact absurd hsize (Nat.not_le.mpr hlong)
  · intro _
    apply Meets.bytes_append rfl
    apply Meets.bind
    apply (readHash_append _ _ _ rest).mono
    rintro r rfl
    exact Meets.liftExcept rfl

/-- Blocks that are written are read as far as the trace goes. -/
theorem readBlocksWith_append {blocks : List RawBlock} (hblocks : Writable d blocks)
    {fuel : Nat} (out rest : ByteArray) (hfuel : (encodeBlocks d blocks ++ rest).size < fuel) :
    Meets src (readBlocksWith src d extend size fuel out) (encodeBlocks d blocks ++ rest)
      fun r => match (trace extend size out blocks).failure with
        | some e => r = .error e
        | none => r = .ok ((trace extend size out blocks).content out, rest) := by
  induction blocks generalizing out fuel with
  | nil =>
      obtain ⟨fuel, rfl⟩ : ∃ n, fuel = n + 1 := ⟨fuel - 1, by omega⟩
      rw [readBlocksWith, encodeBlocks]
      apply Meets.le_append (by decide)
      exact Meets.ite (fun _ => Meets.pure rfl) fun h => absurd rfl h
  | cons b blocks ih =>
      obtain ⟨fuel, rfl⟩ : ∃ n, fuel = n + 1 := ⟨fuel - 1, by omega⟩
      obtain ⟨⟨hword, hsize⟩, hothers⟩ := List.forall_mem_cons.mp hblocks
      have hparts : encodeBlocks d (b :: blocks) ++ rest = Bytes.le 4 b.word ++
          (b.payload ++ (hashField d.blockChecksums (Xxh32.hash b.payload) ++
            (encodeBlocks d blocks ++ rest))) := by
        simp only [encodeBlocks, RawBlock.encode, ByteArray.append_assoc]
      have hless : (encodeBlocks d blocks ++ rest).size < fuel := by
        rw [hparts] at hfuel
        simp only [ByteArray.size_append, Bytes.size_le] at hfuel ⊢
        omega
      rw [readBlocksWith, hparts, trace]
      apply Meets.le_append (RawBlock.word_lt (BlockMaximum.lt_of_le_bytes hsize))
      apply Meets.ite
      · intro hzero
        exact absurd hzero hword
      · intro _
        apply Meets.bind
        apply (readBlockWith_append hsize out _).mono
        rintro r rfl
        cases hb : addBlock extend size out b with
        | error e => rfl
        | ok out' =>
            have hrest := ih hothers out' hless
            simpa only [Except.map, Trace.content, List.getLastD_cons] using hrest

/-- A frame whose hashes are right comes to what the trace says. -/
theorem readContentWith_append {blocks : List RawBlock} (hblocks : Writable d blocks)
    (rest : ByteArray) :
    Meets src (readContentWith src d extend size)
      (encodeBlocks d blocks ++ (hashField d.contentChecksum
        (Xxh32.hash ((trace extend size ByteArray.empty blocks).content ByteArray.empty)) ++ rest))
      fun r => r.map Prod.fst = (trace extend size ByteArray.empty blocks).answer size := by
  unfold readContentWith
  apply Meets.get_bind
  intro inp hbudget
  apply Meets.bind
  apply (readBlocksWith_append hblocks ByteArray.empty _ (Nat.lt_succ_of_le hbudget)).mono
  intro r hr
  unfold Trace.answer
  cases hfailure : (trace extend size ByteArray.empty blocks).failure with
  | some e =>
      rw [hfailure] at hr
      simp only at hr
      rw [hr]
      rfl
  | none =>
      rw [hfailure] at hr
      simp only at hr
      rw [hr]
      apply Meets.bind
      apply (readHash_append _ _ _ rest).mono
      rintro r rfl
      apply Meets.check
      · intro hsize
        rw [if_neg hsize]
        rfl
      · intro hsize
        rw [if_pos (Decidable.not_not.mp hsize)]
        exact Meets.pure rfl

end

/-! ## the ways compared -/

/-- Two ways to decode blocks do the same with contents that are not too long
already, and keep them so. -/
structure Interchangeable (size : Nat) (f g : Extension) : Prop where
  same : ∀ {out : ByteArray} (payload), out.size ≤ size → f size out payload = g size out payload
  bound : ∀ {out payload out' : ByteArray}, out.size ≤ size → f size out payload = some out' →
    out'.size ≤ size

namespace Interchangeable

variable {size : Nat} {f g k : Extension}

theorem trans (h : Interchangeable size f g) (h' : Interchangeable size g k) :
    Interchangeable size f k where
  same payload hout := (h.same payload hout).trans (h'.same payload hout)
  bound hout hsome := h.bound hout hsome

theorem addBlock_eq (h : Interchangeable size f g) {out : ByteArray} (hout : out.size ≤ size)
    (b : RawBlock) : addBlock f size out b = addBlock g size out b := by
  simp only [addBlock, h.same b.payload hout]

theorem size_addBlock (h : Interchangeable size f g) {out out' : ByteArray} {b : RawBlock}
    (hout : out.size ≤ size) (hb : addBlock f size out b = .ok out') : out'.size ≤ size := by
  unfold addBlock at hb
  split at hb
  · split at hb
    · cases hb
      rw [ByteArray.size_append]
      omega
    · cases hb
  · split at hb
    · next out'' hsome =>
      cases hb
      exact h.bound hout hsome
    · cases hb

/-- They do the same with every list of blocks. -/
theorem trace_eq (h : Interchangeable size f g) {out : ByteArray} (hout : out.size ≤ size)
    (blocks : List RawBlock) : trace f size out blocks = trace g size out blocks := by
  induction blocks generalizing out with
  | nil => rfl
  | cons b blocks ih =>
      rw [trace, trace, ← h.addBlock_eq hout b]
      cases hb : addBlock f size out b with
      | error e => rfl
      | ok out' => simp only [ih (h.size_addBlock hout hb)]

variable {σ : Type} (src : Source σ) (d : Descriptor)

/-- They do the same with every block that is read. -/
theorem readBlocksWith_eq (h : Interchangeable size f g) (fuel : Nat) {out : ByteArray}
    (hout : out.size ≤ size) :
    readBlocksWith src d f size fuel out = readBlocksWith src d g size fuel out := by
  induction fuel generalizing out with
  | zero => rfl
  | succ fuel ih =>
      have hrest : ∀ b, (liftExcept (addBlock f size out b) >>= readBlocksWith src d f size fuel :
          Reader σ FrameError ByteArray) =
            liftExcept (addBlock g size out b) >>= readBlocksWith src d g size fuel := by
        intro b
        rw [← h.addBlock_eq hout b]
        cases hb : addBlock f size out b with
        | error e => rw [liftExcept_error_bind, liftExcept_error_bind]
        | ok out' =>
            rw [liftExcept_ok_bind, liftExcept_ok_bind]
            exact ih (h.size_addBlock hout hb)
      simp only [readBlocksWith, readBlockWith]
      refine bind_congr fun word => ?_
      split
      · rfl
      · split
        · simp only [throw_bind]
        · simp only [bind_assoc, hrest]

/-- They do the same with every frame. -/
theorem readContentWith_eq (h : Interchangeable size f g) :
    readContentWith src d f size = readContentWith src d g size := by
  have hempty : ByteArray.empty.size ≤ size := Nat.zero_le size
  simp only [readContentWith, h.readBlocksWith_eq src d _ hempty]

end Interchangeable

/-- The last 64 KiB are as good as all of the content. -/
theorem interchangeable_window_whole (size : Nat) : Interchangeable size window whole where
  same {out} payload _ := by
    simp only [window, whole, Block.decode_drop_history]
  bound {out payload out'} hout hsome := by
    simp only [window, Block.decode_drop_history, Option.map_eq_some_iff] at hsome
    obtain ⟨content, hcontent, rfl⟩ := hsome
    have hroom := (Block.decode_eq_some_iff.mp hcontent).2
    rw [ByteArray.size_append]
    omega

/-- Putting a block behind all of the content is to go on with that content. -/
theorem interchangeable_whole_onto (size : Nat) : Interchangeable size whole onto where
  same {out} payload hout := by
    have hlimit : out.size + (size - out.size) = size := by omega
    simp only [whole, onto, Block.decode, hlimit, Option.map_map]
    cases hfrom : Block.decodeFrom payload size out 0 with
    | none => rfl
    | some out' =>
        obtain ⟨content, rfl⟩ := (Block.continues_of_decodeFrom hfrom).1.exists_append
        simp [Bytes.drop_append content rfl]
  bound {out payload out'} hout hsome := by
    simp only [whole, Option.map_eq_some_iff] at hsome
    obtain ⟨content, hcontent, rfl⟩ := hsome
    have hroom := (Block.decode_eq_some_iff.mp hcontent).2
    rw [ByteArray.size_append]
    omega

/-! ## frames as they are decoded -/

section

variable {σ : Type} (src : Source σ) {d : Descriptor}

/-- A block of a linked frame is decoded with a window. -/
theorem blockContent_eq (linked : d.independentBlocks = false) (size : Nat) (out : ByteArray)
    (b : RawBlock) :
    (out ++ ·) <$> blockContent d out (size - out.size) b.stored b.payload =
      addBlock window size out b := by
  have hhistory : history d out = Bytes.drop out (out.size - historyLimit) := by
    simp [history, linked]
  unfold blockContent addBlock window
  rw [hhistory]
  cases b.stored with
  | true =>
      simp only [if_true]
      split <;> rfl
  | false =>
      simp only [Bool.false_eq_true, if_false]
      cases Block.decode (Bytes.drop out (out.size - historyLimit)) (size - out.size) b.payload <;>
        rfl

theorem readBlock_eq (linked : d.independentBlocks = false) (size : Nat) (out : ByteArray)
    (word : Nat) :
    (out ++ ·) <$> readBlock src d size out word = readBlockWith src d window size out word := by
  simp only [readBlock, readBlockWith]
  split
  · rfl
  · simp only [map_bind]
    refine bind_congr fun payload => bind_congr fun _ => ?_
    have hblock := blockContent_eq linked size out ⟨0x80000000 ≤ word, payload⟩
    dsimp only at hblock
    rw [← hblock]
    cases blockContent d out (size - out.size) (0x80000000 ≤ word) payload with
    | ok content => rfl
    | error e => rfl

/-- The progress with a given content, with the hash of it if one is asked for. -/
def Progress.of (d : Descriptor) (out : ByteArray) : Progress where
  out
  hasher := if d.contentChecksum then Xxh32.Hasher.write {} out else {}

theorem Progress.of_empty (d : Descriptor) : Progress.of d ByteArray.empty = {} := by
  simp [Progress.of, Xxh32.Hasher.write_empty]

theorem Progress.add_of (d : Descriptor) (out content : ByteArray) :
    (Progress.of d out).add d content = Progress.of d (out ++ content) := by
  simp only [Progress.of, Progress.add]
  split
  · rw [Xxh32.Hasher.write_append]
  · rfl

/-- So are the blocks up to the zero word. -/
theorem readBlocks_eq (linked : d.independentBlocks = false) (size fuel : Nat)
    (out : ByteArray) :
    readBlocks src d size fuel (Progress.of d out) =
      Progress.of d <$> readBlocksWith src d window size fuel out := by
  induction fuel generalizing out with
  | zero => rfl
  | succ fuel ih =>
      simp only [readBlocks, readBlocksWith, map_bind]
      refine bind_congr fun word => ?_
      split
      · rfl
      · rw [map_bind, ← readBlock_eq src linked, bind_map_left]
        refine bind_congr fun content => ?_
        rw [Progress.add_of, ih]

/-- The content is hashed block by block, which is to hash all of it. -/
theorem readHash_of (out : ByteArray) :
    readHash src d.contentChecksum (Progress.of d out).hasher.finish
        (.contentChecksum (Progress.of d out).hasher.finish) =
      readHash src d.contentChecksum (Xxh32.hash out) (.contentChecksum (Xxh32.hash out)) := by
  cases hchecksum : d.contentChecksum with
  | false => simp only [readHash, Bool.false_eq_true, if_false]
  | true => simp only [Progress.of, hchecksum, if_true, Xxh32.hash]

theorem readContent_eq (linked : d.independentBlocks = false) (size : Nat) :
    readContent src d size = readContentWith src d window size := by
  unfold readContent readContentWith
  refine bind_congr fun inp => ?_
  have hblocks := readBlocks_eq src linked size (inp.budget + 1) ByteArray.empty
  rw [Progress.of_empty] at hblocks
  rw [hblocks, bind_map_left]
  refine bind_congr fun out => ?_
  simp only [readHash_of]
  rfl

/-- And so is the whole frame. -/
theorem readBody_eq [Allocator] (linked : d.independentBlocks = false) :
    readBody src d = readBodyWith src d window := by
  unfold readBody readBodyWith
  cases contentSize d with
  | error e => rfl
  | ok size => exact readContent_eq src linked size

end

/-- Interchangeable ways to decode blocks do the same with every frame. -/
theorem readBodyWith_eq [Allocator] {f g : Extension} (h : ∀ size, Interchangeable size f g)
    {σ : Type} (src : Source σ) (d : Descriptor) : readBodyWith src d f = readBodyWith src d g := by
  unfold readBodyWith
  cases contentSize d with
  | error e => rfl
  | ok size => exact (h size).readContentWith_eq src d

/-- **The window of 64 KiB loses nothing.**  When the header of a linked frame
has been read, all lists of blocks come to the same with a window, with all of
the content before each block, and with one output that only grows: the same
content after every block, and the same error at the same block.  What decoding
answers, and where in the input it ends, is what these come to, whatever the
input; and if that has blocks as they are written, the answer is that of their
trace. -/
theorem decode_of_linked [Allocator] {σ : Type} {src : Source σ} {inp inp' : Input σ}
    {d : Descriptor} (header : Descriptor.read src inp = (.ok d, inp'))
    (linked : d.independentBlocks = false) :
    (∀ size out b, (out ++ ·) <$> blockContent d out (size - out.size) b.stored b.payload =
        addBlock window size out b) ∧
      (∀ size blocks,
        trace window size ByteArray.empty blocks = trace whole size ByteArray.empty blocks ∧
          trace whole size ByteArray.empty blocks = trace onto size ByteArray.empty blocks) ∧
      (decode src inp).value = readBodyWith src d window inp' ∧
      (decode src inp).value = readBodyWith src d whole inp' ∧
      (decode src inp).value = readBodyWith src d onto inp' ∧
      ∀ size blocks rest, contentSize d = .ok size → Writable d blocks →
        inp'.Reads src (encodeBlocks d blocks ++ (hashField d.contentChecksum
          (Xxh32.hash ((trace onto size ByteArray.empty blocks).content ByteArray.empty)) ++
            rest)) →
        (decode src inp).value.1 = (trace onto size ByteArray.empty blocks).answer size := by
  have hempty : ∀ size, ByteArray.empty.size ≤ size := Nat.zero_le
  have hwhole := interchangeable_window_whole
  have honto := interchangeable_whole_onto
  have hwindow : (decode src inp).value = readBodyWith src d window inp' := by
    rw [value_decode, bind_of_ok header]
    exact congrFun (readBody_eq src linked) inp'
  have hend : (decode src inp).value = readBodyWith src d onto inp' := by
    rw [hwindow, readBodyWith_eq fun size => (hwhole size).trans (honto size)]
  refine ⟨blockContent_eq linked, fun size blocks => ⟨?_, ?_⟩, hwindow, ?_, hend, ?_⟩
  · exact (hwhole size).trace_eq (hempty size) blocks
  · exact (honto size).trace_eq (hempty size) blocks
  · rw [hwindow, readBodyWith_eq hwhole]
  · intro size blocks rest declared hblocks hreads
    have hanswer := @readContentWith_append _ src d onto size blocks hblocks rest inp' hreads
    simp only [readBodyWith, declared] at hend
    rw [← hend] at hanswer
    exact Ends.fst_eq hanswer

/-- A header of a linked frame, for twelve bytes of content. -/
def linkedDescriptor : Descriptor where
  independentBlocks := false
  blockChecksums := false
  contentChecksum := false
  blockMaximum := .kib64
  contentSize := some 12
  dictionary := none

/-- Three bytes as they are, a match that repeats them from the block before,
and a match that reaches in front of all content. -/
def linkedBlocks : List RawBlock :=
  [⟨true, [1, 2, 3].toByteArray⟩, ⟨false, [0, 3, 0, 0].toByteArray⟩,
    ⟨false, [0, 9, 0, 0].toByteArray⟩]

/-- The frame of this header and these blocks. -/
def linkedFrame : ByteArray :=
  linkedDescriptor.encode ++ encodeBlocks linkedDescriptor linkedBlocks

/-- The third block is damaged. -/
theorem trace_linkedBlocks : trace onto 12 ByteArray.empty linkedBlocks =
    ⟨[[1, 2, 3].toByteArray, [1, 2, 3, 1, 2, 3, 1].toByteArray], some .malformedBlock⟩ := by
  have hsecond : onto 12 [1, 2, 3].toByteArray [0, 3, 0, 0].toByteArray =
      some [1, 2, 3, 1, 2, 3, 1].toByteArray := by
    have hmatch : Block.readSequence [0, 3, 0, 0].toByteArray 0 = some ⟨1, 0, some ⟨3, 4⟩, 3⟩ := rfl
    have hlast : Block.readSequence [0, 3, 0, 0].toByteArray 3 = some ⟨4, 0, none, 4⟩ := rfl
    rw [onto, Block.decodeFrom_of_some _ hmatch]
    exact Block.decodeFrom_of_some _ hlast
  have hthird : onto 12 [1, 2, 3, 1, 2, 3, 1].toByteArray [0, 9, 0, 0].toByteArray = none := by
    have hmatch : Block.readSequence [0, 9, 0, 0].toByteArray 0 = some ⟨1, 0, some ⟨9, 4⟩, 3⟩ := rfl
    exact Block.decodeFrom_of_some _ hmatch
  have hfirst : ByteArray.empty ++ [1, 2, 3].toByteArray = [1, 2, 3].toByteArray := rfl
  simp [trace, addBlock, linkedBlocks, hfirst, hsecond, hthird]

theorem writable_linkedBlocks : Writable linkedDescriptor linkedBlocks := by
  unfold Writable linkedBlocks
  decide

/-- The frame is damaged after its second block, however far matches reach. -/
theorem decode_of_linked_repeated :
    let _ := Allocator.unlimited
    ∃ inp inp' : Input Supply,
      Descriptor.read (Supply.source linkedFrame.size) inp = (.ok linkedDescriptor, inp') ∧
      linkedDescriptor.independentBlocks = false ∧ contentSize linkedDescriptor = .ok 12 ∧
      trace window 12 ByteArray.empty linkedBlocks =
        ⟨[[1, 2, 3].toByteArray, [1, 2, 3, 1, 2, 3, 1].toByteArray], some .malformedBlock⟩ ∧
      (decode (Supply.source linkedFrame.size) inp).value =
        readBodyWith (Supply.source linkedFrame.size) linkedDescriptor onto inp' ∧
      (decode (Supply.source linkedFrame.size) inp).value.1 = .error .malformedBlock := by
  intro _
  have hpos : 0 < linkedFrame.size := by
    rw [linkedFrame, ByteArray.size_append, Descriptor.encode_eq, ByteArray.size_append,
      Bytes.size_le]
    omega
  have hinp := @Input.reads_supply linkedFrame 5 3 hpos (by decide) (by decide)
  have hheader : Meets (Supply.source linkedFrame.size) (Descriptor.read _) linkedFrame
      (· = .ok (linkedDescriptor, encodeBlocks linkedDescriptor linkedBlocks)) :=
    Descriptor.read_encode _ _
  have hread := hheader _ hinp
  generalize hrun : Descriptor.read (Supply.source linkedFrame.size) _ = run at hread
  obtain ⟨answer, inp'⟩ := run
  cases answer with
  | error e => cases hread
  | ok d =>
      obtain ⟨rest, hrest, heq⟩ := hread
      cases heq
      have hsize : contentSize linkedDescriptor = .ok 12 := rfl
      obtain ⟨-, htraces, -, -, hend, hframe⟩ := decode_of_linked hrun rfl
      obtain ⟨hwhole, honto⟩ := htraces 12 linkedBlocks
      have hblocks : encodeBlocks linkedDescriptor linkedBlocks ++ (hashField false
          (Xxh32.hash ((trace onto 12 ByteArray.empty linkedBlocks).content ByteArray.empty)) ++
            ByteArray.empty) = encodeBlocks linkedDescriptor linkedBlocks := by
        simp [hashField]
      have hanswer := hframe 12 linkedBlocks ByteArray.empty hsize writable_linkedBlocks
        (hblocks.symm ▸ hrest)
      refine ⟨_, inp', hrun, rfl, rfl, ?_, hend, ?_⟩
      · rw [hwhole, honto, trace_linkedBlocks]
      · rw [hanswer, trace_linkedBlocks]
        rfl

end EfiLoader.Lz4.Frame
