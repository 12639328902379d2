import EfiLoader.Proofs.Zstd.Decoding
import EfiLoader.Proofs.Zstd.Grammar

/-!
# EfiLoader.Proofs.Zstd.Blocks

Reading frames block by block:

* `takes_readBlock` — a block is read as it is written;
* `takes_readBlocks` — so are runs of blocks;
* `exists_steps` — how far the blocks of a frame are read at a time;
* `steady_start`, `steady_read` — however the bytes are cut up.
-/

namespace EfiLoader.Zstd.Blocks

open Hash Decoding

/-! ## blocks -/

/-- The state after a block. -/
def State.after (s : State) (r : ByteArray × Block.Context) : State :=
  { s with out := r.1, context := r.2 }

/-- The state after the last block and the checksum that is stored behind it. -/
def State.finish (s : State) (stored : Option UInt32) : State :=
  { s with finished := true, stored := stored <|> s.stored }

theorem State.stored_finish {s : State} (h : s.stored = none) (stored : Option UInt32) :
    (s.finish stored).stored = stored := by
  rw [State.finish, h]
  cases stored <;> rfl

/-- The body of a block is read as it is written. -/
theorem takes_readBody {s : State} {b : RawBlock} {r : ByteArray × Block.Context}
    (h : b.decode s.drained s.context s.out = some r) :
    Takes (readBody b.kind b.size s) b.payload (s.after r) := by
  unfold readBody
  cases b with
  | stored content =>
      cases h
      exact (Takes.take content).bind_pure rfl
  | repeated count byte =>
      cases h
      have hbyte : Takes (le 1) [byte].toByteArray byte.toNat := by
        rw [Bytes.toByteArray_eq_le]
        exact Takes.le byte.toNat_lt
      refine hbyte.bind_pure ?_
      rw [UInt8.ofNat_toNat]
      rfl
  | compressed payload =>
      have hdecoded : Block.decode s.context s.drained s.out payload = some r := h
      refine (Takes.take payload).bind_pure ?_
      rw [hdecoded]
      rfl

/-- What follows the last block is the checksum, if there is one. -/
theorem takes_readEnd {start : Start} {stored : Option UInt32} (s : State)
    (h : stored.isSome = start.checksum) :
    Takes (readEnd start s) (checksumField stored) (s.finish stored) := by
  unfold readEnd
  rw [← h]
  cases stored with
  | none => exact Takes.pure _
  | some sum =>
      refine (Takes.le sum.toNat_lt).bind_pure ?_
      rw [UInt32.ofNat_toNat]
      rfl

/-- One block, and after the last one the checksum. -/
inductive Step (checksum : Bool) (s : State) : (s' : State) → (bs : ByteArray) → Prop
  | block {b : RawBlock} {r : ByteArray × Block.Context} (size : b.size ≤ maxBlock)
      (decodes : b.decode s.drained s.context s.out = some r) :
      Step checksum s (s.after r) (b.encode false)
  | last {b : RawBlock} {r : ByteArray × Block.Context} {stored : Option UInt32}
      (size : b.size ≤ maxBlock) (decodes : b.decode s.drained s.context s.out = some r)
      (present : stored.isSome = checksum) :
      Step checksum s ((s.after r).finish stored) (b.encode true ++ checksumField stored)

/-- The word of a block is read, and it is in order. -/
theorem takes_word {start : Start} {s s' : State} {b : RawBlock} {last : Bool} {bs : ByteArray}
    (hsize : b.size ≤ maxBlock)
    (h : Takes
      (do
        let s ← readBody b.kind b.size s
        if b.word last % 2 = 0 then return s else readEnd start s) bs s') :
    Takes (readBlock start s) (Bytes.le 3 (b.word last) ++ bs) s' := by
  obtain ⟨hkind, hsizeWord, -⟩ := b.word_fields last
  have hkindLt := b.kind_lt
  unfold readBlock
  refine (Takes.le (RawBlock.word_lt hsize last)).bind ?_
  rw [hkind, hsizeWord]
  exact Takes.check (by omega) h

/-- A block is read as it is written. -/
theorem takes_readBlock {start : Start} {s s' : State} {bs : ByteArray}
    (h : Step start.checksum s s' bs) : Takes (readBlock start s) bs s' := by
  cases h with
  | @block b r hsize hdecodes =>
      have hlast : b.word false % 2 = 0 := (b.word_fields false).2.2.mpr rfl
      rw [RawBlock.encode]
      refine takes_word hsize ((takes_readBody hdecodes).bind_pure ?_)
      rw [if_pos hlast]
  | @last b r stored hsize hdecodes hpresent =>
      have hlast : b.word true % 2 ≠ 0 := fun h =>
        Bool.noConfusion ((b.word_fields true).2.2.mp h)
      rw [RawBlock.encode, ByteArray.append_assoc]
      refine takes_word hsize ((takes_readBody hdecodes).bind ?_)
      rw [if_neg hlast]
      exact takes_readEnd _ hpresent

theorem Step.size_pos {checksum : Bool} {s s' : State} {bs : ByteArray}
    (h : Step checksum s s' bs) : 0 < bs.size := by
  cases h with
  | @block b r size decodes => exact b.size_encode_pos false
  | @last b r stored size decodes present =>
      have hpos := b.size_encode_pos true
      rw [ByteArray.size_append]
      omega

/-- A step adds to the content and gives nothing up. -/
theorem Step.grows {checksum : Bool} {s s' : State} {bs : ByteArray}
    (h : Step checksum s s' bs) : (∃ more, s'.out = s.out ++ more) ∧ s'.drained = s.drained := by
  cases h with
  | block size decodes => exact ⟨RawBlock.exists_of_decode decodes, rfl⟩
  | last size decodes present => exact ⟨RawBlock.exists_of_decode decodes, rfl⟩

/-! ## runs of blocks -/

/-- Steps up to the end of the frame, or until `need` bytes can be handed out. -/
inductive Steps (start : Start) (need : Nat) : (s s' : State) → (bs : ByteArray) → Prop
  | stop {s : State} (enough : s.finished ∨ need ≤ s.available start.window) :
      Steps start need s s ByteArray.empty
  | step {s s₁ s' : State} {first rest : ByteArray}
      (more : ¬(s.finished ∨ need ≤ s.available start.window))
      (step : Step start.checksum s s₁ first) (steps : Steps start need s₁ s' rest) :
      Steps start need s s' (first ++ rest)

/-- Steps are read as their blocks are written, if the fuel is enough for these. -/
theorem takes_readBlocks {start : Start} {need fuel : Nat} {s s' : State} {bs : ByteArray}
    (h : Steps start need s s' bs) (hfuel : bs.size < fuel) :
    Takes (readBlocks start need fuel s) bs s' := by
  induction h generalizing fuel with
  | @stop s henough =>
      obtain ⟨fuel, rfl⟩ : ∃ n, fuel = n + 1 := ⟨fuel - 1, by omega⟩
      rw [readBlocks, if_pos henough]
      exact Takes.pure s
  | @step s s₁ s' first rest hmore hstep hsteps ih =>
      obtain ⟨fuel, rfl⟩ : ∃ n, fuel = n + 1 := ⟨fuel - 1, by omega⟩
      have hpos := hstep.size_pos
      rw [ByteArray.size_append] at hfuel
      rw [readBlocks, if_neg hmore]
      exact (takes_readBlock hstep).bind (ih (by omega))

namespace Steps

variable {start : Start} {need : Nat} {s s' : State} {bs : ByteArray}

/-- Steps add to the content and give nothing up. -/
theorem grows (h : Steps start need s s' bs) :
    (∃ more, s'.out = s.out ++ more) ∧ s'.drained = s.drained := by
  induction h with
  | stop enough => exact ⟨⟨ByteArray.empty, ByteArray.append_empty.symm⟩, rfl⟩
  | step more step steps ih =>
      obtain ⟨⟨first, hfirst⟩, hdrained⟩ := step.grows
      obtain ⟨⟨rest, hrest⟩, hdrained'⟩ := ih
      rw [hfirst, ByteArray.append_assoc] at hrest
      exact ⟨⟨_, hrest⟩, hdrained'.trans hdrained⟩

theorem enough (h : Steps start need s s' bs) : s'.finished ∨ need ≤ s'.available start.window := by
  induction h with
  | stop enough => exact enough
  | step more step steps ih => exact ih

end Steps

/-- Blocks are steps, until enough can be handed out or the frame has ended; the
others are left then.  No block may refer to what has been handed out. -/
theorem exists_steps {start : Start} (need : Nat) {reach : Nat → Nat} {blocks : List RawBlock}
    {s : State} {out : ByteArray} {stored : Option UInt32} (hs : s.finished = false)
    (hnone : s.stored = none) (hne : blocks ≠ []) (h : Contents reach blocks s.context s.out out)
    (hreach : ∀ m, s.out.size ≤ m → s.drained ≤ reach m)
    (hpresent : stored.isSome = start.checksum) :
    ∃ s' first rest, Steps start need s s' first ∧
      encodeBlocks blocks ++ checksumField stored = first ++ rest ∧
      ((s'.finished = true ∧ s'.out = out ∧ s'.stored = stored ∧ rest = ByteArray.empty) ∨
        (s'.finished = false ∧ s'.stored = none ∧ ∃ blocks', blocks' ≠ [] ∧
          Contents reach blocks' s'.context s'.out out ∧
          rest = encodeBlocks blocks' ++ checksumField stored)) := by
  induction blocks generalizing s with
  | nil => exact absurd rfl hne
  | cons b blocks ih =>
      by_cases henough : s.finished ∨ need ≤ s.available start.window
      · exact ⟨s, _, _, .stop henough, ByteArray.empty_append.symm,
          .inr ⟨hs, hnone, b :: blocks, hne, h, rfl⟩⟩
      · cases h with
        | @cons _ _ _ _ _ r size decodes others =>
            have hdecodes := RawBlock.decode_of_le decodes (hreach _ (Nat.le_refl _))
            by_cases hlast : blocks = []
            · subst hlast
              cases others with
              | nil =>
                  have hstep : Step start.checksum s ((s.after r).finish stored) _ :=
                    .last size hdecodes hpresent
                  refine ⟨_, _, ByteArray.empty, .step henough hstep (.stop (.inl rfl)), ?_,
                    .inl ⟨rfl, rfl, State.stored_finish hnone stored, rfl⟩⟩
                  rw [ByteArray.append_empty, ByteArray.append_empty]
                  rfl
            · have hstep : Step start.checksum s (s.after r) _ := .block size hdecodes
              have hgrows : s.out.size ≤ r.1.size := by
                obtain ⟨more, hmore⟩ := RawBlock.exists_of_decode decodes
                rw [hmore, ByteArray.size_append]
                omega
              obtain ⟨s', first, rest, hsteps, hbytes, hleft⟩ :=
                @ih (s.after r) hs hnone hlast others fun m hm => hreach m (Nat.le_trans hgrows hm)
              refine ⟨s', _, rest, .step henough hstep hsteps, ?_, hleft⟩
              rw [encodeBlocks_cons b hlast, ByteArray.append_assoc, hbytes,
                ByteArray.append_assoc]

/-! ## frame headers -/

/-- A window byte that is there is read, and otherwise none. -/
theorem windowField_eq (f : Form) (window : UInt8) :
    f.windowField window =
      Bytes.le f.windowWidth (if f.singleSegment then 0 else window.toNat) := by
  unfold Form.windowField Form.windowWidth
  cases f.singleSegment with
  | true => rfl
  | false => exact Bytes.toByteArray_eq_le window

theorem windowWidth_descriptor (f : Form) : f.descriptor.windowWidth = f.windowWidth := by
  simp [Descriptor.windowWidth, Form.windowWidth]

/-- What a header says is read from its bytes. -/
theorem takes_readStart {f : Form} {window : UInt8} {n : Nat} (h : f.Holds n)
    (hwindow : f.window window n ≤ maxWindow) :
    Takes readStart (f.encode window n) ⟨f.window window n, f.checksum⟩ := by
  have hfield : n - f.leastSize < 256 ^ f.sizeWidth := by
    have hmost := h.most
    have hleast := h.least
    have hpos : 0 < 256 ^ f.sizeWidth := Nat.pow_pos (by decide)
    omega
  have hbyte : (if f.singleSegment then 0 else window.toNat) < 256 ^ f.windowWidth := by
    unfold Form.windowWidth
    cases f.singleSegment with
    | true => simp
    | false => exact window.toNat_lt
  have hsum : f.leastSize + (n - f.leastSize) = n := Nat.add_sub_cancel' h.least
  have hd : (⟨UInt8.ofNat f.descriptor.bits.toNat⟩ : Descriptor) = f.descriptor := by simp
  have hskipped := Takes.take (Bytes.le f.dictionaryWidth 0)
  rw [Bytes.size_le] at hskipped
  have hsame : (if f.singleSegment then n
      else windowOfByte (if f.singleSegment then 0 else window.toNat)) = f.window window n := by
    unfold Form.window
    cases f.singleSegment <;> rfl
  rw [Form.encode, Form.header, Form.front_append, ofU32_magic,
    Bytes.toByteArray_eq_le, windowField_eq]
  unfold readStart
  refine (Takes.le magic.toNat_lt).bind (Takes.check (not_not_intro rfl) ?_)
  refine (Takes.le f.descriptor.bits.toNat_lt).bind ?_
  simp only [hd, windowWidth_descriptor, Form.dictionaryWidth_descriptor,
    Form.sizeWidth_descriptor, Form.checksum_descriptor, Form.singleSegment_descriptor,
    Form.sizeOfField_descriptor]
  refine (Takes.le hbyte).bind (hskipped.bind ((Takes.le hfield).bind_pure ?_))
  rw [hsum, hsame, if_neg (Nat.not_lt.mpr hwindow)]

/-! ## cuts -/

theorem steady_readStart : Steady readStart.run := by
  unfold readStart
  refine Steady.optionBind (Steady.le _) fun found => Steady.check ?_
  refine Steady.optionBind (Steady.le _) fun bits => ?_
  refine Steady.optionBind (Steady.le _) fun window => ?_
  refine Steady.optionBind (Steady.take _) fun dictionary => ?_
  exact Steady.optionBind (Steady.le _) fun size => Steady.check (Steady.some _)

theorem steady_readBody (kind size : Nat) (s : State) : Steady (readBody kind size s).run := by
  unfold readBody
  split
  · exact Steady.optionBind (Steady.take _) fun bytes => Steady.some _
  · split
    · exact Steady.optionBind (Steady.le _) fun byte => Steady.some _
    · refine Steady.optionBind (Steady.take _) fun block => ?_
      cases Block.decode s.context s.drained s.out block with
      | none => exact Steady.failure
      | some r => exact Steady.some _

theorem steady_readBlock (start : Start) (s : State) : Steady (readBlock start s).run := by
  unfold readBlock
  refine Steady.optionBind (Steady.le _) fun header => Steady.check ?_
  refine Steady.optionBind (steady_readBody _ _ s) fun s => ?_
  split
  · exact Steady.some _
  · unfold readEnd
    split
    · exact Steady.optionBind (Steady.le _) fun stored => Steady.some _
    · exact Steady.some _

theorem steady_readBlocks (start : Start) (need fuel : Nat) (s : State) :
    Steady (readBlocks start need fuel s).run := by
  induction fuel generalizing s with
  | zero => exact Steady.failure
  | succ fuel ih =>
      rw [readBlocks]
      split
      · exact Steady.some _
      · exact Steady.optionBind (steady_readBlock start s) fun s => ih s

/-- However the bytes are cut up, the decoder reads the same header … -/
theorem steady_start : Steady decoder.start.run :=
  Steady.optionBind steady_readStart fun _ => Steady.some _

/-- … and hands out the same pieces. -/
theorem steady_read (n : Nat) (d : Session) : Steady (d.read n).run :=
  Steady.optionBind (steady_readBlocks _ _ _ _) fun _ => Steady.some _

end EfiLoader.Zstd.Blocks
