import EfiLoader.Proofs.Consumption
import EfiLoader.Proofs.Lz4.Descriptor

/-!
# EfiLoader.Proofs.Lz4.Header

Reading frame headers from any input, and what they look like:

* `Descriptor.parses_read` — the reader's grammar has one header for each
  descriptor;
* `Descriptor.layout_encode` — the bytes of that header;
* `Descriptor.read_inverts_encode` — reading is the inverse of writing.
-/

namespace EfiLoader.Lz4

open Hash Reader

variable {σ : Type} {src : Source σ}

namespace Descriptor

/-! ## the grammar of headers -/

/-- A field of `n` bytes, if there is one. -/
theorem parses_readField (present : Bool) (n : Nat) :
    Parses src (readField src present n) fun field bs => field.isSome = present ∧
      (∀ b, field = some b → b.size = n) ∧ bs = field.getD ByteArray.empty := by
  unfold readField
  cases present with
  | false =>
      refine (Parses.pure none).congr fun field bs => ?_
      cases field with
      | none => simp
      | some b => simp
  | true =>
      rw [if_pos rfl, map_eq_pure_bind]
      refine (Parses.bind (Parses.bytes FrameError.input n) fun b _ _ => Parses.pure (some b)).congr
        fun field bs => ?_
      constructor
      · intro ⟨b, first, rest, hbs, ⟨hb, hsize⟩, hfield, hrest⟩
        subst hb hfield hrest
        rw [ByteArray.append_empty] at hbs
        simp [hbs, hsize]
      · intro ⟨hsome, hsize, hbs⟩
        cases field with
        | none => cases hsome
        | some b =>
            exact ⟨b, b, ByteArray.empty, by simpa using hbs, ⟨rfl, hsize b rfl⟩, rfl, rfl⟩

/-- The fields start with the flags and the byte with the block maximum. -/
theorem eq_bits_of_fields {d : Descriptor} {bits bs rest : ByteArray} (hbits : bits.size = 2)
    (h : bits ++ bs = d.fields ++ rest) : bits = [d.flags, d.blockByte].toByteArray := by
  rw [fields_eq, ByteArray.append_assoc] at h
  exact ByteArray.append_inj_left h hbits

/-- What follows the first bytes of a header. -/
theorem parses_readFields {bits : ByteArray} {m : BlockMaximum} (hbits : bits.size = 2)
    (hm : blockMaximumOf (Bytes.byte bits 0) (Bytes.byte bits 1) = .ok m) :
    Parses src (readFields src bits m) fun d bs =>
      bits ++ bs = d.fields ++ [checksum d.fields].toByteArray := by
  unfold readFields
  refine (Parses.bind (parses_readField _ 8) fun size _ _ =>
    Parses.bind (parses_readField _ 4) fun dictionary _ _ =>
    Parses.bind (Parses.bytes FrameError.input 1) fun found _ _ =>
    Parses.check
      (c := Bytes.byte found 0 ≠ checksum
        (Bytes.concat [bits, size.getD ByteArray.empty, dictionary.getD ByteArray.empty]))
      fun _ => Parses.pure (ofFields (Bytes.byte bits 0) m size dictionary)).congr fun d bs => ?_
  constructor
  · -- the descriptor that is made up of the bytes has them as its fields
    intro ⟨size, front, rest₁, hbs, ⟨hsize, hsize8, hfront⟩, dictionary, middle, rest₂, hrest₁,
      ⟨hdictionary, hdictionary4, hmiddle⟩, found, last, rest₃, hrest₂, ⟨hfound, hlast⟩, hchecksum,
      hd, hrest₃⟩
    subst hfound hd hrest₃
    rw [Decidable.not_not, Bytes.concat_three] at hchecksum
    rw [fields_ofFields hbits hm hsize hsize8 hdictionary hdictionary4, ← hchecksum,
      Bytes.toByteArray_byte hlast, hbs, hrest₁, hrest₂, hfront, hmiddle, ByteArray.append_empty]
    simp only [ByteArray.append_assoc]
  · -- the first two bytes of the fields decide which others there are
    intro hbs
    have hfirst := eq_bits_of_fields hbits hbs
    subst hfirst
    rw [fields_eq, ByteArray.append_assoc] at hbs
    have hrest := (ByteArray.append_right_inj _).mp hbs
    have hflags : Bytes.byte [d.flags, d.blockByte].toByteArray 0 = d.flags := rfl
    have hblock : Bytes.byte [d.flags, d.blockByte].toByteArray 1 = d.blockByte := rfl
    rw [hflags, hblock, blockMaximumOf_flags] at hm
    cases hm
    obtain ⟨-, -, -, -, hsize, -, hdictionary⟩ := d.bits_flags
    have hsizeField : d.sizeField.isSome = d.contentSize.isSome := Option.isSome_map
    have hdictionaryField : d.dictionaryField.isSome = d.dictionary.isSome := Option.isSome_map
    rw [hflags]
    refine ⟨d.sizeField, d.sizeField.getD ByteArray.empty, _,
      hrest.trans (ByteArray.append_assoc ..),
      ⟨hsizeField.trans hsize.symm, fun b hb => size_of_sizeField hb, rfl⟩,
      d.dictionaryField, d.dictionaryField.getD ByteArray.empty, _, rfl,
      ⟨hdictionaryField.trans hdictionary.symm, fun b hb => size_of_dictionaryField hb, rfl⟩,
      [checksum d.fields].toByteArray, [checksum d.fields].toByteArray, ByteArray.empty,
      ByteArray.append_empty.symm, ⟨rfl, rfl⟩, ?_, (ofFields_fields d).symm, rfl⟩
    rw [Decidable.not_not]
    exact Bytes.byte_singleton _

/-- The first two bytes of the fields stand for the block maximum. -/
theorem blockMaximumOf_of_fields {d : Descriptor} {bits bs rest : ByteArray}
    (hbits : bits.size = 2) (h : bits ++ bs = d.fields ++ rest) :
    blockMaximumOf (Bytes.byte bits 0) (Bytes.byte bits 1) = .ok d.blockMaximum := by
  rw [eq_bits_of_fields hbits h]
  exact d.blockMaximumOf_flags

/-- What the first two bytes of the fields decide about those that follow. -/
theorem parses_afterBits {bits : ByteArray} (hbits : bits.size = 2) :
    Parses src
      (match blockMaximumOf (Bytes.byte bits 0) (Bytes.byte bits 1) with
        | .error e => throw e
        | .ok m => readFields src bits m)
      fun d bs => bits ++ bs = d.fields ++ [checksum d.fields].toByteArray := by
  cases hm : blockMaximumOf (Bytes.byte bits 0) (Bytes.byte bits 1) with
  | ok m => exact parses_readFields hbits hm
  | error e =>
      refine (Parses.throw e).congr fun d bs => ⟨False.elim, fun h => ?_⟩
      rw [blockMaximumOf_of_fields hbits h] at hm
      cases hm

/-- **Frame headers**: on any input a descriptor is read from the header that
says it and from nothing else. -/
theorem parses_read : Parses src (read src) fun d bs => bs = d.encode := by
  unfold read
  refine (Parses.bind (Parses.le FrameError.input 4) fun found _ _ =>
    Parses.check (c := found ≠ magic.toNat) fun _ =>
    Parses.bind (Parses.bytes FrameError.input 2) fun bits _ hbits =>
    parses_afterBits (hbits.1 ▸ hbits.2)).congr fun d bs => ?_
  rw [encode_eq]
  constructor
  · intro ⟨found, first, rest, hbs, ⟨_, hfirst⟩, hmagic, bits, second, rest', hrest, ⟨hbits, _⟩,
      hfields⟩
    rw [Decidable.not_not] at hmagic
    rw [hbs, hfirst, hmagic, hrest, ← hbits, hfields]
  · intro hbs
    have hsplit : d.fields ++ [checksum d.fields].toByteArray =
        [d.flags, d.blockByte].toByteArray ++
          ((d.sizeField.getD ByteArray.empty ++ d.dictionaryField.getD ByteArray.empty) ++
            [checksum d.fields].toByteArray) := by
      rw [← ByteArray.append_assoc, ← fields_eq]
    exact ⟨magic.toNat, Bytes.le 4 magic.toNat, _, hbs, ⟨magic.toNat_lt, rfl⟩, not_not_intro rfl,
      [d.flags, d.blockByte].toByteArray, [d.flags, d.blockByte].toByteArray, _, hsplit,
      ⟨rfl, rfl⟩, hsplit.symm⟩

/-! ## what headers look like -/

/-- The bytes of a header: the magic number, the flags, the byte with the block
maximum, the fields in order and a byte of their hash. -/
structure Layout (d : Descriptor) (bs : ByteArray) (flags block : UInt8) (fields : ByteArray) :
    Prop where
  bytes : bs = Bytes.ofU32 0x184D2204 ++ fields ++
    [UInt8.ofNat ((Xxh32.hash fields).toNat / 2 ^ 8 % 256)].toByteArray
  fields : fields = [flags, block].toByteArray ++
    (d.contentSize.map Bytes.ofU64).getD ByteArray.empty ++
    (d.dictionary.map Bytes.ofU32).getD ByteArray.empty
  version : flags >>> 6 = 1
  reservedFlag : flags &&& 0x02 = 0
  independentBlocks : flags &&& 0x20 ≠ 0 ↔ d.independentBlocks
  blockChecksums : flags &&& 0x10 ≠ 0 ↔ d.blockChecksums
  contentSize : flags &&& 0x08 ≠ 0 ↔ d.contentSize.isSome
  contentChecksum : flags &&& 0x04 ≠ 0 ↔ d.contentChecksum
  dictionary : flags &&& 0x01 ≠ 0 ↔ d.dictionary.isSome
  reservedBlock : block &&& 0x8F = 0
  blockMaximum : d.blockMaximum.bytes = 2 ^ (8 + 2 * (block >>> 4).toNat)

theorem checksum_eq (fields : ByteArray) :
    checksum fields = UInt8.ofNat ((Xxh32.hash fields).toNat / 2 ^ 8 % 256) := by
  have hbyte : ((Xxh32.hash fields >>> 8) &&& 0xFF).toNat =
      (Xxh32.hash fields).toNat / 2 ^ 8 % 256 := by
    rw [UInt32.toNat_and, UInt32.toNat_shiftRight, Nat.shiftRight_eq_div_pow]
    exact Nat.and_two_pow_sub_one_eq_mod _ 8
  rw [checksum, hbyte]

theorem version_flagByte : ∀ i b s c k : Bool, flagByte i b s c k >>> 6 = 1 := by decide

theorem layout_encode (d : Descriptor) : Layout d d.encode d.flags d.blockByte d.fields := by
  obtain ⟨-, hreserved, hindependent, hblocks, hsize, hcontent, hdictionary⟩ := d.bits_flags
  have hblock : d.blockByte &&& 0x8F = 0 ∧
      d.blockMaximum.bytes = 2 ^ (8 + 2 * (d.blockByte >>> 4).toNat) := by
    unfold blockByte
    cases d.blockMaximum <;> decide
  exact {
    bytes := by
      rw [encode_eq, checksum_eq, ← ByteArray.append_assoc]
      rfl
    fields := by
      rw [fields_eq, ← ByteArray.append_assoc]
      rfl
    version := version_flagByte _ _ _ _ _
    reservedFlag := hreserved
    independentBlocks := by rw [← hindependent, decide_eq_true_iff]
    blockChecksums := by rw [← hblocks, decide_eq_true_iff]
    contentSize := by rw [← hsize, decide_eq_true_iff]
    contentChecksum := by rw [← hcontent, decide_eq_true_iff]
    dictionary := by rw [← hdictionary, decide_eq_true_iff]
    reservedBlock := hblock.1
    blockMaximum := hblock.2 }

/-! ## reading and writing -/

/-- Some input hands out the bytes `bs` while `d` is read. -/
def Accepted (bs : ByteArray) (d : Descriptor) : Prop :=
  ∃ (σ : Type) (src : Source σ) (inp inp' : Input σ),
    read src inp = (.ok d, inp') ∧ inp.Consumes src bs inp'

theorem read_iff_consumes {d : Descriptor} {inp inp' : Input σ} :
    read src inp = (.ok d, inp') ↔ inp.Consumes src d.encode inp' := by
  rw [parses_read inp d inp']
  constructor
  · intro ⟨bs, hbs, hconsumes⟩
    exact hbs ▸ hconsumes
  · intro hconsumes
    exact ⟨_, rfl, hconsumes⟩

theorem accepted_iff {bs : ByteArray} {d : Descriptor} : Accepted bs d ↔ bs = d.encode := by
  constructor
  · intro ⟨σ, src, inp, inp', hread, hconsumes⟩
    exact hconsumes.unique (read_iff_consumes.mp hread)
  · intro hbs
    subst hbs
    have hsize : 0 < d.encode.size := by
      rw [encode_eq, ByteArray.size_append, Bytes.size_le]
      omega
    have hreads := @Input.reads_supply d.encode 1 1 hsize Nat.one_pos Nat.one_pos
    rw [← @ByteArray.append_empty d.encode] at hreads
    obtain ⟨inp', hconsumes, -⟩ := hreads.consumes
    exact ⟨_, _, _, inp', read_iff_consumes.mpr hconsumes, hconsumes⟩

/-- **Frame headers**: the header that says `d` is read as `d` and what follows
it is left, however the bytes are cut into chunks, and `d` is read from no
other bytes.  Inputs that fail or make bytes up are no exception: `d` is read
exactly if they hand out that header, and so no two headers are accepted
for `d`. -/
theorem read_inverts_encode (d : Descriptor) :
    (∀ {σ : Type} (src : Source σ) (inp : Input σ) (r : ByteArray),
      inp.Reads src (d.encode ++ r) →
        ∃ inp', read src inp = (.ok d, inp') ∧ inp'.Reads src r) ∧
    (∀ {σ : Type} (src : Source σ) (inp inp' : Input σ) (left : ByteArray),
      inp.Reads src left → read src inp = (.ok d, inp') →
        ∃ r, left = d.encode ++ r ∧ inp'.Reads src r) ∧
    (∀ {σ : Type} (src : Source σ) (inp inp' : Input σ),
      read src inp = (.ok d, inp') ↔ inp.Consumes src d.encode inp') ∧
    (∀ bs, Accepted bs d ↔ bs = d.encode) ∧
    Layout d d.encode d.flags d.blockByte d.fields := by
  have hread : ∀ {σ : Type} (src : Source σ) (inp : Input σ) (r : ByteArray),
      inp.Reads src (d.encode ++ r) →
        ∃ inp', read src inp = (.ok d, inp') ∧ inp'.Reads src r := by
    intro σ src inp r hinp
    obtain ⟨inp', hconsumes, hinp'⟩ := hinp.consumes
    exact ⟨inp', read_iff_consumes.mpr hconsumes, hinp'⟩
  exact ⟨hread, fun src inp inp' left hinp hok => (read_iff_consumes.mp hok).of_reads hinp,
    fun src inp inp' => read_iff_consumes, fun bs => accepted_iff, d.layout_encode⟩

/-- A descriptor with both optional fields. -/
def fullDescriptor : Descriptor where
  independentBlocks := true
  blockChecksums := false
  contentChecksum := true
  blockMaximum := .mib1
  contentSize := some 5
  dictionary := some 7

/-- Its header with eight bytes behind it. -/
def fullHeader : ByteArray := fullDescriptor.encode ++ Bytes.zeros 8

/-- An input with these bytes: five in the chunk, then at most three at a time. -/
def fullInput : Input Supply :=
  .start (Buffer.ofBytes (fullHeader.extract 0 5)) ⟨fullHeader, 5, some 3⟩ fullHeader.size

/-- The header is read from it. -/
theorem read_inverts_encode_full :
    fullInput.Reads (Supply.source fullHeader.size) fullHeader ∧
      ∃ inp', read (Supply.source fullHeader.size) fullInput = (.ok fullDescriptor, inp') ∧
        inp'.Reads (Supply.source fullHeader.size) (Bytes.zeros 8) := by
  have hsize : 0 < fullHeader.size := by
    rw [fullHeader, ByteArray.size_append, Bytes.size_zeros]
    omega
  have hreads : fullInput.Reads (Supply.source fullHeader.size) fullHeader :=
    Input.reads_supply hsize (by decide) (by decide)
  exact ⟨hreads, (read_inverts_encode fullDescriptor).1 _ _ _ hreads⟩

end Descriptor

end EfiLoader.Lz4
