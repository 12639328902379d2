import EfiLoader.Lz4.Descriptor
import EfiLoader.Proofs.Consumption

/-!
# EfiLoader.Proofs.Lz4.Descriptor

Frame headers are read as they are written:

* `Descriptor.read_encode` — what has been written is read back;
* `Descriptor.read_sound` — what is read has been written, and a header that
  cannot be read is foreign or damaged.
-/

namespace EfiLoader.Lz4

open Hash Reader

variable {σ : Type} {src : Source σ} {left : ByteArray}

/-! ## bits -/

theorem BlockMaximum.ofId?_eq_some_iff {n : Nat} {m : BlockMaximum} :
    ofId? n = some m ↔ n = m.id := by
  constructor
  · intro h
    unfold ofId? at h
    split at h <;> cases h <;> rfl
  · rintro rfl
    exact ofId?_id m

namespace Descriptor

/-- A flag byte of version 1 without the reserved bit is made up of its flags. -/
theorem flagByte_of_bits : ∀ f : UInt8, f &&& 0xC0 = 0x40 → f &&& 0x02 = 0 →
    flagByte (f &&& 0x20 ≠ 0) (f &&& 0x10 ≠ 0) (f &&& 0x08 ≠ 0) (f &&& 0x04 ≠ 0)
      (f &&& 0x01 ≠ 0) = f :=
  Bytes.forall_byte (by decide +kernel)

/-- A block byte without reserved bits is made up of the number in it. -/
theorem blockByte_eq_of_bits : ∀ b : UInt8, b &&& 0x8F = 0 →
    b = UInt8.ofNat (((b >>> 4) &&& 0x07).toNat * 16) :=
  Bytes.forall_byte (by decide +kernel)

/-- Its flags are its bits. -/
theorem bits_flagByte : ∀ i b s c k : Bool,
    flagByte i b s c k &&& 0xC0 = 0x40 ∧ flagByte i b s c k &&& 0x02 = 0 ∧
      decide (flagByte i b s c k &&& 0x20 ≠ 0) = i ∧
      decide (flagByte i b s c k &&& 0x10 ≠ 0) = b ∧
      decide (flagByte i b s c k &&& 0x08 ≠ 0) = s ∧
      decide (flagByte i b s c k &&& 0x04 ≠ 0) = c ∧
      decide (flagByte i b s c k &&& 0x01 ≠ 0) = k := by
  decide

/-- So are those of a header. -/
theorem bits_flags (d : Descriptor) :
    d.flags &&& 0xC0 = 0x40 ∧ d.flags &&& 0x02 = 0 ∧
      decide (d.flags &&& 0x20 ≠ 0) = d.independentBlocks ∧
      decide (d.flags &&& 0x10 ≠ 0) = d.blockChecksums ∧
      decide (d.flags &&& 0x08 ≠ 0) = d.contentSize.isSome ∧
      decide (d.flags &&& 0x04 ≠ 0) = d.contentChecksum ∧
      decide (d.flags &&& 0x01 ≠ 0) = d.dictionary.isSome :=
  bits_flagByte _ _ _ _ _

/-- The first two bytes of a header. -/
theorem blockMaximumOf_flags (d : Descriptor) :
    blockMaximumOf d.flags d.blockByte = .ok d.blockMaximum := by
  obtain ⟨hversion, hreserved, -⟩ := d.bits_flags
  have hblock : d.blockByte &&& 0x8F = 0 ∧
      ((d.blockByte >>> 4) &&& 0x07).toNat = d.blockMaximum.id := by
    unfold blockByte
    cases d.blockMaximum <;> decide
  unfold blockMaximumOf
  rw [if_neg (not_not_intro hversion), if_neg (by simp [hreserved, hblock.1]), hblock.2,
    BlockMaximum.ofId?_id]

/-- The first two bytes are right only if they are those of a header. -/
theorem bits_of_blockMaximumOf {flags block : UInt8} {m : BlockMaximum}
    (h : blockMaximumOf flags block = .ok m) :
    flags &&& 0xC0 = 0x40 ∧ flags &&& 0x02 = 0 ∧ block = UInt8.ofNat (m.id * 16) := by
  unfold blockMaximumOf at h
  split at h
  · cases h
  · next hversion =>
    split at h
    · cases h
    · next hreserved =>
      split at h
      · cases h
      · next hid =>
        cases h
        rw [not_or, Decidable.not_not, Decidable.not_not] at hreserved
        rw [BlockMaximum.ofId?_eq_some_iff] at hid
        refine ⟨Decidable.not_not.mp hversion, hreserved.1, ?_⟩
        rw [← hid]
        exact blockByte_eq_of_bits block hreserved.2

/-- If they are not, the version is another one or the header is damaged. -/
theorem status_of_blockMaximumOf {flags block : UInt8} {e : FrameError}
    (h : blockMaximumOf flags block = .error e) :
    e.status = if flags &&& 0xC0 ≠ 0x40 then Status.unsupported else Status.compromisedData := by
  unfold blockMaximumOf at h
  split at h
  · next hversion =>
    cases h
    rw [if_pos hversion]
    rfl
  · next hversion =>
    rw [if_neg hversion]
    split at h
    · cases h
      rfl
    · split at h
      · cases h
        rfl
      · cases h

/-! ## fields -/

variable {α : Type} {Q : Except FrameError (α × ByteArray) → Prop}

/-- A field is read first, if there is one. -/
theorem meets_readField_bind {present : Bool} {n : Nat}
    {f : Option ByteArray → Reader σ FrameError α}
    (hok : ∀ (field : Option ByteArray) (rest : ByteArray), field.isSome = present →
      (∀ bs, field = some bs → bs.size = n) → left = field.getD ByteArray.empty ++ rest →
      Meets src (f field) rest Q)
    (hend : Q (.error (.input .exhausted))) :
    Meets src (readField src present n >>= f) left Q := by
  unfold readField
  cases present with
  | false =>
      refine Meets.bind (Meets.pure (hok none left rfl ?_ ?_))
      · intro bs h
        cases h
      · exact ByteArray.empty_append.symm
  | true =>
      rw [if_pos rfl, map_eq_pure_bind, bind_assoc]
      refine Meets.bytes_bind (fun bs rest hsize hleft => ?_) fun _ => hend
      refine Meets.bind (Meets.pure (hok (some bs) rest rfl ?_ hleft))
      intro bs' h
      cases h
      exact hsize

/-- A field that stands first is read first. -/
theorem meets_readField_append {field : Option ByteArray} {n : Nat} {rest : ByteArray}
    {f : Option ByteArray → Reader σ FrameError α} (hsize : ∀ bs, field = some bs → bs.size = n)
    (h : Meets src (f field) rest Q) :
    Meets src (readField src field.isSome n >>= f) (field.getD ByteArray.empty ++ rest) Q := by
  unfold readField
  cases field with
  | none =>
      rw [Option.getD_none, ByteArray.empty_append]
      exact Meets.bind (Meets.pure h)
  | some bs =>
      rw [Option.isSome_some, if_pos rfl, map_eq_pure_bind, bind_assoc]
      exact Meets.bytes_append (hsize bs rfl) (Meets.bind (Meets.pure h))

/-! ## headers -/

theorem fields_eq (d : Descriptor) :
    d.fields = [d.flags, d.blockByte].toByteArray ++
      (d.sizeField.getD ByteArray.empty ++ d.dictionaryField.getD ByteArray.empty) :=
  Bytes.concat_three _ _ _

theorem encode_eq (d : Descriptor) :
    d.encode = Bytes.le 4 magic.toNat ++ (d.fields ++ [checksum d.fields].toByteArray) :=
  Bytes.concat_three _ _ _

/-- The parts of a header with what follows it. -/
theorem encode_append (d : Descriptor) (rest : ByteArray) :
    d.encode ++ rest = Bytes.le 4 magic.toNat ++
      ([d.flags, d.blockByte].toByteArray ++ (d.sizeField.getD ByteArray.empty ++
        (d.dictionaryField.getD ByteArray.empty ++
          ([checksum d.fields].toByteArray ++ rest)))) := by
  rw [encode_eq]
  generalize checksum d.fields = c
  rw [fields_eq]
  simp only [ByteArray.append_assoc]

theorem size_of_sizeField {d : Descriptor} {bs : ByteArray} (h : d.sizeField = some bs) :
    bs.size = 8 := by
  obtain ⟨n, -, rfl⟩ := Option.map_eq_some_iff.mp h
  exact Bytes.size_le 8 _

theorem size_of_dictionaryField {d : Descriptor} {bs : ByteArray}
    (h : d.dictionaryField = some bs) : bs.size = 4 := by
  obtain ⟨n, -, rfl⟩ := Option.map_eq_some_iff.mp h
  exact Bytes.size_le 4 _

/-- A descriptor is made up of its flags and fields. -/
theorem ofFields_fields (d : Descriptor) :
    ofFields d.flags d.blockMaximum d.sizeField d.dictionaryField = d := by
  obtain ⟨-, -, hindependent, hblocks, -, hcontent, -⟩ := d.bits_flags
  have hsize : ∀ n : UInt64, UInt64.ofNat (Bytes.leNat (Bytes.ofU64 n) 0 8) = n := by
    intro n
    rw [Bytes.ofU64, Bytes.leNat_le n.toNat_lt, UInt64.ofNat_toNat]
  have hdictionary : ∀ n : UInt32, UInt32.ofNat (Bytes.leNat (Bytes.ofU32 n) 0 4) = n := by
    intro n
    rw [Bytes.ofU32, Bytes.leNat_le n.toNat_lt, UInt32.ofNat_toNat]
  rw [ofFields, hindependent, hblocks, hcontent, sizeField, dictionaryField, Option.map_map,
    Option.map_map]
  simp only [Function.comp_def, hsize, hdictionary, Option.map_id']

/-- A descriptor has the flags and fields that it is made up of. -/
theorem fields_ofFields {bits : ByteArray} {m : BlockMaximum} {size dictionary : Option ByteArray}
    (hbits : bits.size = 2)
    (hm : blockMaximumOf (Bytes.byte bits 0) (Bytes.byte bits 1) = .ok m)
    (hsize : size.isSome = decide (Bytes.byte bits 0 &&& 0x08 ≠ 0))
    (hsize8 : ∀ bs, size = some bs → bs.size = 8)
    (hdictionary : dictionary.isSome = decide (Bytes.byte bits 0 &&& 0x01 ≠ 0))
    (hdictionary4 : ∀ bs, dictionary = some bs → bs.size = 4) :
    (ofFields (Bytes.byte bits 0) m size dictionary).fields =
      bits ++ (size.getD ByteArray.empty ++ dictionary.getD ByteArray.empty) := by
  obtain ⟨hversion, hreserved, hblock⟩ := bits_of_blockMaximumOf hm
  have hflags : (ofFields (Bytes.byte bits 0) m size dictionary).flags = Bytes.byte bits 0 := by
    rw [flags, ofFields]
    simp only [Option.isSome_map, hsize, hdictionary]
    exact flagByte_of_bits _ hversion hreserved
  have hsizeField : (ofFields (Bytes.byte bits 0) m size dictionary).sizeField = size := by
    cases size with
    | none => rfl
    | some bs => exact congrArg some (Bytes.ofU64_leNat (hsize8 bs rfl))
  have hdictionaryField :
      (ofFields (Bytes.byte bits 0) m size dictionary).dictionaryField = dictionary := by
    cases dictionary with
    | none => rfl
    | some bs => exact congrArg some (Bytes.ofU32_leNat (hdictionary4 bs rfl))
  have hbyte : (ofFields (Bytes.byte bits 0) m size dictionary).blockByte = Bytes.byte bits 1 :=
    hblock.symm
  rw [fields_eq, hflags, hbyte, hsizeField, hdictionaryField, Bytes.toByteArray_byte_byte hbits]

/-! ## reading -/

/-- What follows the first bytes of a header is read back. -/
theorem readFields_append (d : Descriptor) (rest : ByteArray) :
    Meets src (readFields src [d.flags, d.blockByte].toByteArray d.blockMaximum)
      (d.sizeField.getD ByteArray.empty ++ (d.dictionaryField.getD ByteArray.empty ++
        ([checksum d.fields].toByteArray ++ rest)))
      (· = .ok (d, rest)) := by
  obtain ⟨-, -, -, -, hsize, -, hdictionary⟩ := d.bits_flags
  have hflags : Bytes.byte [d.flags, d.blockByte].toByteArray 0 = d.flags := rfl
  have hsizeField : d.sizeField.isSome = d.contentSize.isSome := Option.isSome_map
  have hdictionaryField : d.dictionaryField.isSome = d.dictionary.isSome := Option.isSome_map
  unfold readFields
  rw [hflags]
  simp only [hsize, hdictionary, ← hsizeField, ← hdictionaryField]
  refine meets_readField_append (fun bs h => size_of_sizeField h) ?_
  refine meets_readField_append (fun bs h => size_of_dictionaryField h) ?_
  refine Meets.bytes_append rfl (Meets.check (fun hmismatch => ?_) fun _ => Meets.pure ?_)
  · exact absurd (Bytes.byte_singleton _) hmismatch
  · rw [ofFields_fields]

/-- A header that has been written is read back, and what follows it is left. -/
theorem read_encode (d : Descriptor) (rest : ByteArray) :
    Meets src (read src) (d.encode ++ rest) (· = .ok (d, rest)) := by
  have hflags : Bytes.byte [d.flags, d.blockByte].toByteArray 0 = d.flags := rfl
  have hblock : Bytes.byte [d.flags, d.blockByte].toByteArray 1 = d.blockByte := rfl
  rw [encode_append, read]
  refine Meets.le_append magic.toNat_lt (Meets.check (fun h => absurd rfl h) fun _ => ?_)
  refine Meets.bytes_append rfl ?_
  rw [hflags, hblock, blockMaximumOf_flags]
  exact readFields_append d rest

/-- A stream has only one header at its start. -/
theorem encode_append_inj {d d' : Descriptor} {rest rest' : ByteArray}
    (h : d.encode ++ rest = d'.encode ++ rest') : d = d' ∧ rest = rest' := by
  have hpos : 0 < (d.encode ++ rest).size := by
    rw [encode_append, ByteArray.size_append, Bytes.size_le]
    omega
  have hinp := @Input.reads_supply (d.encode ++ rest) 1 1 hpos Nat.one_pos Nat.one_pos
  -- both are what one and the same run reads
  have hmeets := @read_encode _ (Supply.source (d.encode ++ rest).size) d rest
  have hmeets' := @read_encode _ (Supply.source (d.encode ++ rest).size) d' rest'
  rw [← h] at hmeets'
  have hread := hmeets _ hinp
  have hread' := hmeets' _ hinp
  generalize read _ _ = run at hread hread'
  obtain ⟨_ | found, inp'⟩ := run
  · cases hread
  · obtain ⟨left, hleft, heq⟩ := hread
    obtain ⟨left', hleft', heq'⟩ := hread'
    cases heq
    cases heq'
    exact ⟨rfl, hleft.unique hleft'⟩

/-- The bytes have another magic number, or another version after it. -/
def Unknown (bs : ByteArray) : Prop :=
  4 ≤ bs.size ∧ Bytes.leNat bs 0 4 ≠ magic.toNat ∨
    6 ≤ bs.size ∧ Bytes.leNat bs 0 4 = magic.toNat ∧ Bytes.byte bs 4 &&& 0xC0 ≠ 0x40

/-- What follows the first bytes of a header is read only if it is that of a
header. -/
theorem readFields_sound {bits : ByteArray} {m : BlockMaximum} (hbits : bits.size = 2)
    (hm : blockMaximumOf (Bytes.byte bits 0) (Bytes.byte bits 1) = .ok m) :
    Meets src (readFields src bits m) left fun
      | .ok (d, rest) => bits ++ left = d.fields ++ [checksum d.fields].toByteArray ++ rest
      | .error e => e.status = Status.compromisedData := by
  unfold readFields
  refine meets_readField_bind (fun size rest₁ hsize hsize8 hleft => ?_) rfl
  refine meets_readField_bind (fun dictionary rest₂ hdictionary hdictionary4 hrest₁ => ?_) rfl
  refine Meets.bytes_bind (fun found rest hfound hrest₂ => ?_) fun _ => rfl
  refine Meets.check (fun _ => rfl) fun hchecksum => Meets.pure ?_
  rw [Decidable.not_not, Bytes.concat_three] at hchecksum
  simp only
  rw [fields_ofFields hbits hm hsize hsize8 hdictionary hdictionary4, ← hchecksum,
    Bytes.toByteArray_byte hfound, hleft, hrest₁, hrest₂]
  simp only [ByteArray.append_assoc]

/-- What is read has been written; a header that cannot be read is unknown, and
otherwise damaged. -/
theorem read_sound :
    Meets src (read src) left fun
      | .ok (d, rest) => left = d.encode ++ rest
      | .error e => e.status = Status.unsupported ∧ Unknown left ∨
          e.status = Status.compromisedData ∧ ¬Unknown left := by
  unfold read
  refine Meets.le_bind (fun found rest hfound hleft => ?_) fun hshort => ?_
  · have hsize : left.size = 4 + rest.size := by
      rw [hleft, ByteArray.size_append, Bytes.size_le]
    have hnumber : Bytes.leNat left 0 4 = found := by
      rw [hleft, Bytes.leNat_le_append hfound]
    refine Meets.check (fun hmagic => ?_) fun hmagic => ?_
    · refine Or.inl ⟨rfl, Or.inl ⟨by omega, ?_⟩⟩
      rwa [hnumber]
    · rw [Decidable.not_not] at hmagic
      have hunknown : Unknown left ↔ 6 ≤ left.size ∧ Bytes.byte left 4 &&& 0xC0 ≠ 0x40 := by
        simp [Unknown, hnumber, hmagic]
      refine Meets.bytes_bind (fun bits rest' hbits hrest => ?_) fun hshort => ?_
      · have hflags : Bytes.byte left 4 = Bytes.byte bits 0 := by
          have hbyte := Bytes.byte_append_right (Bytes.le 4 found) (bits ++ rest') 0
          rw [Bytes.size_le, ← hrest, ← hleft] at hbyte
          rw [hbyte, hrest, Bytes.byte_append_left (by omega)]
        have hlong : 6 ≤ left.size := by
          rw [hsize, hrest, ByteArray.size_append]
          omega
        rw [hflags] at hunknown
        cases hm : blockMaximumOf (Bytes.byte bits 0) (Bytes.byte bits 1) with
        | error e =>
            have hstatus := status_of_blockMaximumOf hm
            refine Meets.throw ?_
            by_cases hversion : Bytes.byte bits 0 &&& 0xC0 ≠ 0x40
            · rw [if_pos hversion] at hstatus
              exact Or.inl ⟨hstatus, hunknown.mpr ⟨hlong, hversion⟩⟩
            · rw [if_neg hversion] at hstatus
              exact Or.inr ⟨hstatus, fun h => hversion (hunknown.mp h).2⟩
        | ok m =>
            refine (readFields_sound hbits hm).mono fun r hr => ?_
            cases r with
            | error e =>
                exact Or.inr ⟨hr, fun h => (hunknown.mp h).2 (bits_of_blockMaximumOf hm).1⟩
            | ok a =>
                simp only at hr ⊢
                rw [hleft, hrest, hmagic, hr, encode_eq]
                simp only [ByteArray.append_assoc]
      · refine Or.inr ⟨rfl, fun h => ?_⟩
        have := (hunknown.mp h).1
        omega
  · refine Or.inr ⟨rfl, ?_⟩
    rintro (⟨h, -⟩ | ⟨h, -⟩) <;> omega

/-- A header that has been written is not unknown. -/
theorem not_unknown_encode (d : Descriptor) (rest : ByteArray) : ¬Unknown (d.encode ++ rest) := by
  have hparts : d.encode ++ rest = Bytes.le 4 magic.toNat ++
      ([d.flags, d.blockByte].toByteArray ++ (d.sizeField.getD ByteArray.empty ++
        (d.dictionaryField.getD ByteArray.empty ++ ([checksum d.fields].toByteArray ++ rest)))) :=
    encode_append d rest
  have hnumber : Bytes.leNat (d.encode ++ rest) 0 4 = magic.toNat := by
    rw [hparts, Bytes.leNat_le_append magic.toNat_lt]
  have hflags : Bytes.byte (d.encode ++ rest) 4 = d.flags := by
    have hbyte := Bytes.byte_append_right (Bytes.le 4 magic.toNat)
      ([d.flags, d.blockByte].toByteArray ++ (d.sizeField.getD ByteArray.empty ++
        (d.dictionaryField.getD ByteArray.empty ++ ([checksum d.fields].toByteArray ++ rest)))) 0
    rw [Bytes.size_le, ← hparts] at hbyte
    exact hbyte.trans (Bytes.byte_append_left (by simp))
  rintro (⟨-, h⟩ | ⟨-, -, h⟩)
  · exact h hnumber
  · rw [hflags] at h
    exact h d.bits_flags.1

end Descriptor

end EfiLoader.Lz4
