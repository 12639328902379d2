import EfiLoader.Zstd.Header
import EfiLoader.Proofs.Bytes
import EfiLoader.Proofs.Except

/-!
# EfiLoader.Proofs.Zstd.Header

The declared content size, against the format of frame headers:

```
header = magic descriptor [window] [dictionary] [size]
```

A `Form` is what a descriptor byte chooses: which of the fields in brackets
there are, and how wide they are.

* `Form.contentSize_encode` — a size that is written is read back;
* `declares_or_unusable_or_damaged` — what byte strings there are;
* `declared_of_bytes` — what each of them comes to.
-/

namespace EfiLoader.Zstd

/-! ## forms -/

/-- What a descriptor byte chooses; its reserved bit is clear. -/
structure Form where
  sizeFlag : Fin 4
  singleSegment : Bool
  unused : Bool
  checksum : Bool
  dictionaryFlag : Fin 4

namespace Form

/-- The descriptor byte, from the highest bits to the lowest. -/
def descriptor (f : Form) : Descriptor where
  bits := UInt8.ofNat <|
    64 * f.sizeFlag.val + 32 * f.singleSegment.toNat + 16 * f.unused.toNat +
      4 * f.checksum.toNat + f.dictionaryFlag.val

/-- Bytes of the window field. -/
def windowWidth (f : Form) : Nat := if f.singleSegment then 0 else 1

/-- Bytes of the dictionary number. -/
def dictionaryWidth (f : Form) : Nat :=
  match f.dictionaryFlag with
  | 0 => 0
  | 1 => 1
  | 2 => 2
  | 3 => 4

/-- Bytes of the content size. -/
def sizeWidth (f : Form) : Nat :=
  match f.sizeFlag with
  | 0 => if f.singleSegment then 1 else 0
  | 1 => 2
  | 2 => 4
  | 3 => 8

/-- The content size that a field of zeros stands for. -/
def leastSize (f : Form) : Nat := if f.sizeFlag = 1 then 256 else 0

/-- The form has a field for the content size, and it can hold `n`. -/
structure Holds (f : Form) (n : Nat) : Prop where
  width : f.sizeWidth ≠ 0
  least : f.leastSize ≤ n
  most : n < f.leastSize + 256 ^ f.sizeWidth

/-- The window field: one byte, unless the content is a single segment. -/
def windowField (f : Form) (window : UInt8) : ByteArray :=
  if f.singleSegment then ByteArray.empty else [window].toByteArray

/-- A header up to the content size. -/
def front (f : Form) (window : UInt8) (dictionary : Nat) : ByteArray :=
  Bytes.ofU32 0xFD2FB528 ++ ([f.descriptor.bits].toByteArray ++
    (f.windowField window ++ Bytes.le f.dictionaryWidth dictionary))

/-- A header with all of its fields. -/
def header (f : Form) (window : UInt8) (dictionary size : Nat) : ByteArray :=
  f.front window dictionary ++ Bytes.le f.sizeWidth size

/-- The header of a frame with `n` bytes of content and without a dictionary. -/
def encode (f : Form) (window : UInt8) (n : Nat) : ByteArray := f.header window 0 (n - f.leastSize)

/-! ## descriptor bytes -/

/-- The form that a descriptor byte chooses. -/
def ofByte (b : UInt8) : Form where
  sizeFlag := Fin.ofNat 4 (b.toNat / 64)
  singleSegment := b.toNat / 32 % 2 = 1
  unused := b.toNat / 16 % 2 = 1
  checksum := b.toNat / 4 % 2 = 1
  dictionaryFlag := Fin.ofNat 4 b.toNat

/-- What a descriptor byte says is what its form chooses. -/
theorem descriptor_of_flags : ∀ (s : Fin 4) (a b c : Bool) (d : Fin 4),
    (descriptor ⟨s, a, b, c, d⟩).reserved = false ∧
      (descriptor ⟨s, a, b, c, d⟩).singleSegment = a ∧
      (descriptor ⟨s, a, b, c, d⟩).checksum = c ∧
      (descriptor ⟨s, a, b, c, d⟩).dictionaryWidth = dictionaryWidth ⟨s, a, b, c, d⟩ ∧
      (descriptor ⟨s, a, b, c, d⟩).sizeWidth = sizeWidth ⟨s, a, b, c, d⟩ := by
  decide

/-- Descriptor bytes with a clear reserved bit are those of forms. -/
theorem bits_ofByte : ∀ b : UInt8, (Descriptor.mk b).reserved = false →
    (ofByte b).descriptor.bits = b :=
  Bytes.forall_byte (by decide +kernel)

theorem reserved_iff : ∀ b : UInt8, (Descriptor.mk b).reserved = true ↔ b.toNat / 8 % 2 = 1 :=
  Bytes.forall_byte (by decide +kernel)

section

variable (f : Form)

@[simp] theorem reserved_descriptor : f.descriptor.reserved = false :=
  (descriptor_of_flags _ _ _ _ _).1

@[simp] theorem singleSegment_descriptor : f.descriptor.singleSegment = f.singleSegment :=
  (descriptor_of_flags _ _ _ _ _).2.1

@[simp] theorem checksum_descriptor : f.descriptor.checksum = f.checksum :=
  (descriptor_of_flags _ _ _ _ _).2.2.1

@[simp] theorem dictionaryWidth_descriptor : f.descriptor.dictionaryWidth = f.dictionaryWidth :=
  (descriptor_of_flags _ _ _ _ _).2.2.2.1

@[simp] theorem sizeWidth_descriptor : f.descriptor.sizeWidth = f.sizeWidth :=
  (descriptor_of_flags _ _ _ _ _).2.2.2.2

@[simp] theorem dictionaryOffset_descriptor :
    f.descriptor.dictionaryOffset = 5 + f.windowWidth := by
  simp [Descriptor.dictionaryOffset, Descriptor.windowOffset, Descriptor.windowWidth, windowWidth]

@[simp] theorem sizeOffset_descriptor :
    f.descriptor.sizeOffset = 5 + f.windowWidth + f.dictionaryWidth := by
  simp [Descriptor.sizeOffset]

/-- The two-byte form is the one that starts at 256. -/
theorem leastSize_eq : f.leastSize = if f.sizeWidth = 2 then 256 else 0 := by
  obtain ⟨s, a, b, c, d⟩ := f
  revert s a
  decide +revert

theorem sizeOfField_descriptor (field : Nat) :
    f.descriptor.sizeOfField field = f.leastSize + field := by
  rw [leastSize_eq, Descriptor.sizeOfField, sizeWidth_descriptor]
  split <;> omega

@[simp] theorem size_windowField (window : UInt8) :
    (f.windowField window).size = f.windowWidth := by
  unfold windowField windowWidth
  split <;> simp

@[simp] theorem size_front (window : UInt8) (dictionary : Nat) :
    (f.front window dictionary).size = 5 + f.windowWidth + f.dictionaryWidth := by
  simp [front, Bytes.ofU32]
  omega

end

end Form

/-! ## fields -/

/-- A number that has been written is read as a field. -/
theorem field_append (a rest : ByteArray) {len n : Nat} (h : n < 256 ^ len) :
    field (a ++ (Bytes.le len n ++ rest)) a.size len = .ok n := by
  have hsize : a.size + len ≤ (a ++ (Bytes.le len n ++ rest)).size := by
    simp only [ByteArray.size_append, Bytes.size_le]
    omega
  have hnumber := Bytes.leNat_append_right a (Bytes.le len n ++ rest) 0 len
  rw [Nat.add_zero, Bytes.leNat_le_append h] at hnumber
  simp only [field, Bytes.le?, if_pos hsize, hnumber]

/-- A field that is not all there cannot be read. -/
theorem field_of_lt {bytes : ByteArray} {off len : Nat} (h : bytes.size < off + len) :
    field bytes off len = .error .truncated := by
  simp only [field, Bytes.le?, if_neg (Nat.not_le.mpr h)]

/-- The checks after the descriptor byte. -/
def afterDescriptor (d : Descriptor) (bytes : ByteArray) : Except HeaderError Nat := do
  if d.reserved then
    throw .reservedBit
  let id ← field bytes d.dictionaryOffset d.dictionaryWidth
  if id ≠ 0 then
    throw (.dictionary id)
  if d.sizeWidth = 0 then
    throw .noContentSize
  return d.sizeOfField (← field bytes d.sizeOffset d.sizeWidth)

theorem ofU32_magic : Bytes.ofU32 0xFD2FB528 = Bytes.le 4 magic.toNat := rfl

/-- A string that does not start with the magic number is no frame. -/
theorem contentSize_of_foreign {bytes : ByteArray}
    (h : ¬∃ rest, bytes = Bytes.ofU32 0xFD2FB528 ++ rest) : contentSize bytes = .error .magic := by
  have hmagic : Bytes.le? bytes 0 4 ≠ some magic.toNat := by
    intro hle
    unfold Bytes.le? at hle
    split at hle
    · next hsize =>
      have hnumber : bytes.extract 0 4 = Bytes.ofU32 0xFD2FB528 := by
        rw [ofU32_magic, ← Option.some.inj hle, Bytes.le_leNat bytes hsize]
      have hbytes := Bytes.extract_append_drop bytes 4
      rw [hnumber] at hbytes
      exact h ⟨_, hbytes.symm⟩
    · contradiction
  unfold contentSize
  rw [if_pos hmagic]
  rfl

/-- A string that starts with the magic number is read on. -/
theorem contentSize_of_magic (rest : ByteArray) :
    contentSize (Bytes.ofU32 0xFD2FB528 ++ rest) =
      (field (Bytes.ofU32 0xFD2FB528 ++ rest) 4 1 >>= fun bits =>
        afterDescriptor ⟨UInt8.ofNat bits⟩ (Bytes.ofU32 0xFD2FB528 ++ rest)) := by
  have hmagic : Bytes.le? (Bytes.ofU32 0xFD2FB528 ++ rest) 0 4 = some magic.toNat := by
    have hsize : 0 + 4 ≤ (Bytes.ofU32 0xFD2FB528 ++ rest).size := by
      simp [Bytes.ofU32]
    rw [Bytes.le?, if_pos hsize, ofU32_magic, Bytes.leNat_le_append magic.toNat_lt]
  unfold contentSize afterDescriptor
  rw [if_neg (not_not_intro hmagic)]

/-- The descriptor byte is read first. -/
theorem contentSize_of_descriptor (d : Descriptor) (rest : ByteArray) :
    contentSize (Bytes.ofU32 0xFD2FB528 ++ ([d.bits].toByteArray ++ rest)) =
      afterDescriptor d (Bytes.ofU32 0xFD2FB528 ++ ([d.bits].toByteArray ++ rest)) := by
  have hbound : d.bits.toNat < 256 ^ 1 := d.bits.toNat_lt
  have hbits := field_append (Bytes.ofU32 0xFD2FB528) rest hbound
  rw [← Bytes.toByteArray_eq_le] at hbits
  have hfour : (Bytes.ofU32 0xFD2FB528).size = 4 := rfl
  rw [hfour] at hbits
  rw [contentSize_of_magic, hbits, ok_bind, UInt8.ofNat_toNat]

namespace Form

variable {f : Form} {window : UInt8} {id : Nat}

/-- The parts of a header up to the content size, with what follows them. -/
theorem front_append (f : Form) (window : UInt8) (id : Nat) (rest : ByteArray) :
    f.front window id ++ rest = Bytes.ofU32 0xFD2FB528 ++ ([f.descriptor.bits].toByteArray ++
      (f.windowField window ++ (Bytes.le f.dictionaryWidth id ++ rest))) := by
  simp only [front, ByteArray.append_assoc]

/-- What is read up to the content size. -/
theorem contentSize_of_front (hid : id < 256 ^ f.dictionaryWidth) (rest : ByteArray) :
    contentSize (f.front window id ++ rest) =
      if id ≠ 0 then .error (.dictionary id)
      else if f.sizeWidth = 0 then .error .noContentSize
      else field (f.front window id ++ rest) (f.front window id).size f.sizeWidth >>=
        fun size => .ok (f.leastSize + size) := by
  have hdictionary : field (f.front window id ++ rest) f.descriptor.dictionaryOffset
      f.dictionaryWidth = .ok id := by
    have hfield := field_append (Bytes.ofU32 0xFD2FB528 ++
      ([f.descriptor.bits].toByteArray ++ f.windowField window)) rest hid
    have hsize : (Bytes.ofU32 0xFD2FB528 ++
        ([f.descriptor.bits].toByteArray ++ f.windowField window)).size =
          f.descriptor.dictionaryOffset := by
      simp [Bytes.ofU32]
      omega
    rw [hsize] at hfield
    rw [← hfield, front_append]
    simp only [ByteArray.append_assoc]
  have hafter : contentSize (f.front window id ++ rest) =
      afterDescriptor f.descriptor (f.front window id ++ rest) := by
    rw [front_append, contentSize_of_descriptor]
  rw [hafter, afterDescriptor]
  simp only [reserved_descriptor, dictionaryWidth_descriptor, hdictionary, ok_bind,
    sizeWidth_descriptor, sizeOffset_descriptor, sizeOfField_descriptor, size_front]
  by_cases hzero : id ≠ 0
  · rw [if_pos hzero, if_pos hzero]
    rfl
  · rw [if_neg hzero, if_neg hzero]
    by_cases hwidth : f.sizeWidth = 0
    · rw [if_pos hwidth, if_pos hwidth]
      rfl
    · rw [if_neg hwidth, if_neg hwidth]
      rfl

/-- A size that is written is read back. -/
theorem contentSize_encode {n : Nat} (h : f.Holds n) (window : UInt8) (rest : ByteArray) :
    contentSize (f.encode window n ++ rest) = .ok n := by
  have hroom : n - f.leastSize < 256 ^ f.sizeWidth := by
    have hmost := h.most
    have hpos := Nat.pow_pos (n := f.sizeWidth) (show 0 < 256 by decide)
    omega
  have hzero : 0 < 256 ^ f.dictionaryWidth := Nat.pow_pos (by decide)
  have hsum : f.leastSize + (n - f.leastSize) = n := Nat.add_sub_cancel' h.least
  rw [encode, header, ByteArray.append_assoc, contentSize_of_front hzero,
    if_neg (not_not_intro rfl), if_neg h.width, field_append _ _ hroom, ok_bind, hsum]

end Form

/-! ## byte strings -/

/-- A string that starts with the header of a frame with `n` bytes of content. -/
inductive Declares : (bytes : ByteArray) → (n : Nat) → Prop
  | intro {f : Form} {n : Nat} (holds : f.Holds n) (window : UInt8) (rest : ByteArray) :
      Declares (f.encode window n ++ rest) n

/-- A string that does not start with the magic number, or that starts with a
header that needs a dictionary or has no content size. -/
inductive Unusable : (bytes : ByteArray) → Prop
  | magic {bytes : ByteArray} (h : ¬∃ rest, bytes = Bytes.ofU32 0xFD2FB528 ++ rest) :
      Unusable bytes
  | dictionary {f : Form} {window : UInt8} {id : Nat} (needed : id ≠ 0)
      (fits : id < 256 ^ f.dictionaryWidth) (rest : ByteArray) :
      Unusable (f.front window id ++ rest)
  | size {f : Form} {window : UInt8} (width : f.sizeWidth = 0) (rest : ByteArray) :
      Unusable (f.front window 0 ++ rest)

/-- A string that starts with the magic number and then has the reserved bit
set, or that ends before the descriptor byte, the dictionary number or the
content size does. -/
inductive Damaged : (bytes : ByteArray) → Prop
  | descriptor : Damaged (Bytes.ofU32 0xFD2FB528)
  | reserved {b : UInt8} (h : b.toNat / 8 % 2 = 1) (rest : ByteArray) :
      Damaged (Bytes.ofU32 0xFD2FB528 ++ ([b].toByteArray ++ rest))
  | dictionary {f : Form} {rest : ByteArray} (h : rest.size < f.windowWidth + f.dictionaryWidth) :
      Damaged (Bytes.ofU32 0xFD2FB528 ++ ([f.descriptor.bits].toByteArray ++ rest))
  | size {f : Form} {window : UInt8} {rest : ByteArray} (h : rest.size < f.sizeWidth) :
      Damaged (f.front window 0 ++ rest)

/-- The bytes that are there for a window field are one. -/
theorem Form.windowField_byte {f : Form} {rest : ByteArray} (h : f.windowWidth ≤ rest.size) :
    f.windowField (Bytes.byte rest 0) = rest.extract 0 f.windowWidth := by
  unfold windowWidth windowField at *
  cases hsegment : f.singleSegment with
  | true => simp
  | false =>
      simp only [hsegment, Bool.false_eq_true, if_false] at h ⊢
      have hbyte : Bytes.byte (rest.extract 0 1) 0 = Bytes.byte rest 0 :=
        Bytes.byte_extract (by decide)
      have hsize : (rest.extract 0 1).size = 1 := by
        rw [ByteArray.size_extract]
        omega
      rw [← Bytes.toByteArray_byte hsize, hbyte]

/-- The first bytes of a string are those of the number that they stand for. -/
theorem exists_le_append {bytes : ByteArray} {len : Nat} (h : len ≤ bytes.size) :
    ∃ n rest, n < 256 ^ len ∧ bytes = Bytes.le len n ++ rest := by
  have hnumber : Bytes.le len (Bytes.leNat bytes 0 len) = bytes.extract 0 (0 + len) :=
    Bytes.le_leNat bytes (by omega)
  rw [Nat.zero_add] at hnumber
  have hbytes := Bytes.extract_append_drop bytes len
  rw [← hnumber] at hbytes
  exact ⟨_, _, Bytes.leNat_lt bytes 0 len, hbytes.symm⟩

/-- What follows a descriptor byte is the rest of a header, or is cut off. -/
theorem exists_front_append (f : Form) {rest : ByteArray}
    (h : f.windowWidth + f.dictionaryWidth ≤ rest.size) :
    ∃ window id rest', id < 256 ^ f.dictionaryWidth ∧
      Bytes.ofU32 0xFD2FB528 ++ ([f.descriptor.bits].toByteArray ++ rest) =
        f.front window id ++ rest' := by
  have hwindow : f.windowField (Bytes.byte rest 0) = rest.extract 0 f.windowWidth :=
    f.windowField_byte (by omega)
  have hdrop : f.dictionaryWidth ≤ (Bytes.drop rest f.windowWidth).size := by
    rw [Bytes.size_drop]
    omega
  obtain ⟨id, rest', hid, hrest⟩ := exists_le_append hdrop
  have hbytes := Bytes.extract_append_drop rest f.windowWidth
  rw [← hwindow, hrest] at hbytes
  exact ⟨_, id, rest', hid, by rw [Form.front_append, hbytes]⟩

/-- **Shape**: every string declares a size, cannot be used, or is damaged. -/
theorem declares_or_unusable_or_damaged (bytes : ByteArray) :
    (∃ n, Declares bytes n) ∨ Unusable bytes ∨ Damaged bytes := by
  by_cases hmagic : ∃ rest, bytes = Bytes.ofU32 0xFD2FB528 ++ rest
  · obtain ⟨rest, rfl⟩ := hmagic
    by_cases hnone : rest.size = 0
    · rw [ByteArray.size_eq_zero_iff.mp hnone, ByteArray.append_empty]
      exact .inr (.inr .descriptor)
    · have hbits : Bytes.drop rest 0 = [Bytes.byte rest 0].toByteArray ++ Bytes.drop rest 1 :=
        Bytes.drop_of_lt (by omega)
      rw [Bytes.drop_zero] at hbits
      rw [hbits]
      generalize Bytes.byte rest 0 = b
      generalize Bytes.drop rest 1 = rest
      cases hreserved : (Descriptor.mk b).reserved with
      | true => exact .inr (.inr (.reserved ((Form.reserved_iff b).mp hreserved) rest))
      | false =>
          rw [← Form.bits_ofByte b hreserved]
          generalize Form.ofByte b = f
          by_cases hcut : rest.size < f.windowWidth + f.dictionaryWidth
          · exact .inr (.inr (.dictionary hcut))
          · obtain ⟨window, id, rest', hid, hbytes⟩ :=
              exists_front_append f (Nat.not_lt.mp hcut)
            rw [hbytes]
            by_cases hdictionary : id ≠ 0
            · exact .inr (.inl (.dictionary hdictionary hid rest'))
            · rw [Decidable.not_not.mp hdictionary]
              by_cases hwidth : f.sizeWidth = 0
              · exact .inr (.inl (.size hwidth rest'))
              · by_cases hshort : rest'.size < f.sizeWidth
                · exact .inr (.inr (.size hshort))
                · obtain ⟨n, rest'', hn, hrest⟩ := exists_le_append (Nat.not_lt.mp hshort)
                  have hholds : f.Holds (f.leastSize + n) := ⟨hwidth, by omega, by omega⟩
                  have hfield : f.leastSize + n - f.leastSize = n := Nat.add_sub_cancel_left _ _
                  have hencode : f.front window 0 ++ rest' =
                      f.encode window (f.leastSize + n) ++ rest'' := by
                    rw [Form.encode, Form.header, hfield, ByteArray.append_assoc, ← hrest]
                  rw [hencode]
                  exact .inl ⟨_, .intro hholds window rest''⟩
  · exact .inr (.inl (.magic hmagic))

/-! ## declared sizes -/

/-- What reading the declared size comes to: the size, or the status of the error. -/
def declared (bytes : ByteArray) : Except Status Nat :=
  (contentSize bytes).mapError HeaderError.status

theorem declared_of_declares {bytes : ByteArray} {n : Nat} (h : Declares bytes n) :
    declared bytes = .ok n := by
  obtain ⟨holds, window, rest⟩ := h
  rw [declared, Form.contentSize_encode holds]
  rfl

theorem declared_of_unusable {bytes : ByteArray} (h : Unusable bytes) :
    declared bytes = .error Status.unsupported := by
  unfold declared
  cases h with
  | magic h =>
      rw [contentSize_of_foreign h]
      rfl
  | dictionary needed fits rest =>
      rw [Form.contentSize_of_front fits, if_pos needed]
      rfl
  | @size f window width rest =>
      have hzero : 0 < 256 ^ f.dictionaryWidth := Nat.pow_pos (by decide)
      rw [Form.contentSize_of_front hzero, if_neg (not_not_intro rfl), if_pos width]
      rfl

theorem declared_of_damaged {bytes : ByteArray} (h : Damaged bytes) :
    declared bytes = .error Status.compromisedData := by
  unfold declared
  cases h with
  | descriptor =>
      have hbits : field (Bytes.ofU32 0xFD2FB528) 4 1 = .error .truncated :=
        field_of_lt (by decide)
      have hmagic := contentSize_of_magic ByteArray.empty
      rw [ByteArray.append_empty, hbits] at hmagic
      rw [hmagic]
      rfl
  | @reserved b h rest =>
      have hreserved : (Descriptor.mk b).reserved = true := (Form.reserved_iff b).mpr h
      have hread := contentSize_of_descriptor ⟨b⟩ rest
      rw [afterDescriptor, if_pos hreserved] at hread
      rw [hread]
      rfl
  | @dictionary f rest h =>
      have hfield : field (Bytes.ofU32 0xFD2FB528 ++ ([f.descriptor.bits].toByteArray ++ rest))
          f.descriptor.dictionaryOffset f.descriptor.dictionaryWidth = .error .truncated := by
        refine field_of_lt ?_
        simp [Bytes.ofU32]
        omega
      rw [contentSize_of_descriptor, afterDescriptor, hfield]
      simp only [Form.reserved_descriptor]
      rfl
  | @size f window rest h =>
      have hzero : 0 < 256 ^ f.dictionaryWidth := Nat.pow_pos (by decide)
      have hfield : field (f.front window 0 ++ rest) (f.front window 0).size f.sizeWidth =
          .error .truncated := by
        refine field_of_lt ?_
        rw [ByteArray.size_append]
        omega
      have hwidth : f.sizeWidth ≠ 0 := by omega
      rw [Form.contentSize_of_front hzero, if_neg (not_not_intro rfl), if_neg hwidth, hfield]
      rfl

/-- A header says the same whatever follows it. -/
theorem declared_header_append {f : Form} {window : UInt8} {id size : Nat}
    (hid : id < 256 ^ f.dictionaryWidth) (hsize : size < 256 ^ f.sizeWidth) (rest : ByteArray) :
    declared (f.header window id size ++ rest) = declared (f.header window id size) := by
  have hrest : ∀ more : ByteArray, contentSize (f.header window id size ++ more) =
      if id ≠ 0 then .error (.dictionary id)
      else if f.sizeWidth = 0 then .error .noContentSize else .ok (f.leastSize + size) := by
    intro more
    rw [Form.header, ByteArray.append_assoc, Form.contentSize_of_front hid,
      field_append _ _ hsize, ok_bind]
  have hnone := hrest ByteArray.empty
  rw [ByteArray.append_empty] at hnone
  rw [declared, declared, hrest rest, hnone]

theorem declared_cases (bytes : ByteArray) :
    (∃ n, declared bytes = .ok n ∧ Declares bytes n) ∨
      declared bytes = .error Status.unsupported ∧ Unusable bytes ∨
      declared bytes = .error Status.compromisedData ∧ Damaged bytes := by
  obtain ⟨n, h⟩ | h | h := declares_or_unusable_or_damaged bytes
  · exact .inl ⟨n, declared_of_declares h, h⟩
  · exact .inr (.inl ⟨declared_of_unusable h, h⟩)
  · exact .inr (.inr ⟨declared_of_damaged h, h⟩)

theorem declared_eq_ok_iff {bytes : ByteArray} {n : Nat} :
    declared bytes = .ok n ↔ Declares bytes n := by
  constructor
  · intro h
    obtain ⟨n', hbytes, hn⟩ | ⟨hbytes, -⟩ | ⟨hbytes, -⟩ := declared_cases bytes
    · have hsame : n' = n := Except.ok.inj (hbytes.symm.trans h)
      exact hsame ▸ hn
    · simp [hbytes] at h
    · simp [hbytes] at h
  · exact declared_of_declares

theorem declared_eq_unsupported_iff {bytes : ByteArray} :
    declared bytes = .error Status.unsupported ↔ Unusable bytes := by
  constructor
  · intro h
    obtain ⟨n, hbytes, -⟩ | ⟨-, hunusable⟩ | ⟨hbytes, -⟩ := declared_cases bytes
    · simp [hbytes] at h
    · exact hunusable
    · have hsame : Status.compromisedData = Status.unsupported :=
        Except.error.inj (hbytes.symm.trans h)
      exact absurd hsame (by decide)
  · exact declared_of_unusable

theorem declared_eq_compromisedData_iff {bytes : ByteArray} :
    declared bytes = .error Status.compromisedData ↔ Damaged bytes := by
  constructor
  · intro h
    obtain ⟨n, hbytes, -⟩ | ⟨hbytes, -⟩ | ⟨-, hdamaged⟩ := declared_cases bytes
    · simp [hbytes] at h
    · have hsame : Status.unsupported = Status.compromisedData :=
        Except.error.inj (hbytes.symm.trans h)
      exact absurd hsame (by decide)
    · exact hdamaged
  · exact declared_of_damaged

/-- **Declared sizes**: the size of a string is the one that its header
declares.  A string without the magic number, with a dictionary or without a
size is not supported, and one with the reserved bit or that ends in a field
that has to be read is damaged; there are no others.  What follows a header
does not matter, and so a size is read back in every form that can hold it. -/
theorem declared_of_bytes (bytes : ByteArray) :
    (∀ n, declared bytes = .ok n ↔ Declares bytes n) ∧
      (declared bytes = .error Status.unsupported ↔ Unusable bytes) ∧
      (declared bytes = .error Status.compromisedData ↔ Damaged bytes) ∧
      ((∃ n, Declares bytes n) ∨ Unusable bytes ∨ Damaged bytes) ∧
      (∀ (f : Form) (window : UInt8) (id size : Nat) (rest : ByteArray),
        id < 256 ^ f.dictionaryWidth → size < 256 ^ f.sizeWidth →
          declared (f.header window id size ++ rest) = declared (f.header window id size)) ∧
      ∀ (f : Form) (window : UInt8) (n : Nat) (rest : ByteArray), f.Holds n →
        declared (f.encode window n ++ rest) = .ok n := by
  have happend : ∀ (f : Form) (window : UInt8) (id size : Nat) (rest : ByteArray),
      id < 256 ^ f.dictionaryWidth → size < 256 ^ f.sizeWidth →
        declared (f.header window id size ++ rest) = declared (f.header window id size) := by
    intro f window id size rest hid hsize
    exact declared_header_append hid hsize rest
  have hencode : ∀ (f : Form) (window : UInt8) (n : Nat) (rest : ByteArray), f.Holds n →
      declared (f.encode window n ++ rest) = .ok n := by
    intro f window n rest h
    exact declared_of_declares (.intro h window rest)
  exact ⟨fun n => declared_eq_ok_iff, declared_eq_unsupported_iff, declared_eq_compromisedData_iff,
    declares_or_unusable_or_damaged bytes, happend, hencode⟩

/-- Two bytes are enough for all sizes from 256 on that are short of 65792. -/
def shortForm : Form where
  sizeFlag := 1
  singleSegment := false
  unused := false
  checksum := true
  dictionaryFlag := 2

/-- The size 512 in that form, with a dictionary field of zeros. -/
theorem declared_of_bytes_short :
    shortForm.Holds 512 ∧
      declared (shortForm.encode 0x58 512 ++ [1, 2].toByteArray) = .ok 512 := by
  have hholds : shortForm.Holds 512 := ⟨by decide, by decide, by decide⟩
  obtain ⟨-, -, -, -, -, hencode⟩ := declared_of_bytes [].toByteArray
  exact ⟨hholds, hencode shortForm 0x58 512 _ hholds⟩

end EfiLoader.Zstd
