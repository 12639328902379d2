import EfiLoader.Proofs.Bytes.Stands
import EfiLoader.Proofs.Pe.Builder.Layout

/-!
# EfiLoader.Proofs.Pe.Builder.File

What stands in the file of an image that is made.  The file is a frame with the
headers, over which the content of sections is written:

* `Clear` — images whose content stands behind the section table;
* `stands_header`, `stands_entry` — what stands in the headers of the file then;
* `stands_content` — the content of a section, if all of it is in sequence;
* `byte_filling` — what a piece of content is filled up with.
-/

namespace EfiLoader.Pe.Builder

open Bytes (Stands Apart overwriteAll)

variable {b : Builder} {s : NewSection} {i : Nat} {part : ByteArray}

/-! ## the size of the file -/

/-- Where the section table ends. -/
def tableEnd (b : Builder) : Nat := b.tableStart + b.sections.length * sectionHeaderSize

theorem tableEnd_le_headersEnd (b : Builder) : b.tableEnd ≤ b.headersEnd :=
  Nat.le_trans (Nat.le_max_left _ _) (Nat.le_max_left _ _)

theorem fullOptional_le_headersEnd (b : Builder) :
    optionalStart + b.fullOptionalSize ≤ b.headersEnd :=
  Nat.le_trans (Nat.le_max_right _ _) (Nat.le_max_left _ _)

theorem headersSize_le_headersEnd (b : Builder) : b.headersSize.toNat ≤ b.headersEnd :=
  Nat.le_max_right _ _

/-- The end of a file of `n` bytes with more content. -/
def endWith (n : Nat) (p : NewSection × Extent) : Nat :=
  if p.2.size = 0 ∨ p.1.data.isEmpty then n else max n (p.2.pointer.toNat + p.2.size.toNat)

theorem le_endWith (n : Nat) (p : NewSection × Extent) : n ≤ endWith n p := by
  unfold endWith
  split
  · exact Nat.le_refl n
  · exact Nat.le_max_left _ _

theorem le_foldl_endWith (n : Nat) (l : List (NewSection × Extent)) : n ≤ l.foldl endWith n := by
  induction l generalizing n with
  | nil => exact Nat.le_refl n
  | cons p rest ih => exact Nat.le_trans (le_endWith n p) (ih _)

/-- Content that is not empty ends in the file. -/
theorem extent_le_foldl_endWith (n : Nat) {l : List (NewSection × Extent)}
    {p : NewSection × Extent} (hp : p ∈ l) (hsize : p.2.size ≠ 0) (hdata : p.1.data.size ≠ 0) :
    p.2.pointer.toNat + p.2.size.toNat ≤ l.foldl endWith n := by
  induction l generalizing n with
  | nil => cases hp
  | cons first rest ih =>
    rw [List.foldl_cons]
    cases hp with
    | head =>
      have hend : p.2.pointer.toNat + p.2.size.toNat ≤ endWith n p := by
        have hnonempty : ¬(p.2.size = 0 ∨ p.1.data.isEmpty = true) := by
          simp [ByteArray.isEmpty, hsize, hdata]
        rw [endWith, if_neg hnonempty]
        exact Nat.le_max_right _ _
      exact Nat.le_trans hend (le_foldl_endWith _ rest)
    | tail _ hp => exact ih _ hp

theorem headersEnd_le_fileSize (b : Builder) : b.headersEnd ≤ b.fileSize :=
  le_foldl_endWith _ _

/-! ## the frame and what is written over it -/

/-- The file without content. -/
def frame (b : Builder) : ByteArray :=
  let file := Bytes.zeros b.fileSize
  let file := Bytes.overwrite file 0 (Bytes.le 2 stubMagic)
  let file := Bytes.overwrite file signatureField (Bytes.le 4 signatureOffset)
  let file := Bytes.overwrite file signatureOffset b.headerBytes
  Bytes.overwrite file b.tableStart b.tableBytes

/-- The content of a section with its place in the file. -/
def placedContent (p : NewSection × Extent) : Nat × ByteArray :=
  (p.2.pointer.toNat, p.1.data.extract 0 p.2.size.toNat)

/-- The content of all sections. -/
def contents (b : Builder) : List (Nat × ByteArray) :=
  (b.sections.zip b.layout).map placedContent

theorem size_frame (b : Builder) : b.frame.size = b.fileSize := by
  simp [frame]

theorem size_placedContent (p : NewSection × Extent) :
    (placedContent p).2.size = min p.2.size.toNat p.1.data.size := by
  rw [placedContent, ByteArray.size_extract]
  omega

/-- Content always fits in whole. -/
theorem writeContent_eq {file : ByteArray} {p : NewSection × Extent}
    (hfits : (placedContent p).2.size ≠ 0 →
      (placedContent p).1 + (placedContent p).2.size ≤ file.size) :
    writeContent file p.1 p.2 =
      Bytes.overwrite file (placedContent p).1 (placedContent p).2 := by
  change (if (placedContent p).1 + (placedContent p).2.size ≤ file.size then
    Bytes.overwrite file (placedContent p).1 (placedContent p).2 else file) = _
  by_cases hempty : (placedContent p).2.size = 0
  · have hnone : (placedContent p).2 = ByteArray.empty := ByteArray.size_eq_zero_iff.mp hempty
    rw [hnone, Bytes.overwrite_empty, ite_self]
  · rw [if_pos (hfits hempty)]

theorem foldl_writeContent {file : ByteArray} {l : List (NewSection × Extent)}
    (hfits : ∀ p ∈ l, (placedContent p).2.size ≠ 0 →
      (placedContent p).1 + (placedContent p).2.size ≤ file.size) :
    l.foldl (fun file p => writeContent file p.1 p.2) file =
      overwriteAll file (l.map placedContent) := by
  induction l generalizing file with
  | nil => rfl
  | cons p rest ih =>
    rw [List.foldl_cons, writeContent_eq (hfits p List.mem_cons_self), ih]
    · rfl
    · intro q hq
      rw [Bytes.size_overwrite]
      exact hfits q (List.mem_cons_of_mem p hq)

/-- Content that is not empty lies in the file. -/
theorem content_le_fileSize {p : NewSection × Extent} (hp : p ∈ b.sections.zip b.layout)
    (hne : (placedContent p).2.size ≠ 0) :
    (placedContent p).1 + (placedContent p).2.size ≤ b.fileSize := by
  rw [size_placedContent] at hne ⊢
  have hsize : p.2.size ≠ 0 := by
    intro h0
    rw [h0] at hne
    exact hne (Nat.zero_min _)
  have hend := extent_le_foldl_endWith b.headersEnd hp hsize (by omega)
  change p.2.pointer.toNat + _ ≤ b.fileSize
  change p.2.pointer.toNat + p.2.size.toNat ≤ b.fileSize at hend
  omega

theorem file_eq (b : Builder) : b.file = overwriteAll b.frame b.contents := by
  change (b.sections.zip b.layout).foldl (fun file p => writeContent file p.1 p.2) b.frame = _
  refine foldl_writeContent fun p hp hne => ?_
  rw [size_frame]
  exact content_le_fileSize hp hne

@[simp] theorem size_file (b : Builder) : b.file.size = b.fileSize := by
  rw [file_eq, Bytes.size_overwriteAll, size_frame]

/-! ## pieces of the headers -/

/-- The pieces of the file header and the optional header, up to the directories. -/
def fixedParts (b : Builder) : List ByteArray :=
  let address := Bytes.le b.width.addressSize
  [Bytes.le 4 signature, Bytes.ofU16 b.machine, Bytes.le 2 b.sections.length, Bytes.zeros 12,
   Bytes.le 2 b.declaredOptionalSize, Bytes.ofU16 b.characteristics,
   Bytes.le 2 b.width.magic, Bytes.le 2 14, Bytes.zeros 12, Bytes.ofU32 b.entryPoint,
   Bytes.zeros (b.width.imageBaseOffset - 20), address b.imageBase.toNat,
   Bytes.ofU32 b.sectionAlignment, Bytes.ofU32 b.fileAlignment, Bytes.zeros 16,
   Bytes.ofU32 b.imageSize, Bytes.ofU32 b.headersSize, Bytes.zeros 4,
   Bytes.ofU16 b.subsystem, Bytes.zeros 2, Bytes.zeros (4 * b.width.addressSize + 4),
   Bytes.ofU32 (b.directoryCount.getD (UInt32.ofNat maxDirectories))]

/-- The sizes of these pieces. -/
def fixedSizes (w : Width) : List Nat :=
  [4, 2, 2, 12, 2, 2, 2, 2, 12, 4, w.imageBaseOffset - 20, w.addressSize, 4, 4, 16, 4, 4, 4, 2, 2,
   4 * w.addressSize + 4, 4]

theorem map_size_fixedParts (b : Builder) :
    b.fixedParts.map ByteArray.size = fixedSizes b.width := by
  simp [fixedParts, fixedSizes, Bytes.ofU16, Bytes.ofU32]

/-- The directories, each a piece. -/
def directoryParts (b : Builder) : List ByteArray :=
  b.directories.map fun d => Bytes.ofU32 d.1 ++ Bytes.ofU32 d.2

theorem headerBytes_eq (b : Builder) :
    b.headerBytes = Bytes.concat b.fixedParts ++ Bytes.concat b.directoryParts := by
  change Bytes.concat (b.fixedParts ++ b.directoryParts) = _
  rw [Bytes.concat, List.foldl_append, Bytes.foldl_append]
  rfl

theorem size_fixedParts (b : Builder) :
    (Bytes.concat b.fixedParts).size = optionalOffset + b.width.fixedSize := by
  rw [Bytes.size_concat, map_size_fixedParts]
  cases b.width
  · rfl
  · rfl

theorem size_directoryParts (b : Builder) : ∀ p ∈ b.directoryParts, p.size = directorySize := by
  intro p hp
  obtain ⟨d, -, rfl⟩ := List.mem_map.mp hp
  simp [ByteArray.size_append, Bytes.ofU32, directorySize]

theorem size_headerBytes (b : Builder) :
    b.headerBytes.size =
      optionalOffset + b.width.fixedSize + b.directories.length * directorySize := by
  rw [headerBytes_eq, ByteArray.size_append, size_fixedParts,
    Bytes.size_concat_of_size b.size_directoryParts, directoryParts, List.length_map]

/-- A piece of the headers stands behind those before it. -/
theorem stands_fixedPart (h : b.fixedParts[i]? = some part) :
    Stands b.headerBytes ((fixedSizes b.width).take i).sum part := by
  have hstands := Bytes.stands_concat h
  rw [List.map_take, map_size_fixedParts] at hstands
  rw [headerBytes_eq, ← Nat.zero_add (List.sum _)]
  exact (Bytes.stands_append_left _ _).trans hstands

/-- So does a directory. -/
theorem stands_directory {d : UInt32 × UInt32} (h : b.directories[i]? = some d) :
    Stands b.headerBytes (optionalOffset + b.width.fixedSize + i * directorySize)
      (Bytes.ofU32 d.1 ++ Bytes.ofU32 d.2) := by
  have hpart : b.directoryParts[i]? = some (Bytes.ofU32 d.1 ++ Bytes.ofU32 d.2) := by
    rw [directoryParts, List.getElem?_map, h]
    rfl
  rw [headerBytes_eq, ← size_fixedParts]
  exact (Bytes.stands_append_right _ _).trans
    (Bytes.stands_concat_of_size b.size_directoryParts hpart)

/-! ## pieces of the section table -/

@[simp] theorem size_nameField (s : NewSection) : s.nameField.size = sectionNameSize := by
  rw [NewSection.nameField]
  simp only [ByteArray.size_append, ByteArray.size_extract, Bytes.size_zeros]
  omega

theorem size_sectionBytes (s : NewSection) (e : Extent) :
    (sectionBytes s e).size = sectionHeaderSize := by
  rw [sectionBytes, Bytes.size_concat]
  simp [Bytes.ofU32, sectionNameSize, sectionHeaderSize]

theorem size_entries (b : Builder) :
    ∀ p ∈ List.zipWith sectionBytes b.sections b.layout, p.size = sectionHeaderSize := by
  intro p hp
  obtain ⟨i, hi⟩ := List.mem_iff_getElem?.mp hp
  obtain ⟨s, e, -, -, rfl⟩ := List.getElem?_zipWith_eq_some.mp hi
  exact size_sectionBytes s e

theorem size_tableBytes (b : Builder) :
    b.tableBytes.size = b.sections.length * sectionHeaderSize := by
  rw [tableBytes, Bytes.size_concat_of_size b.size_entries, List.length_zipWith, length_layout,
    Nat.min_self]

/-- The header of a section stands behind those before it. -/
theorem stands_sectionBytes {e : Extent} (hs : b.sections[i]? = some s)
    (he : b.layout[i]? = some e) :
    Stands b.tableBytes (i * sectionHeaderSize) (sectionBytes s e) :=
  Bytes.stands_concat_of_size b.size_entries
    (List.getElem?_zipWith_eq_some.mpr ⟨s, e, hs, he, rfl⟩)

/-! ## the frame -/

variable {off : Nat}

theorem optionalStart_le_tableStart (b : Builder) : optionalStart ≤ b.tableStart :=
  Nat.le_add_right _ _

theorem tableEnd_le_fileSize (b : Builder) : b.tableEnd ≤ b.fileSize :=
  Nat.le_trans b.tableEnd_le_headersEnd b.headersEnd_le_fileSize

theorem tableStart_le_fileSize (b : Builder) : b.tableStart ≤ b.fileSize :=
  Nat.le_trans (Nat.le_add_right _ _) b.tableEnd_le_fileSize

theorem stands_frame_stub (b : Builder) : Stands b.frame 0 (Bytes.le 2 stubMagic) := by
  have hstart : 88 ≤ b.tableStart := b.optionalStart_le_tableStart
  have hfile := b.tableStart_le_fileSize
  have hstub : Stands (Bytes.overwrite (Bytes.zeros b.fileSize) 0 (Bytes.le 2 stubMagic)) 0
      (Bytes.le 2 stubMagic) := Bytes.stands_overwrite (by simp; omega)
  refine ((hstub.overwrite ?_).overwrite ?_).overwrite ?_
  · exact Or.inl (by simp [signatureField])
  · exact Or.inl (by simp [signatureOffset])
  · exact Or.inl (by simp; omega)

theorem stands_frame_signatureField (b : Builder) :
    Stands b.frame signatureField (Bytes.le 4 signatureOffset) := by
  have hstart : 88 ≤ b.tableStart := b.optionalStart_le_tableStart
  have hfile := b.tableStart_le_fileSize
  refine ((Bytes.stands_overwrite ?_).overwrite ?_).overwrite ?_
  · simp [signatureField]
    omega
  · exact Or.inl (by simp [signatureField, signatureOffset])
  · exact Or.inl (by simp [signatureField]; omega)

/-- The headers stand in front of the section table. -/
theorem stands_frame_header (hdirs : b.directories.length = maxDirectories)
    (h : Stands b.headerBytes off part)
    (hend : signatureOffset + off + part.size ≤ b.tableStart) :
    Stands b.frame (signatureOffset + off) part := by
  have hroom : signatureOffset + b.headerBytes.size ≤ b.fileSize := by
    refine Nat.le_trans (Nat.le_of_eq ?_)
      (Nat.le_trans b.fullOptional_le_headersEnd b.headersEnd_le_fileSize)
    rw [size_headerBytes, hdirs, fullOptionalSize, optionalStart]
    omega
  exact ((Bytes.stands_overwrite (by simpa using hroom)).trans h).overwrite (Or.inl hend)

theorem stands_frame_table (b : Builder) : Stands b.frame b.tableStart b.tableBytes := by
  refine Bytes.stands_overwrite ?_
  rw [size_tableBytes]
  simpa [tableEnd] using b.tableEnd_le_fileSize

/-- Behind the headers there is nothing. -/
theorem byte_frame (hdirs : b.directories.length = maxDirectories) {j : Nat}
    (hj : b.headersEnd ≤ j) : Bytes.byte b.frame j = 0 := by
  have htable := b.tableEnd_le_headersEnd
  have hstart : 88 ≤ b.tableStart := b.optionalStart_le_tableStart
  have hfull := b.fullOptional_le_headersEnd
  have hframe : b.frame = overwriteAll (Bytes.zeros b.fileSize)
      [(0, Bytes.le 2 stubMagic), (signatureField, Bytes.le 4 signatureOffset),
        (signatureOffset, b.headerBytes), (b.tableStart, b.tableBytes)] := by
    simp only [frame, overwriteAll, List.foldl_cons, List.foldl_nil]
  rw [hframe, Bytes.byte_overwriteAll, Bytes.byte_zeros]
  intro w hw
  simp only [List.mem_cons, List.not_mem_nil, or_false] at hw
  rw [tableEnd] at htable
  rw [fullOptionalSize, optionalStart] at hfull
  rcases hw with rfl | rfl | rfl | rfl
  · exact Or.inr (by simp; omega)
  · exact Or.inr (by simp [signatureField]; omega)
  · exact Or.inr (by simp only [size_headerBytes, hdirs]; omega)
  · exact Or.inr (by simp only [size_tableBytes]; omega)

/-! ## what content leaves alone -/

/-- No content reaches into the headers. -/
def Clear (b : Builder) : Prop := ∀ w ∈ b.contents, w.1 + w.2.size = 0 ∨ b.tableEnd ≤ w.1

theorem Clear.stands (hclear : b.Clear) (h : Stands b.frame off part)
    (hend : off + part.size ≤ b.tableEnd) : Stands b.file off part := by
  rw [file_eq]
  refine h.overwriteAll fun w hw => ?_
  rcases hclear w hw with hempty | hbehind
  · exact Or.inr (Nat.le_trans (Nat.le_of_eq hempty) (Nat.zero_le _))
  · exact Or.inl (Nat.le_trans hend hbehind)

/-- A piece of the headers in front of the section table stands in the file. -/
theorem Clear.stands_header (hclear : b.Clear) (hdirs : b.directories.length = maxDirectories)
    (h : Stands b.headerBytes off part)
    (hend : signatureOffset + off + part.size ≤ b.tableStart) :
    Stands b.file (signatureOffset + off) part :=
  hclear.stands (stands_frame_header hdirs h hend) (Nat.le_trans hend (Nat.le_add_right _ _))

/-- The header of a section stands in its place in the table. -/
theorem Clear.stands_entry (hclear : b.Clear) {e : Extent} (hs : b.sections[i]? = some s)
    (he : b.layout[i]? = some e) :
    Stands b.file (b.tableStart + i * sectionHeaderSize) (sectionBytes s e) := by
  have htable : Stands b.file b.tableStart b.tableBytes :=
    hclear.stands b.stands_frame_table (by rw [size_tableBytes]; exact Nat.le_refl _)
  exact htable.trans (stands_sectionBytes hs he)

/-! ## content in sequence -/

namespace Sequential

theorem mem_contents (hb : b.Sequential) {w : Nat × ByteArray} (hw : w ∈ b.contents) :
    ∃ i s, b.sections[i]? = some s ∧ w = placedContent (s, b.extent i s) := by
  obtain ⟨p, hp, rfl⟩ := List.mem_map.mp hw
  obtain ⟨i, hi⟩ := List.mem_iff_getElem?.mp hp
  obtain ⟨hs, he⟩ := List.getElem?_zip_eq_some.mp hi
  rw [hb.layout_getElem? hs] at he
  exact ⟨i, p.1, hs, by rw [Option.some.inj he]⟩

theorem contents_getElem? (hb : b.Sequential) (hs : b.sections[i]? = some s) :
    b.contents[i]? = some (placedContent (s, b.extent i s)) := by
  have hzip : (b.sections.zip b.layout)[i]? = some (s, b.extent i s) :=
    List.getElem?_zip_eq_some.mpr ⟨hs, hb.layout_getElem? hs⟩
  rw [contents, List.getElem?_map, hzip]
  rfl

/-- Content is empty, or starts where it should and ends in its place. -/
theorem content_cases (hb : b.Sequential) (hs : b.sections[i]? = some s) :
    (placedContent (s, b.extent i s)).1 + (placedContent (s, b.extent i s)).2.size = 0 ∨
      (placedContent (s, b.extent i s)).1 = b.contentStart i ∧
        (placedContent (s, b.extent i s)).2.size ≤ (s.rawBytes b.effectiveAlignment).toNat := by
  rw [size_placedContent]
  by_cases hzero : s.rawBytes b.effectiveAlignment = 0
  · left
    rw [placedContent, pointer_extent_of_zero hzero, size_extent, hzero]
    simp
  · exact Or.inr ⟨hb.pointer_extent hs hzero, Nat.min_le_left _ _⟩

theorem clear (hb : b.Sequential) : b.Clear := by
  intro w hw
  obtain ⟨i, s, hs, rfl⟩ := hb.mem_contents hw
  refine (hb.content_cases hs).imp_right fun ⟨hstart, _⟩ => ?_
  rw [hstart]
  exact Nat.le_trans b.tableEnd_le_headersEnd (b.headersEnd_le_contentStart i)

theorem apart_contents (hb : b.Sequential) : b.contents.Pairwise Apart := by
  rw [List.pairwise_iff_getElem]
  intro i j hi hj hij
  have hlength : b.contents.length ≤ b.sections.length := by
    rw [contents, List.length_map, List.length_zip]
    exact Nat.min_le_left _ _
  have hs : b.sections[i]? = some b.sections[i] := List.getElem?_eq_getElem (by omega)
  have ht : b.sections[j]? = some b.sections[j] := List.getElem?_eq_getElem (by omega)
  have hwi := hb.contents_getElem? hs
  have hwj := hb.contents_getElem? ht
  rw [List.getElem?_eq_getElem hi, Option.some.injEq] at hwi
  rw [List.getElem?_eq_getElem hj, Option.some.injEq] at hwj
  have hbefore := contentStart_add_le hs hij
  rw [hwi, hwj, Apart]
  rcases hb.content_cases hs with hempty | ⟨hstart, hend⟩
  · omega
  · rcases hb.content_cases ht with hempty | ⟨hstart', -⟩
    · omega
    · omega

/-- **Content stands in its place**: it has not been written over. -/
theorem stands_content (hb : b.Sequential) (hs : b.sections[i]? = some s)
    (hne : (placedContent (s, b.extent i s)).2.size ≠ 0) :
    Stands b.file (b.extent i s).pointer.toNat (s.data.extract 0 (b.extent i s).size.toNat) := by
  have hzip : (b.sections.zip b.layout)[i]? = some (s, b.extent i s) :=
    List.getElem?_zip_eq_some.mpr ⟨hs, hb.layout_getElem? hs⟩
  have hroom := content_le_fileSize (List.mem_of_getElem? hzip) hne
  rw [← size_frame] at hroom
  rw [file_eq]
  exact Bytes.stands_overwriteAll hb.apart_contents
    (List.mem_of_getElem? (hb.contents_getElem? hs)) hroom

/-- A piece of content is filled up with zeros. -/
theorem byte_filling (hb : b.Sequential) (hdirs : b.directories.length = maxDirectories)
    (hs : b.sections[i]? = some s) {o : Nat} (hdata : s.data.size ≤ o)
    (hraw : o < (s.rawBytes b.effectiveAlignment).toNat) :
    Bytes.byte b.file ((b.extent i s).pointer.toNat + o) = 0 := by
  have hne : s.rawBytes b.effectiveAlignment ≠ 0 := by
    intro h0
    rw [h0] at hraw
    exact Nat.not_lt_zero _ hraw
  have hheaders := b.headersEnd_le_contentStart i
  rw [hb.pointer_extent hs hne, file_eq, Bytes.byte_overwriteAll, byte_frame hdirs (by omega)]
  intro w hw
  obtain ⟨j, t, ht, rfl⟩ := hb.mem_contents hw
  rcases hb.content_cases ht with hempty | ⟨hstart, hend⟩
  · exact Or.inr (by omega)
  rcases Nat.lt_trichotomy i j with hij | rfl | hij
  · have hafter := contentStart_add_le hs hij
    exact Or.inl (by omega)
  · rw [hs] at ht
    obtain rfl := Option.some.inj ht
    have hsize := size_placedContent (s, b.extent i s)
    exact Or.inr (by rw [hstart, hsize]; simp only; omega)
  · have hbefore := contentStart_add_le ht hij
    exact Or.inr (by omega)

end Sequential

end EfiLoader.Pe.Builder
