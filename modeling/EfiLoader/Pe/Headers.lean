import EfiLoader.Log.Target
import EfiLoader.Paging
import EfiLoader.Pe.Section
import EfiLoader.Text.Hex

/-!
# EfiLoader.Pe.Headers

The headers of an image.  `Stored.find` reads the fields of an image that can
run on a platform, and `Stored.check` makes them into `Headers`, in which the
section table lies inside the headers and the headers inside the file and the
image.  Images that are damaged and images that cannot run here end with
different statuses, because only the latter are worth another loader.
-/

namespace EfiLoader.Pe

open Log Text

/-! ## Errors -/

/-- What can be wrong with the headers of an image. -/
inductive HeaderError where
  /-- The file is shorter than the stub header. -/
  | noStub
  /-- The file starts with another magic number. -/
  | stubMagic (found : Nat)
  /-- The headers that the stub points to are not in the file. -/
  | signatureOffset (offset : Nat)
  /-- Something else stands where the signature should. -/
  | signature (found : Nat)
  /-- The image is for another machine. -/
  | machine (found expected : UInt16)
  /-- The image is neither a program nor a library. -/
  | notLoadable (characteristics : UInt16)
  /-- The relocations have been removed. -/
  | stripped
  /-- The bytes of words are in reverse order. -/
  | reversed
  /-- The optional header has an unknown magic number. -/
  | optionalMagic (found : Nat)
  /-- The image has another width than the platform. -/
  | width (found : Width)
  /-- The optional header is cut off. -/
  | optionalTruncated
  /-- The file alignment is odd. -/
  | oddAlignment (alignment : Nat)
  /-- There are more directories than an image can have. -/
  | directories (count : Nat)
  /-- The optional header does not end after its directories. -/
  | optionalSize (size count : Nat)
  /-- There are more sections than are accepted. -/
  | sections (count : Nat)
  /-- The section table does not fit into the image. -/
  | tableOutsideImage
  /-- The section table does not fit into the headers. -/
  | tableOutsideHeaders
  /-- The headers do not fit into the image. -/
  | headersOutsideImage
  /-- The headers do not fit into the file. -/
  | headersOutsideFile (headers file : Nat)
deriving DecidableEq

namespace HeaderError

/-- Whether the image is sound but cannot run here. -/
def foreign : HeaderError → Bool
  | machine _ _ | notLoadable _ | stripped | reversed | optionalMagic _ | width _ => true
  | _ => false

/-- The status that loading ends with. -/
def status (e : HeaderError) : Status := if e.foreign then Status.unsupported else Status.loadError

/-- The text of the line that reports the error. -/
def message : HeaderError → String
  | noStub => "PE: Data too small for DOS header"
  | stubMagic found => s!"PE: Invalid DOS magic: {hex found}"
  | signatureOffset offset => s!"PE: Invalid PE offset {hex offset}"
  | signature found => s!"PE: Invalid PE signature: {hex found}"
  | machine found expected =>
    s!"PE: Unsupported machine type {hex found.toNat}, expected {hex expected.toNat}"
  | notLoadable characteristics => s!"PE: Not a loadable image ({hex characteristics.toNat})"
  | stripped => "PE: Image is stripped of relocations"
  | reversed => "PE: Big endian image"
  | optionalMagic found => s!"PE: Invalid optional header magic {hex found}"
  | width found => s!"PE: {found.bits}-bit image not supported"
  | optionalTruncated => "PE: Optional header extends beyond data"
  | oddAlignment alignment => s!"PE: File alignment is odd ({alignment})"
  | directories count => s!"PE: Too many data directories: {count}"
  | optionalSize size count =>
    s!"PE: Optional header size {hex size} does not match {count} directories"
  | sections count => s!"PE: Too many sections: {count}"
  | tableOutsideImage => "PE: Image section list overflows image size"
  | tableOutsideHeaders => "PE: Image sections overflow section header"
  | headersOutsideImage => "PE: Header size exceeds image size"
  | headersOutsideFile headers file =>
    s!"PE: Header size {hex headers} exceeds file size {hex file}"

instance : Fault HeaderError := ⟨status, fun e => [Component.headers.error e.message]⟩

end HeaderError

/-! ## Stored fields -/

/-- Header fields as the file has them. -/
structure Stored where
  machine : UInt16
  width : Width
  /-- Where the optional header starts. -/
  optional : Nat
  /-- Bytes the optional header claims to have. -/
  optionalSize : Nat
  sectionCount : Nat
  imageBase : UInt64
  entryPoint : Nat
  sectionAlignment : Nat
  fileAlignment : Nat
  imageSize : Nat
  headersSize : Nat
  subsystem : UInt16
  directoryCount : Nat
deriving DecidableEq

namespace Stored

/-- Where the signature stands. -/
def locate (source : ByteArray) : Except HeaderError Nat := do
  if source.size < stubSize then
    throw .noStub
  let magic := Bytes.leNat source 0 2
  if magic ≠ stubMagic then
    throw (.stubMagic magic)
  let offset := Bytes.leNat source signatureField 4
  if source.size < offset + optionalOffset + 2 then
    throw (.signatureOffset offset)
  let found := Bytes.leNat source offset 4
  if found ≠ signature then
    throw (.signature found)
  return offset

/-- The width of the image whose signature stands at `offset`, if it can run
on `platform`. -/
def runnable (source : ByteArray) (offset : Nat) (platform : Platform) :
    Except HeaderError Width := do
  let machine := UInt16.ofNat (Bytes.leNat source (offset + 4) 2)
  let characteristics := UInt16.ofNat (Bytes.leNat source (offset + 22) 2)
  if machine ≠ platform.machine then
    throw (.machine machine platform.machine)
  if characteristics &&& loadableBits = 0 then
    throw (.notLoadable characteristics)
  if characteristics &&& strippedBit ≠ 0 then
    throw .stripped
  if characteristics &&& reversedBits ≠ 0 then
    throw .reversed
  let magic := Bytes.leNat source (offset + optionalOffset) 2
  match Width.ofMagic? magic with
  | none => throw (.optionalMagic magic)
  | some width =>
    if width ≠ platform.width then
      throw (.width width)
    return width

/-- The fields of the headers whose signature stands at `offset`. -/
def read (source : ByteArray) (offset : Nat) (width : Width) : Stored :=
  let optional := offset + optionalOffset
  { machine := UInt16.ofNat (Bytes.leNat source (offset + 4) 2)
    width
    optional
    optionalSize := Bytes.leNat source (offset + 20) 2
    sectionCount := Bytes.leNat source (offset + 6) 2
    imageBase := UInt64.ofNat
      (Bytes.leNat source (optional + width.imageBaseOffset) width.addressSize)
    entryPoint := Bytes.leNat source (optional + entryPointOffset) 4
    sectionAlignment := Bytes.leNat source (optional + sectionAlignmentOffset) 4
    fileAlignment := Bytes.leNat source (optional + fileAlignmentOffset) 4
    imageSize := Bytes.leNat source (optional + imageSizeOffset) 4
    headersSize := Bytes.leNat source (optional + headersSizeOffset) 4
    subsystem := UInt16.ofNat (Bytes.leNat source (optional + subsystemOffset) 2)
    directoryCount := Bytes.leNat source (optional + width.directoryCountOffset) 4 }

/-- The stored fields of an image that can run on `platform`. -/
def find (source : ByteArray) (platform : Platform) : Except HeaderError Stored := do
  let offset ← locate source
  let width ← runnable source offset platform
  let stored := read source offset width
  if source.size < stored.optional + width.fixedSize then
    throw .optionalTruncated
  if stored.fileAlignment % 2 ≠ 0 then
    throw (.oddAlignment stored.fileAlignment)
  return stored

/-! ## Defaults -/

/-- The file alignment that a stored 0 stands for. -/
def usualFileAlignment : Nat := 0x200

/-- The file alignment in force. -/
def contentAlignment (s : Stored) : Nat :=
  if s.fileAlignment = 0 then usualFileAlignment else s.fileAlignment

/-- The section alignment in force: a stored 0 stands for a page, or for the
file alignment if that is more. -/
def effectiveSectionAlignment (s : Stored) : Nat :=
  if s.sectionAlignment = 0 then max s.contentAlignment pageSize else s.sectionAlignment

/-- The lines that report defaults in force. -/
def defaultNotes (s : Stored) : List Entry :=
  (if s.fileAlignment = 0 then
    [Component.headers.debug s!"PE: File alignment is 0, using {hex s.contentAlignment}"]
  else []) ++
  (if s.sectionAlignment = 0 then
    [Component.headers.debug
      s!"PE: Section alignment is 0, using {hex s.effectiveSectionAlignment}"]
  else [])

/-- Where the section table starts. -/
def sectionTable (s : Stored) : Nat := s.optional + s.optionalSize

/-- Where the section table ends. -/
def sectionTableEnd (s : Stored) : Nat := s.sectionTable + s.sectionCount * sectionHeaderSize

end Stored

/-! ## Checked headers -/

/-- A directory entry: a range of the image. -/
structure Directory where
  virtualAddress : Nat
  size : Nat
deriving DecidableEq

/-- The headers of an image that can be loaded. -/
structure Headers where
  machine : UInt16
  width : Width
  /-- The address the image would like to have. -/
  imageBase : UInt64
  entryPoint : Nat
  imageSize : Nat
  headersSize : Nat
  sectionCount : Nat
  sectionAlignment : Nat
  fileAlignment : Nat
  subsystem : UInt16
  directoryCount : Nat
  /-- Where the section table starts. -/
  sectionTable : Nat
  /-- The directory of base relocations, if there is an entry for it. -/
  relocationDirectory : Option Directory
  /-- The directory of resources, if there is an entry for it. -/
  resourceDirectory : Option Directory
deriving DecidableEq

/-- Directory entry `index`, if there are so many. -/
def Stored.directory? (s : Stored) (source : ByteArray) (index : Nat) : Option Directory :=
  if index < s.directoryCount then
    let off := s.optional + s.width.fixedSize + index * directorySize
    some ⟨Bytes.leNat source off 4, Bytes.leNat source (off + 4) 4⟩
  else
    none

/-- The headers with these fields, if the parts of the image fit together. -/
def Stored.check (s : Stored) (source : ByteArray) : Except HeaderError Headers := do
  if maxDirectories < s.directoryCount then
    throw (.directories s.directoryCount)
  if s.optionalSize ≠ s.width.fixedSize + s.directoryCount * directorySize then
    throw (.optionalSize s.optionalSize s.directoryCount)
  if maxSections < s.sectionCount then
    throw (.sections s.sectionCount)
  if s.imageSize < s.sectionTableEnd then
    throw .tableOutsideImage
  if s.headersSize < s.sectionTableEnd then
    throw .tableOutsideHeaders
  if s.imageSize < s.headersSize then
    throw .headersOutsideImage
  if source.size < s.headersSize then
    throw (.headersOutsideFile s.headersSize source.size)
  return {
    machine := s.machine
    width := s.width
    imageBase := s.imageBase
    entryPoint := s.entryPoint
    imageSize := s.imageSize
    headersSize := s.headersSize
    sectionCount := s.sectionCount
    sectionAlignment := s.effectiveSectionAlignment
    fileAlignment := s.contentAlignment
    subsystem := s.subsystem
    directoryCount := s.directoryCount
    sectionTable := s.sectionTable
    relocationDirectory := s.directory? source relocationIndex
    resourceDirectory := s.directory? source resourceIndex }

namespace Headers

/-- The headers of an image that can run on `platform`. -/
def parse (source : ByteArray) (platform : Platform) : Except HeaderError Headers := do
  (← Stored.find source platform).check source

/-- The line that sums up the headers. -/
def summary (h : Headers) : Entry :=
  Component.headers.debug
    (s!"PE: image_base={hex h.imageBase.toNat}, size={hex h.imageSize}, " ++
      s!"entry_rva={hex h.entryPoint}, sections={h.sectionCount}")

/-- `parse`, writing what was found. -/
def parseNoted (source : ByteArray) (platform : Platform) :
    Logged (Except HeaderError Headers) := do
  match Stored.find source platform with
  | .error e => return .error e
  | .ok stored =>
    Logged.write stored.defaultNotes
    match stored.check source with
    | .error e => return .error e
    | .ok h =>
      note h.summary
      return .ok h

theorem value_parseNoted (source : ByteArray) (platform : Platform) :
    (parseNoted source platform).value = parse source platform := by
  unfold parseNoted parse
  cases Stored.find source platform with
  | error e => rfl
  | ok stored =>
    cases h : stored.check source with
    | error e => simp [h, bind, Except.bind]
    | ok h => simp_all [bind, Except.bind]

/-- Section header `index`, if it lies in the file. -/
def sectionAt? (h : Headers) (source : ByteArray) (index : Nat) : Option SectionHeader :=
  let off := h.sectionTable + index * sectionHeaderSize
  if off + sectionHeaderSize ≤ source.size then some (SectionHeader.read source off) else none

/-- The section headers in the order of the table. -/
def sectionHeaders (h : Headers) (source : ByteArray) : List (Option SectionHeader) :=
  (List.range h.sectionCount).map (h.sectionAt? source)

/-- The directory of base relocations, unless it is empty. -/
def relocations? (h : Headers) : Option Directory := h.relocationDirectory.filter (·.size != 0)

end Headers

end EfiLoader.Pe
