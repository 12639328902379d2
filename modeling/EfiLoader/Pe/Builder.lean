import EfiLoader.Pe.Layout
import EfiLoader.Bytes

/-!
# EfiLoader.Pe.Builder

Making images.  A `Builder` describes a small image; `file` writes its file
and `mapped` the memory it is to have.  Headers and content are pieces
that are written one after the other into zeroed space, so a field that is
set to something odd is written just as it is.
-/

namespace EfiLoader.Pe

/-! ## Relocation tables -/

/-- The 16-bit word of a relocation entry. -/
def relocationWord (kind offset : UInt16) : UInt16 := (kind <<< 12) ||| (offset &&& 0x0FFF)

/-- A block of a relocation table. -/
def relocationBlock (page : UInt32) (words : List UInt16) : ByteArray :=
  Bytes.concat ([Bytes.ofU32 page, Bytes.le 4 (8 + 2 * words.length)] ++ words.map Bytes.ofU16)

/-! ## Sections -/

/-- A section of an image to be made. -/
structure NewSection where
  name : String
  virtualAddress : UInt32
  virtualSize : UInt32
  data : ByteArray
  /-- Bytes of the content; those of the data, filled up to the file alignment,
  if not given. -/
  rawSize : Option UInt32 := none
  /-- Where the content starts; after the section before it if not given. -/
  rawPointer : Option UInt32 := none
  flags : UInt32 := 0xC0000040

namespace NewSection

/-- A section with code. -/
def text (virtualAddress virtualSize : UInt32) (data : ByteArray) : NewSection :=
  { name := ".text", virtualAddress, virtualSize, data, flags := 0x60000020 }

/-- A section with data. -/
def ofData (virtualAddress virtualSize : UInt32) (data : ByteArray) : NewSection :=
  { name := ".data", virtualAddress, virtualSize, data }

/-- A section without content. -/
def bss (virtualAddress virtualSize : UInt32) : NewSection :=
  { name := ".bss", virtualAddress, virtualSize, data := ByteArray.empty, rawSize := some 0
    flags := 0xC0000080 }

/-- A section with a relocation table. -/
def relocations (virtualAddress : UInt32) (table : ByteArray) : NewSection :=
  { name := ".reloc", virtualAddress, virtualSize := UInt32.ofNat table.size, data := table
    flags := 0x42000040 }

/-- The name field of the section header. -/
def nameField (s : NewSection) : ByteArray :=
  let name := s.name.toUTF8.extract 0 sectionNameSize
  name ++ Bytes.zeros (sectionNameSize - name.size)

end NewSection

/-! ## Images -/

/-- An image to be made. -/
structure Builder where
  machine : UInt16 := machineX64
  width : Width := .bits64
  characteristics : UInt16 := 0x0002
  imageBase : UInt64 := 0x140000000
  entryPoint : UInt32 := 0x1000
  sectionAlignment : UInt32 := 0x1000
  fileAlignment : UInt32 := 0x200
  imageSize : UInt32 := 0x3000
  headersSize : UInt32 := 0x400
  subsystem : UInt16 := efiApplication
  /-- The number of directories that is declared, if not all of them. -/
  directoryCount : Option UInt32 := none
  /-- The size of the optional header that is declared, if not its own. -/
  optionalSize : Option UInt16 := none
  directories : List (UInt32 × UInt32) := List.replicate maxDirectories (0, 0)
  sections : List NewSection := []

namespace Builder

/-- The image with one more section. -/
def withSection (b : Builder) (s : NewSection) : Builder :=
  { b with sections := b.sections ++ [s] }

/-- The image with directory entry `index` set. -/
def withDirectory (b : Builder) (index : Nat) (virtualAddress size : UInt32) : Builder :=
  { b with directories := b.directories.set index (virtualAddress, size) }

/-- The image with a relocation section and the directory that points at it. -/
def withRelocations (b : Builder) (virtualAddress : UInt32) (table : ByteArray) : Builder :=
  (b.withSection (.relocations virtualAddress table)).withDirectory relocationIndex virtualAddress
    (UInt32.ofNat table.size)

/-! ### Layout of the file -/

/-- The least multiple of `alignment` that is not below `n`. -/
def roundUp (n alignment : Nat) : Nat := (n + (alignment - 1)) / alignment * alignment

/-- Where the signature stands. -/
def signatureOffset : Nat := 0x40

/-- Where the optional header starts. -/
def optionalStart : Nat := signatureOffset + optionalOffset

/-- The file alignment in force. -/
def effectiveAlignment (b : Builder) : Nat :=
  if b.fileAlignment = 0 then 0x200 else b.fileAlignment.toNat

/-- Bytes of the optional header with all its directories. -/
def fullOptionalSize (b : Builder) : Nat := b.width.fixedSize + maxDirectories * directorySize

/-- Bytes of the optional header as declared. -/
def declaredOptionalSize (b : Builder) : Nat :=
  match b.optionalSize with
  | some n => n.toNat
  | none => b.fullOptionalSize

/-- Where the section table starts. -/
def tableStart (b : Builder) : Nat := optionalStart + b.declaredOptionalSize

/-- Where the headers end: after the section table, the directories and the
declared size. -/
def headersEnd (b : Builder) : Nat :=
  max (max (b.tableStart + b.sections.length * sectionHeaderSize)
    (optionalStart + b.fullOptionalSize)) b.headersSize.toNat

/-- Where the content of a section stands in the file. -/
structure Extent where
  pointer : UInt32
  size : UInt32
deriving DecidableEq

/-- The extents of sections, of which the first gets the offset `next` unless
it says otherwise. -/
def layoutFrom (alignment : Nat) (next : Nat) : List NewSection → List Extent
  | [] => []
  | s :: rest =>
    let size := s.rawSize.getD (UInt32.ofNat (roundUp s.data.size alignment))
    match s.rawPointer with
    | some pointer => ⟨pointer, size⟩ :: layoutFrom alignment next rest
    | none =>
      if size = 0 then
        ⟨0, size⟩ :: layoutFrom alignment next rest
      else
        ⟨UInt32.ofNat next, size⟩ :: layoutFrom alignment (next + size.toNat) rest

/-- The extents of all sections. -/
def layout (b : Builder) : List Extent :=
  layoutFrom b.effectiveAlignment (roundUp b.headersEnd b.effectiveAlignment) b.sections

/-! ### Headers -/

/-- The file header and the optional header, from the signature on. -/
def headerBytes (b : Builder) : ByteArray :=
  let address := Bytes.le b.width.addressSize
  Bytes.concat (
    [Bytes.le 4 signature, Bytes.ofU16 b.machine, Bytes.le 2 b.sections.length, Bytes.zeros 12,
     Bytes.le 2 b.declaredOptionalSize, Bytes.ofU16 b.characteristics,
     Bytes.le 2 b.width.magic, Bytes.le 2 14, Bytes.zeros 12, Bytes.ofU32 b.entryPoint,
     Bytes.zeros (b.width.imageBaseOffset - 20), address b.imageBase.toNat,
     Bytes.ofU32 b.sectionAlignment, Bytes.ofU32 b.fileAlignment, Bytes.zeros 16,
     Bytes.ofU32 b.imageSize, Bytes.ofU32 b.headersSize, Bytes.zeros 4,
     Bytes.ofU16 b.subsystem, Bytes.zeros 2, Bytes.zeros (4 * b.width.addressSize + 4),
     Bytes.ofU32 (b.directoryCount.getD (UInt32.ofNat maxDirectories))] ++
    b.directories.map fun d => Bytes.ofU32 d.1 ++ Bytes.ofU32 d.2)

/-- The header of a section. -/
def sectionBytes (s : NewSection) (e : Extent) : ByteArray :=
  Bytes.concat
    [s.nameField, Bytes.ofU32 s.virtualSize, Bytes.ofU32 s.virtualAddress, Bytes.ofU32 e.size,
     Bytes.ofU32 e.pointer, Bytes.zeros 12, Bytes.ofU32 s.flags]

/-- The section table. -/
def tableBytes (b : Builder) : ByteArray :=
  Bytes.concat (List.zipWith sectionBytes b.sections b.layout)

/-! ### Files and memory -/

/-- Where the file ends. -/
def fileSize (b : Builder) : Nat :=
  (b.sections.zip b.layout).foldl (fun n (s, e) =>
    if e.size = 0 ∨ s.data.isEmpty then n else max n (e.pointer.toNat + e.size.toNat))
    b.headersEnd

/-- The file with the content of a section, which has to fit in whole. -/
def writeContent (file : ByteArray) (s : NewSection) (e : Extent) : ByteArray :=
  let content := s.data.extract 0 e.size.toNat
  if e.pointer.toNat + content.size ≤ file.size then
    Bytes.overwrite file e.pointer.toNat content
  else
    file

/-- The file of the image. -/
def file (b : Builder) : ByteArray :=
  let file := Bytes.zeros b.fileSize
  let file := Bytes.overwrite file 0 (Bytes.le 2 stubMagic)
  let file := Bytes.overwrite file signatureField (Bytes.le 4 signatureOffset)
  let file := Bytes.overwrite file signatureOffset b.headerBytes
  let file := Bytes.overwrite file b.tableStart b.tableBytes
  (b.sections.zip b.layout).foldl (fun file (s, e) => writeContent file s e) file

/-- The memory of the image: headers and sections at their addresses. -/
def mapped (b : Builder) : ByteArray :=
  let file := b.file
  let memory := Bytes.overwrite (Bytes.zeros b.imageSize.toNat) 0
    (file.extract 0 b.headersSize.toNat)
  (b.sections.zip b.layout).foldl (fun memory (s, e) =>
    Bytes.overwrite memory s.virtualAddress.toNat
      (file.extract e.pointer.toNat (e.pointer.toNat + s.data.size))) memory

end Builder

end EfiLoader.Pe
