import EfiLoader.Pe.Placement

/-!
# EfiLoader.Pe.Fixup

Base relocations.  The table is a run of blocks, each with the address of a
page, its own size and entries that name a field of the page.  A field is
moved by the distance between the wanted and the actual base of the image.
-/

namespace EfiLoader.Pe

open Log Text

namespace Fixup

/-! ## Kinds of fields -/

/-- How a field depends on the base of the image. -/
inductive Kind where
  /-- No field; fills a block up. -/
  | absolute
  /-- A 16-bit field with the upper half of a 32-bit address. -/
  | high
  /-- A 16-bit field with the lower half of an address. -/
  | low
  /-- A 32-bit field. -/
  | highLow
  /-- A 64-bit field. -/
  | dir64
deriving DecidableEq

namespace Kind

/-- The number of a kind. -/
def number : Kind → Nat
  | absolute => 0
  | high => 1
  | low => 2
  | highLow => 3
  | dir64 => 10

/-- All kinds. -/
def all : List Kind := [absolute, high, low, highLow, dir64]

/-- The kind with a number. -/
def ofNumber? (n : Nat) : Option Kind := all.find? fun k => k.number == n

/-- Bytes of a field. -/
def width : Kind → Nat
  | absolute => 0
  | high | low => 2
  | highLow => 4
  | dir64 => 8

/-- What is added to a field when the base moves by `adjust`. -/
def addend (adjust : UInt64) : Kind → Nat
  | high => adjust.toNat / 0x10000
  | _ => adjust.toNat

/-- Move the field at offset `off`; sums wrap at the width of the field. -/
def patch (k : Kind) (adjust : UInt64) (bytes : ByteArray) (off : Nat) : ByteArray :=
  Bytes.overwrite bytes off (Bytes.le k.width (Bytes.leNat bytes off k.width + k.addend adjust))

@[simp] theorem ofNumber?_number (k : Kind) : ofNumber? k.number = some k := by cases k <;> rfl

end Kind

/-! ## Errors -/

/-- Why relocations cannot be applied; blocks are counted from 0. -/
inductive Error where
  /-- The table is not in the file. -/
  | tableOutside
  /-- The table ends inside the header of a block. -/
  | truncatedHeader (block : Nat)
  /-- A block has the size 0. -/
  | zeroSize (block : Nat)
  /-- A block is smaller than its header. -/
  | shortBlock (block size : Nat)
  /-- A block is longer than the whole table. -/
  | longBlock (block size table : Nat)
  /-- A block is longer than the rest of the table. -/
  | pastTable (block : Nat)
  /-- An entry has an unknown kind. -/
  | unknownKind (block kind : Nat)
  /-- The address of a field does not fit 32 bits. -/
  | addressOverflow
  /-- A field lies outside the image. -/
  | outside (block address : Nat)
deriving DecidableEq

instance : Fault Error where
  status
    | .unknownKind _ _ => Status.unsupported
    | _ => Status.loadError
  report
    | .tableOutside => [Component.fixup.error "PE: Relocation table outside the image file"]
    | .truncatedHeader block =>
      [Component.fixup.error s!"PE: Reloc {block} truncated block header"]
    | .zeroSize block => [Component.fixup.error s!"PE: Reloc {block} block size 0 is invalid"]
    | .shortBlock block size =>
      [Component.fixup.error s!"PE: Reloc {block} block size {size} is too small"]
    | .longBlock block size table =>
      [Component.fixup.error
        s!"PE: Reloc {block} block size {size} greater than reloc dir size {table}"]
    | .pastTable block => [Component.fixup.error s!"PE: Reloc {block} block runs past the table"]
    | .unknownKind block kind =>
      [Component.fixup.error s!"PE: Reloc {block} unknown relocation type {kind}"]
    | .addressOverflow => []
    | .outside block address =>
      [Component.fixup.error s!"PE: Reloc {block} invalid target address {hex address}"]

/-! ## The table -/

/-- An entry of a block. -/
structure Record where
  /-- The number of a kind. -/
  kind : Nat
  /-- The place of the field in the page. -/
  offset : Nat
deriving DecidableEq

/-- The entry that is stored as a 16-bit word. -/
def Record.ofWord (word : Nat) : Record := ⟨word / 4096, word % 4096⟩

/-- The `count` entries from offset `off` on. -/
def records (table : ByteArray) (off : Nat) : Nat → List Record
  | 0 => []
  | count + 1 =>
    Record.ofWord (Bytes.leNat table off 2) :: records table (off + 2) count

/-- Bytes of the header of a block. -/
def blockHeaderSize : Nat := 8

/-- A block of the table. -/
structure Block where
  /-- The address of the page. -/
  page : Nat
  /-- Bytes of the block. -/
  size : Nat
  records : List Record
deriving DecidableEq

/-- Block number `index`, which starts at offset `off`. -/
def Block.read (table : ByteArray) (index off : Nat) : Except Error Block :=
  if table.size < off + blockHeaderSize then
    .error (.truncatedHeader index)
  else
    let size := Bytes.leNat table (off + 4) 4
    if size = 0 then
      .error (.zeroSize index)
    else if size < blockHeaderSize then
      .error (.shortBlock index size)
    else if table.size < size then
      .error (.longBlock index size table.size)
    else if table.size < off + size then
      .error (.pastTable index)
    else
      .ok
        { page := Bytes.leNat table off 4
          size
          records := Fixup.records table (off + blockHeaderSize) ((size - blockHeaderSize) / 2) }

theorem Block.blockHeaderSize_le {table : ByteArray} {index off : Nat} {b : Block}
    (h : Block.read table index off = .ok b) : blockHeaderSize ≤ b.size := by
  unfold Block.read at h
  split at h
  · cases h
  · dsimp only at h
    split at h
    · cases h
    · split at h
      · cases h
      · next hsize =>
        split at h
        · cases h
        · split at h
          · cases h
          · cases h
            exact Nat.le_of_not_lt hsize

/-! ## Applying the table -/

/-- A computation that patches an image; what has been patched stays so when
it fails. -/
abbrev Patching (α : Type) := ExceptT Error (StateM ByteArray) α

/-- Apply one entry of block number `index`. -/
def applyRecord (adjust : UInt64) (index page : Nat) (r : Record) : Patching Unit := do
  match Kind.ofNumber? r.kind with
  | none => throw (.unknownKind index r.kind)
  | some .absolute => return
  | some kind =>
    let target := page + r.offset
    if 0x100000000 ≤ target then
      throw .addressOverflow
    if (← get).size < target + kind.width then
      throw (.outside index target)
    modify fun region => kind.patch adjust region target

/-- Apply entries of block number `index` one after the other. -/
def applyRecords (adjust : UInt64) (index page : Nat) : List Record → Patching Unit
  | [] => return
  | r :: rest => do
    applyRecord adjust index page r
    applyRecords adjust index page rest

/-- Apply the blocks from offset `off` on, the first of which has the number
`index`.  The answer is the number of blocks of the table. -/
def applyBlocks (adjust : UInt64) (table : ByteArray) (index off : Nat) : Patching Nat :=
  if off < table.size then
    match h : Block.read table index off with
    | .error e => throw e
    | .ok b => do
      applyRecords adjust index b.page b.records
      have : blockHeaderSize ≤ b.size := Block.blockHeaderSize_le h
      applyBlocks adjust table (index + 1) (off + b.size)
  else
    return index
termination_by table.size - off
decreasing_by
  simp only [blockHeaderSize] at this
  omega

/-- The table of an image: as many bytes as the directory has, from where the
content of the relocation section starts. -/
def table? (source : ByteArray) (dir : Directory) (s : RelocationSection) : Option ByteArray :=
  Bytes.slice? source s.rawPointer dir.size

/-- The distance from the wanted to the actual base. -/
def distance (h : Headers) (base : UInt64) : UInt64 := base - h.imageBase

/-- Apply the relocations of an image that is loaded at `base` into `region`.
The region is in the answer also if an entry cannot be applied; those before
it have been. -/
def applyAll (h : Headers) (source : ByteArray) (s : RelocationSection) (base : UInt64)
    (region : ByteArray) : Logged (Except Error Unit × ByteArray) := do
  match h.relocations? with
  | none =>
    note (Component.fixup.debug "PE: Empty relocation directory")
    return (.ok (), region)
  | some dir =>
    let adjust := distance h base
    if adjust = 0 then
      note (Component.fixup.debug
        "PE: Loaded at preferred base, no relocation fixup necessary")
      return (.ok (), region)
    else
      match table? source dir s with
      | none => return (.error .tableOutside, region)
      | some table =>
        note (Component.fixup.debug
          (s!"PE: Applying relocations, adjust={hex adjust.toNat}, " ++
            s!"table={hex table.size} bytes"))
        match (applyBlocks adjust table 0 0).run.run region with
        | (.error e, region) => return (.error e, region)
        | (.ok count, region) =>
          note (Component.fixup.debug s!"PE: Applied {count} relocation blocks")
          return (.ok (), region)

end Fixup

end EfiLoader.Pe
