import EfiLoader.Pe.Headers
import EfiLoader.Pe.Range

/-!
# EfiLoader.Pe.Placement

Placing sections.  The sections of an image are written to their addresses in
the order of the table, each over what was there before, so where sections
overlap the last one wins.  The section with the base relocations is found on
the way.
-/

namespace EfiLoader.Pe

open Log Text

/-! ## Errors -/

/-- Why a section cannot be placed. -/
inductive PlacementError where
  /-- The section header is not in the file. -/
  | noHeader
  /-- A second section has the name of the relocation section. -/
  | duplicateRelocations
  /-- The section has no virtual extent and is not discardable. -/
  | emptyExtent (name : String)
  /-- The section lies outside the image. -/
  | outside (name : String) (address size : Nat)
  /-- The content of the section lies in the headers of the file. -/
  | insideHeaders (name : String)
deriving DecidableEq

instance : Fault PlacementError where
  status _ := Status.loadError
  report
    | .noHeader => []
    | .duplicateRelocations =>
      [Component.placement.error "PE: Image has multiple .reloc sections"]
    | .emptyExtent name =>
      [Component.placement.error s!"PE: Section {name} has an empty virtual extent"]
    | .outside name address size =>
      [Component.placement.error
        s!"PE: Section {name} ({hex address}+{hex size}) lies outside the image"]
    | .insideHeaders name =>
      [Component.placement.error s!"PE: Section {name} is inside image headers"]

/-! ## State -/

/-- The section with the base relocations. -/
structure RelocationSection where
  virtualAddress : Nat
  virtualSize : Nat
  rawPointer : Nat
  rawSize : Nat
deriving DecidableEq

/-- An image under construction. -/
structure Placement where
  /-- The memory of the image. -/
  region : ByteArray
  /-- The relocation section, if it has been found. -/
  relocations : Option RelocationSection := none
  /-- Whether a section with its name has been seen. -/
  sawRelocations : Bool := false
  /-- Whether a section with the entry point has been placed. -/
  foundEntry : Bool := false

/-- A computation that places sections. -/
abbrev Placing (α : Type) := ExceptT PlacementError (StateT Placement Logged) α

/-! ## Single sections -/

/-- The name of the section with the base relocations. -/
def relocationName : List UInt8 := sectionName ".reloc"

/-- Whether a section is the one that the relocation directory points into. -/
def SectionHeader.holdsDirectory (s : SectionHeader) (h : Headers) : Bool :=
  match h.relocations? with
  | none => false
  | some dir =>
    dir.virtualAddress == s.virtualAddress &&
      decide (dir.virtualAddress + dir.size ≤ s.virtualAddress + s.virtualSize)

/-- Whether the address of the entry point lies in a section. -/
def SectionHeader.holdsEntry (s : SectionHeader) (h : Headers) : Bool :=
  decide (s.virtualAddress ≤ h.entryPoint) &&
    decide (h.entryPoint < s.virtualAddress + s.virtualSize)

/-- Number of content bytes that a section has in the file. -/
def SectionHeader.present (s : SectionHeader) (source : ByteArray) : Nat :=
  min (min s.rawSize s.virtualSize) (source.size - s.rawPointer)

/-- The memory of a section: its content from the file, and zeros. -/
def SectionHeader.content (s : SectionHeader) (source : ByteArray) : ByteArray :=
  if s.uninitialized then
    Bytes.zeros s.virtualSize
  else
    let count := s.present source
    source.extract s.rawPointer (s.rawPointer + count) ++ Bytes.zeros (s.virtualSize - count)

/-- Whether the content of a section would have to come from the headers. -/
def SectionHeader.overlapsHeaders (s : SectionHeader) (h : Headers) : Bool :=
  !s.uninitialized && s.rawSize != 0 && decide (s.rawPointer < h.headersSize)

/-- Look at the name of a section of an image with `limit` bytes. -/
def noteRelocations (h : Headers) (limit : Nat) (s : SectionHeader) : Placing Unit := do
  if s.name = relocationName then
    if (← get).sawRelocations then
      throw .duplicateRelocations
    modify fun p => { p with sawRelocations := true }
    if s.rawSize ≠ 0 ∧ s.virtualSize ≠ 0 ∧ s.virtualAddress + s.virtualSize ≤ limit ∧
        s.holdsDirectory h then
      modify fun p => { p with
        relocations := some ⟨s.virtualAddress, s.virtualSize, s.rawPointer, s.rawSize⟩ }
    else
      note (Component.placement.warn
        "PE: Ignoring .reloc section that does not match the directory")

/-- Place one section of an image with `limit` bytes. -/
def place (h : Headers) (source : ByteArray) (limit : Nat) (s : SectionHeader) :
    Placing Unit := do
  noteRelocations h limit s
  if s.discardable ∧ s.virtualSize = 0 then
    return
  if s.virtualSize = 0 then
    throw (.emptyExtent s.nameText)
  if limit < s.virtualAddress + s.virtualSize then
    throw (.outside s.nameText s.virtualAddress s.virtualSize)
  if s.overlapsHeaders h then
    throw (.insideHeaders s.nameText)
  modify fun p => { p with
    region := Bytes.overwrite p.region s.virtualAddress (s.content source) }
  if !s.uninitialized && decide (s.present source < min s.rawSize s.virtualSize) then
    note (Component.placement.warn
      (s!"PE: Section {s.nameText} truncated, " ++
        s!"{hex (s.present source)} of {hex s.rawSize} bytes present"))
  if !(← get).foundEntry && s.holdsEntry h then
    modify fun p => { p with foundEntry := true }
    note (Component.placement.debug s!"PE: Found entry point in section {s.nameText}")

/-! ## All sections -/

/-- Place sections one after the other. -/
def placeAll (h : Headers) (source : ByteArray) (limit : Nat) :
    List (Option SectionHeader) → Placing Unit
  | [] => return
  | none :: _ => throw .noHeader
  | some s :: rest => do
    place h source limit s
    placeAll h source limit rest

/-- Place the sections of an image into `region`.  The region is in the answer
also if a section cannot be placed; those before it have been. -/
def placeSections (h : Headers) (source region : ByteArray) :
    Logged (Except PlacementError (Option RelocationSection) × ByteArray) := do
  let limit := min region.size h.imageSize
  match ← (placeAll h source limit (h.sectionHeaders source)).run.run { region } with
  | (.error e, p) => return (.error e, p.region)
  | (.ok (), p) =>
    if !p.foundEntry then
      note (Component.placement.warn s!"PE: No section contains entry point {hex h.entryPoint}")
    return (.ok p.relocations, p.region)

end EfiLoader.Pe
