import EfiLoader.Firmware.Basic
import EfiLoader.Firmware.HandleDatabase
import EfiLoader.Firmware.PageMap

/-!
# EfiLoader.Bench.Basic

The test bench: a firmware that keeps books.  Pages, handles, exclusive uses
and transfers of control are written down, so that it can be seen what the
loader leaves behind.  What fails is set beforehand and can be set anew
between calls.
-/

namespace EfiLoader

namespace Bench

/-- Where the pages begin. -/
def firstPage : Nat := 0x100000000

/-- Most pages that the bench's own host hands out at once: 64 MiB. -/
def maxPages : Nat := 16384

/-- Most bytes that a host can be asked for. -/
def maxLayout : Nat := 0x7FFFFFFFFFFFF000

/-- What has the memory of the bench: it finds pages besides those in use, or
none. -/
abbrev Host := PageMap → (pages : Nat) → Option Nat

/-- The host that hands out pages upwards. -/
def Host.upward : Host := fun m pages => m.upward? pages maxPages addressLimit

end Bench

/-- What fails on the bench, where its pages come from, and how images end. -/
structure BenchSettings where
  /-- Whether there are no pages. -/
  failAllocations : Bool := false
  /-- Where pages come from. -/
  host : Bench.Host := Bench.Host.upward
  /-- The status of every addition of interfaces, if they fail. -/
  installFailure : Option Status := none
  /-- The status of loading an image; none if that works. -/
  loader : Option Status := some Status.unsupported
  /-- What images return. -/
  exit : Status := Status.success

/-- The state of the bench. -/
structure Bench where
  settings : BenchSettings
  pages : PageMap
  handles : HandleDatabase
  /-- The interfaces in exclusive use. -/
  opened : List (Handle × Protocol) := []
  /-- The images of the firmware's loader. -/
  loaded : List Handle := []
  /-- Where control has gone, and at which entry point, the oldest first. -/
  transfers : List (Handle × Nat) := []
  /-- The load options of the last image that was started. -/
  captured : List UInt16 := []
  /-- Open files by their number. -/
  files : List (Nat × Supply) := []
  nextFile : Nat := 0

namespace Bench

/-- What the loader finds on the bench. -/
structure Equipment where
  files : List (String × ByteArray) := []
  ownImage : ByteArray := ByteArray.empty
  loadOptions : List UInt16 := []

/-- The handle of the loader. -/
def loaderHandle : Handle := ⟨0x1000⟩

/-- The device that the loader came from. -/
def deviceHandle : Handle := ⟨0x1010⟩

/-- The value of the first handle that is made. -/
def firstHandle : Nat := 0x1020

/-- A bench that has not been used. -/
def fresh (settings : BenchSettings) : Bench where
  settings
  pages := ⟨[], firstPage⟩
  handles := ⟨[], firstHandle⟩

/-! ## Pages -/

/-- Pages from the host, whose last byte has to have an address. -/
def allocatePages (pages : Nat) : StateM Bench (Except Status Nat) := do
  let b ← get
  if b.settings.failAllocations ∨ pages = 0 ∨ maxLayout < pages * pageSize then
    return .error Status.outOfResources
  match (b.settings.host b.pages pages).filter (· + pages * pageSize ≤ addressLimit) with
  | none => return .error Status.outOfResources
  | some address =>
    set { b with pages := b.pages.allocateAt address pages }
    return .ok address

def freePages (address pages : Nat) : StateM Bench Status := do
  let b ← get
  match b.pages.free? address pages with
  | none => return Status.notFound
  | some pages =>
    set { b with pages }
    return Status.success

/-! ## Handles -/

/-- A new handle, whatever is set to fail. -/
def addHandle (is : Interfaces) : StateM Bench Handle := fun b =>
  let (h, handles) := b.handles.add is
  (h, { b with handles })

/-- Add all interfaces or none.  A handle that there is not is made. -/
def install (h : Handle) (is : Interfaces) : StateM Bench (Except Status Handle) := do
  let b ← get
  match b.settings.installFailure with
  | some status => return .error status
  | none =>
    if h = Handle.null then
      return .ok (← addHandle is)
    match b.handles.interfaces? h with
    | none =>
      set { b with handles := b.handles.insert h is }
      return .ok h
    | some old =>
      if is.any fun i => old.any fun o => o.1 == i.1 then
        return .error Status.invalidParameter
      set { b with handles := b.handles.replace h (old ++ is) }
      return .ok h

/-- Remove all interfaces or none.  While anything on the handle is in
exclusive use, nothing is removed. -/
def uninstall (h : Handle) (is : Interfaces) : StateM Bench Status := do
  let b ← get
  if b.opened.any fun o => o.1 == h then
    return Status.accessDenied
  match b.handles.interfaces? h with
  | none => return Status.invalidParameter
  | some old =>
    if is.all old.contains then
      set { b with handles := b.handles.leave h (old.filter fun i => !is.contains i) }
      return Status.success
    else
      return Status.notFound

def interface (h : Handle) (p : Protocol) : StateM Bench (Except Status Interface) := do
  match (← get).handles.interface? h p with
  | none => return .error Status.unsupported
  | some i => return .ok i

def openExclusive (h : Handle) (p : Protocol) : StateM Bench (Except Status Interface) := do
  let b ← get
  match b.handles.interface? h p with
  | none => return .error Status.unsupported
  | some i =>
    if b.opened.contains (h, p) then
      return .error Status.accessDenied
    set { b with opened := b.opened ++ [(h, p)] }
    return .ok i

def close (h : Handle) (p : Protocol) : StateM Bench Status := do
  let b ← get
  if b.opened.contains (h, p) then
    set { b with opened := b.opened.filter fun o => o != (h, p) }
    return Status.success
  else
    return Status.notFound

/-- The oldest handle with a protocol and with that very device path. -/
def locate (p : Protocol) (path : Interface) : StateM Bench (Except Status Handle) := do
  match (← get).handles.withPath? p (· == path) with
  | none => return .error Status.notFound
  | some h => return .ok h

/-! ## Images -/

/-- The load options that an image has; none if it has no record. -/
def optionsOf (b : Bench) (shared : Shared) (h : Handle) : Option (List UInt16) :=
  ((b.handles.interface? h .loadedImage).bind shared.objects.image?).map (·.loadOptions)

/-- Write down that control goes to an image. -/
def transfer (h : Handle) (entryPoint : Nat) (shared : Shared) : StateT Bench Logged Status := do
  modify fun b => { b with
    captured := (b.optionsOf shared h).getD b.captured
    transfers := b.transfers ++ [(h, entryPoint)] }
  return (← get).settings.exit

def loadImage (id : Nat) : StateM Bench (Except Status Handle × Option ImageRecord) := do
  match (← get).settings.loader with
  | some status => return (.error status, none)
  | none =>
    let h ← addHandle [(.loadedImage, .image id)]
    modify fun b => { b with loaded := b.loaded ++ [h] }
    return (.ok h, some { parent := loaderHandle, device := deviceHandle })

def unloadImage (h : Handle) : StateM Bench Status := do
  let b ← get
  if b.loaded.contains h then
    set { b with loaded := b.loaded.erase h, handles := b.handles.remove h }
    return Status.success
  else
    return Status.invalidParameter

/-! ## Files -/

/-- Read an open file. -/
def readFile (id n : Nat) (b : Bench) : Except SourceError ReadResult × Bench :=
  match b.files.lookup id with
  | none => (.error { status := Status.notFound }, b)
  | some s =>
    let (r, s) := s.read n
    (.ok r, { b with files := b.files.map fun f => if f.1 = id then (id, s) else f })

def closeFile (id : Nat) : StateM Bench Unit :=
  modify fun b => { b with files := b.files.filter fun f => f.1 != id }

def openFile (files : List (String × ByteArray)) (path : String) :
    StateT Bench Logged (Except Status (OpenFile Bench)) := do
  match files.lookup path with
  | none => return .error Status.notFound
  | some data =>
    let id := (← get).nextFile
    modify fun b => { b with files := b.files ++ [(id, { bytes := data })], nextFile := id + 1 }
    return .ok ⟨⟨data.size, readFile id⟩, closeFile id⟩

/-! ## The firmware -/

/-- The bench as a firmware. -/
def firmware (e : Equipment) : Firmware Bench where
  allocatePages _ := allocatePages
  freePages := freePages
  install := install
  uninstall := uninstall
  openExclusive := openExclusive
  close := close
  interface := interface
  locate p path _ := locate p path
  transfer := transfer
  loadImage _ := loadImage
  startImage h := transfer h 0
  unloadImage := unloadImage
  openFile := openFile e.files
  imageHandle := loaderHandle
  systemTable := false
  deviceHandle := deviceHandle
  ownImage := e.ownImage
  loadOptions := e.loadOptions

end Bench

end EfiLoader
