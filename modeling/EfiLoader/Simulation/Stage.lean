import EfiLoader.Firmware.HandleDatabase
import EfiLoader.Firmware.PageMap
import EfiLoader.Firmware.Shared
import EfiLoader.Hash.Fnv
import EfiLoader.Simulation.Script
import EfiLoader.Uefi.Services

/-!
# EfiLoader.Simulation.Stage

Simulated boot services.  The stage keeps the pages, the handles and the open
files, and a line for every call.
-/

namespace EfiLoader.Simulation

open Text

/-! ## The stage -/

/-- A volume or a file that is open; a file has a position. -/
inductive OpenEntry where
  | volume
  | file (f : ScriptedFile) (pos : Nat)

/-- The state of simulated boot services. -/
structure Stage where
  script : Script
  /-- How often each service has been called. -/
  counts : Service → Nat := fun _ => 0
  /-- A line for every call. -/
  calls : Array String := #[]
  pages : PageMap
  handles : HandleDatabase
  /-- The interfaces in exclusive use. -/
  opened : List (Handle × Protocol) := []
  /-- The images of the firmware's loader. -/
  loaded : List Handle := []
  /-- Open volumes and files by their number. -/
  files : List (Nat × OpenEntry) := []
  nextFile : Nat := 0
  /-- What started images saw and did, the oldest first. -/
  guests : Array GuestRun := #[]
  /-- Whether a request has ever found a file service. -/
  sawService : Bool := false
  /-- Whether the loader has stopped for want of memory. -/
  stopped : Bool := false

namespace Stage

/-- The loader's own handle. -/
def loaderHandle : Handle := ⟨0x1000⟩

/-- The handle of the boot device. -/
def deviceHandle : Handle := ⟨0x1010⟩

/-- The value of the first handle that is made. -/
def firstHandle : Nat := 0x1020

/-- Where the pages begin. -/
def firstPage : Nat := 0x100000000

/-- Where the pages end. -/
def pageLimit : Nat := 0x180000000

/-- Most pages of an allocation. -/
def maxPages : Nat := 1024

/-! ## Looking -/

/-- The handles other than the two that were there at the start. -/
def handleCount (s : Stage) : Nat :=
  (s.handles.entries.filter fun e => e.1 != loaderHandle && e.1 != deviceHandle).length

/-- The newest file service. -/
def newestService? (s : Stage) : Option Interface :=
  s.handles.entries.reverse.findSome? fun e => (e.2.find? fun i => i.1 == .loadFile2).map (·.2)

/-! ## Changing -/

/-- Write a line for a call. -/
def line (text : String) : StateM Stage Unit :=
  modify fun s => { s with calls := s.calls.push text }

/-- Count a call; the answer tells how it is interrupted. -/
def count (service : Service) : StateM Stage (Option Interruption) := fun s =>
  let n := s.counts service + 1
  (interruption? s.script.rules service n,
    { s with counts := fun t => if t = service then n else s.counts t })

/-- Change the handles, with an answer. -/
def onHandles (f : HandleDatabase → α × HandleDatabase) : StateM Stage α := fun s =>
  let (a, handles) := f s.handles
  (a, { s with handles })

/-- A call whose answer is a status: its line is `text` and the status. -/
def statusCall (service : Service) (text : String) (run : StateM Stage Status) :
    StateM Stage Status := do
  let status ← match ← count service with
    | some (.status status) => pure status
    | some .empty => pure Status.success
    | none => run
  line s!"{service.name}({text}) = {label status}"
  return status

/-- A call whose answer is a value: its line is `text` and the value, or the
status if there is none.  An interrupted call answers `blank`. -/
def valueCall (service : Service) (text : String) (render : α → String) (blank : α)
    (run : StateM Stage (Except Status α)) : StateM Stage (Status × α) := do
  let r ← match ← count service with
    | some (.status status) => pure (.error status)
    | some .empty => pure (.error Status.success)
    | none => run
  match r with
  | .ok value =>
    line s!"{service.name}({text}) = {render value}"
    return (Status.success, value)
  | .error status =>
    line s!"{service.name}({text}) = {label status}"
    return (status, blank)

/-- A call whose answer is a result that can be missing: its line is `text`
and the status, or that the result is missing. -/
def resultCall (service : Service) (text : String) (blank : α)
    (run : StateM Stage (Except Status α)) : StateM Stage (Status × α) := do
  match ← count service with
  | some .empty =>
    line s!"{service.name}({text}) = NULL"
    return (Status.success, blank)
  | some (.status status) =>
    line s!"{service.name}({text}) = {label status}"
    return (status, blank)
  | none =>
    match ← run with
    | .ok value =>
      line s!"{service.name}({text}) = {label Status.success}"
      return (Status.success, value)
    | .error status =>
      line s!"{service.name}({text}) = {label status}"
      return (status, blank)

/-! ## Pages -/

def allocatePages (memoryType : UInt32) (pages : Nat) : StateM Stage (Status × Nat) :=
  valueCall .allocatePages s!"0,{memoryType.toNat},{pages}" hex 0 do
    match (← get).pages.allocate? pages maxPages pageLimit with
    | none => return .error Status.outOfResources
    | some (address, pages) =>
      modify fun s => { s with pages }
      return .ok address

def freePages (address pages : Nat) : StateM Stage Status :=
  statusCall .freePages s!"{hex address},{pages}" do
    match (← get).pages.free? address pages with
    | none => return Status.notFound
    | some pages =>
      modify fun s => { s with pages }
      return Status.success

/-! ## Handles -/

/-- Add an interface to a handle, or to a new one. -/
def addInterface (h : Handle) (p : Protocol) (i : Interface) :
    StateM Stage (Except Status Handle) := do
  if h = Handle.null then
    return .ok (← onHandles fun d => d.add [(p, i)])
  match (← get).handles.interfaces? h with
  | none => return .error Status.invalidParameter
  | some is =>
    if is.any fun e => e.1 == p then
      return .error Status.invalidParameter
    onHandles fun d => ((), d.replace h (is ++ [(p, i)]))
    return .ok h

def installProtocol (h : Handle) (p : Protocol) (i : Interface) : StateM Stage (Status × Handle) :=
  valueCall .installProtocol s!"{h.text},{p.name}" Handle.text h (addInterface h p i)

def uninstallProtocol (h : Handle) (p : Protocol) (i : Interface) : StateM Stage Status :=
  statusCall .uninstallProtocol s!"{h.text},{p.name}" do
    let s ← get
    match s.handles.interfaces? h with
    | none => return Status.invalidParameter
    | some is =>
      if s.opened.contains (h, p) then
        return Status.accessDenied
      if !is.contains (p, i) then
        return Status.notFound
      onHandles fun d => ((), d.leave h (is.erase (p, i)))
      return Status.success

def openProtocol (h : Handle) (p : Protocol) (agent : Handle) (attributes : UInt32) :
    StateM Stage (Status × Interface) :=
  resultCall .openProtocol
      s!"{h.text},{p.name},agent={agent.text},{hex attributes.toNat}" Interface.null do
    let s ← get
    match s.handles.interfaces? h, s.handles.interface? h p with
    | none, _ => return .error Status.invalidParameter
    | some _, none => return .error Status.unsupported
    | some _, some i =>
      if s.opened.contains (h, p) then
        return .error Status.accessDenied
      set { s with opened := s.opened ++ [(h, p)] }
      return .ok i

def closeProtocol (h : Handle) (p : Protocol) (_agent : Handle) : StateM Stage Status :=
  statusCall .closeProtocol s!"{h.text},{p.name}" do
    let s ← get
    if s.opened.contains (h, p) then
      set { s with opened := s.opened.erase (h, p) }
      return Status.success
    else
      return Status.notFound

def handleProtocol (h : Handle) (p : Protocol) : StateM Stage (Status × Interface) :=
  resultCall .handleProtocol s!"{h.text},{p.name}" Interface.null do
    let s ← get
    match s.handles.interfaces? h, s.handles.interface? h p with
    | none, _ => return .error Status.invalidParameter
    | some _, none => return .error Status.unsupported
    | some _, some i => return .ok i

/-- The hexadecimal digits of bytes. -/
def hexBytes (bytes : ByteArray) : String :=
  String.join (bytes.data.toList.map fun b => hexDigitsPadded 2 b.toNat)

/-- Whether an interface is a device path that begins with `path`. -/
def isPath (o : Objects) (path : ByteArray) (i : Interface) : Bool :=
  (o.path? i).any fun p => p.extract 0 path.size == path

def locateDevicePath (p : Protocol) (path : Interface) (shared : Shared) :
    StateM Stage (Status × Handle) :=
  let bytes := (shared.objects.path? path).getD ByteArray.empty
  valueCall .locateDevicePath s!"{p.name},{hexBytes bytes}" Handle.text Handle.null do
    match (← get).handles.withPath? p (isPath shared.objects bytes) with
    | some h => return .ok h
    | none => return .error Status.notFound

/-! ## Images -/

/-- Request a file; without a file service there is no reply. -/
def fetch (shared : Shared) (f : Fetch) : StateT Stage Logged (Option LoadFile.Reply) := do
  let newest? := (← get).newestService?
  if newest?.isSome then
    modify fun s => { s with sawService := true }
  if !(← get).sawService then
    return none
  match f.choice, newest? with
  | .newest, none => return none
  | .newest, some service => return some (← shared.loadFile service f.request)
  | .foreign, _ => return some (← shared.loadFile (.raw 1) f.request)
  | .null, _ => return some (← shared.loadFile Interface.null f.request)

/-- Make requests one after the other. -/
def fetchAll (shared : Shared) : List Fetch → StateT Stage Logged (List (Option LoadFile.Reply))
  | [] => return []
  | f :: rest => do
    let reply ← fetch shared f
    return reply :: (← fetchAll shared rest)

/-- What an image can see of its record. -/
def seen (shared : Shared) (r : ImageRecord) : List UInt16 × Nat × Option ByteArray :=
  (r.loadOptions, r.optionsSize.toNat,
    if r.imageBase = 0 then none
    else some (shared.memory.read r.imageBase.toNat r.imageSize.toNat))

/-- Run an image. -/
def runGuest (h : Handle) (shared : Shared) : StateT Stage Logged Status := do
  let s ← get
  let record := (s.handles.interface? h .loadedImage).bind shared.objects.image?
  let replies ← fetchAll shared s.script.guest
  modify fun s => { s with guests := s.guests.push ⟨h, record.map (seen shared), replies⟩ }
  return s.script.exit

def enter (h : Handle) (entryPoint : Nat) (shared : Shared) : StateT Stage Logged Status := do
  modify fun s => { s with calls := s.calls.push s!"Transfer({h.text},{hex entryPoint})" }
  runGuest h shared

def loadImage (parent : Handle) (data : ByteArray) (id : Nat) :
    StateM Stage (Status × Handle × Option ImageRecord) := do
  let hash := hexDigitsPadded 16 (Hash.Fnv.hash data).toNat
  let script := (← get).script
  let (status, handle) ← valueCall .loadImage
      s!"false,parent={parent.text},{data.size},{hash}" Handle.text Handle.null do
    match script.loader with
    | some status => return .error status
    | none =>
      let h ← onHandles fun d =>
        d.add (if script.loaderRecord then [(.loadedImage, .image id)] else [])
      modify fun s => { s with loaded := h :: s.loaded }
      return .ok h
  let record : ImageRecord :=
    { parent, systemTable := true, device := deviceHandle }
  return (status, handle, if handle = Handle.null then none else some record)

def startImage (h : Handle) (shared : Shared) : StateT Stage Logged Status := do
  modify fun s => { s with calls := s.calls.push s!"StartImage({h.text})" }
  let (interruption, s) := count .startImage (← get)
  set s
  match interruption with
  | some (.status status) => return status
  | _ => runGuest h shared

def unloadImage (h : Handle) : StateM Stage Status :=
  statusCall .unloadImage h.text do
    let s ← get
    if s.loaded.contains h then
      set { s with loaded := s.loaded.erase h }
      onHandles fun d => ((), d.remove h)
      return Status.success
    else
      return Status.invalidParameter

/-! ## Files -/

/-- The text of a path without its NUL. -/
def pathText (units : List UInt16) : String :=
  String.ofList (Utf16.decode (Utf16.untilNul units))

/-- One more open volume or file. -/
def addFile (entry : OpenEntry) : StateM Stage (Option Uefi.FileId) := fun s =>
  (some ⟨s.nextFile⟩, { s with
    files := s.files ++ [(s.nextFile, entry)]
    nextFile := s.nextFile + 1 })

/-- An open volume or file. -/
def openEntry (s : Stage) (f : Uefi.FileId) : Option OpenEntry :=
  (s.files.find? fun e => e.1 == f.number).map (·.2)

def openVolume (_fileSystem : Interface) : StateM Stage (Status × Option Uefi.FileId) :=
  resultCall .openVolume "" none (.ok <$> addFile .volume)

def openFile (_volume : Uefi.FileId) (path : List UInt16) (mode attributes : UInt64) :
    StateM Stage (Status × Option Uefi.FileId) :=
  resultCall .openFile
      s!"{pathText path},{hex mode.toNat},{hex attributes.toNat}" none do
    match (← get).script.files.find? fun f => Utf16.encode f.path ++ [0] == path with
    | none => return .error Status.notFound
    | some f => return .ok (← addFile (.file f 0))

def closeFile (f : Uefi.FileId) : StateM Stage Unit := do
  let text := match (← get).openEntry f with
    | some (.file file _) => file.path
    | _ => "volume"
  line s!"Close({text})"
  modify fun s => { s with files := s.files.filter fun e => e.1 != f.number }

def fileInfo (f : Uefi.FileId) (size : Nat) (buffer : Bool) :
    StateM Stage (Status × Nat × ByteArray) := do
  let entry := (← get).openEntry f
  match ← count .getInfo with
  | some (.status status) =>
    line s!"GetInfo(FILE_INFO,{size}) = {label status}"
    return (status, size, ByteArray.empty)
  | _ =>
    match entry with
    | some (.file file _) =>
      if !buffer || size < file.infoBytes then
        line s!"GetInfo(FILE_INFO,{size}) = {label Status.bufferTooSmall}"
        return (Status.bufferTooSmall, file.infoBytes, ByteArray.empty)
      else
        line s!"GetInfo(FILE_INFO,{size}) = {label Status.success}"
        return (Status.success, file.infoBytes, file.info.extract 0 file.infoBytes)
    | _ => return (Status.invalidParameter, size, ByteArray.empty)

def readFile (f : Uefi.FileId) (size : Nat) : StateM Stage (Status × Nat × ByteArray) := do
  let entry := (← get).openEntry f
  match ← count .read with
  | some (.status status) =>
    line s!"Read({size}) = {label status}"
    return (status, size, ByteArray.empty)
  | _ =>
    match entry with
    | some (.file file pos) =>
      let left := min size (file.data.size - pos)
      let n := match file.maxRead with
        | some most => min left most
        | none => left
      let reported := if n = 0 then 0 else n + file.overReport
      line s!"Read({size}) = {reported}"
      modify fun s => { s with files := s.files.map fun e =>
        if e.1 = f.number then (e.1, .file file (pos + n)) else e }
      return (Status.success, reported, file.data.extract pos (pos + n))
    | _ => return (Status.invalidParameter, size, ByteArray.empty)

/-- The loader has stopped. -/
def stop (_bytes : Nat) : StateM Stage Unit := modify fun s => { s with stopped := true }

/-! ## The services -/

/-- The simulated boot services. -/
def services : Uefi.BootServices Stage where
  allocatePages := allocatePages
  freePages := freePages
  installProtocol := installProtocol
  uninstallProtocol := uninstallProtocol
  openProtocol := openProtocol
  closeProtocol := closeProtocol
  handleProtocol := handleProtocol
  locateDevicePath := locateDevicePath
  loadImage := loadImage
  startImage := startImage
  unloadImage := unloadImage
  enter := enter
  openVolume := openVolume
  openFile := openFile
  closeFile := closeFile
  fileInfo := fileInfo
  readFile := readFile
  stop := stop

end Stage

end EfiLoader.Simulation
