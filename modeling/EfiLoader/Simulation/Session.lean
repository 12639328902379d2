import EfiLoader.Console
import EfiLoader.Host
import EfiLoader.Loader.Boot
import EfiLoader.Simulation.Stage
import EfiLoader.Uefi.Firmware

/-!
# EfiLoader.Simulation.Session

The loader on simulated boot services, one step after the other.  What a
session has loaded, allocated and opened stays for the steps that follow, and
every step tells which calls it made and what it logged.
-/

namespace EfiLoader.Simulation

open Log Pe

/-! ## Steps -/

/-- Which handle a step is about. -/
inductive Target where
  | handle (h : Handle)
  /-- The handle of an image that the session has loaded, by its index. -/
  | image (index : Nat)

/-- A change to what is known of a loaded image. -/
inductive Patch where
  | unload (u : Unloader)
  /-- The device path in the record: that of the handle, or none. -/
  | filePath (own : Bool)
  /-- Bytes in the device path. -/
  | path (off : Nat) (bytes : ByteArray)

/-- A step of a session. -/
inductive Step where
  | view
  | load (data : ByteArray) (platform : Platform)
  | placeImage (data : ByteArray) (platform : Platform)
  | start (index : Nat) (options : List UInt16)
  | unload (t : Target)
  | callback (t : Target)
  | publish (on : Bool)
  | record (t : Target)
  | patch (index : Nat) (p : Patch)
  /-- Add a handle behind the loader's back. -/
  | plant (path : Option (Protocol × ByteArray)) (record service : Bool)
  | register (data : ByteArray) (skip : Nat)
  | deregister
  | isRegistered
  | fetch (f : Fetch)
  | allocate (size alignment : Nat) (memoryType : UInt32)
  | release (index : Nat)
  | keep (index : Nat)
  | allocatePages (memoryType : UInt32) (pages : Nat)
  | freePages (address pages : Nat)
  | install (h : Handle) (interfaces : Interfaces)
  | uninstall (h : Handle) (interfaces : Interfaces)
  | openExclusive (t : Target) (p : Protocol)
  | close (t : Target) (p : Protocol)
  | interface (t : Target) (p : Protocol)
  | firmwareLoad (data : ByteArray)
  | firmwareStart (t : Target)
  | firmwareUnload (t : Target)
  | openFile (path : String)
  | readBytes (n : Nat)
  | closeFile
  | boot

/-! ## Answers -/

/-- What a step can lack. -/
inductive Missing where
  | image
  | record
  | buffer
  | file
deriving DecidableEq

/-- A value that a step answers. -/
inductive Value where
  | none
  | flag (b : Bool)
  | status (s : Status)
  | handle (h : Handle)
  | address (n : Nat)
  | view (console : Bool)
  /-- An image and its memory. -/
  | image (i : LoadedImage) (memory : ByteArray)
  /-- The memory of an image, and what is in it. -/
  | sections (b : PageBuffer) (memory : ByteArray)
  /-- Memory, and whether it is zeroed. -/
  | buffer (b : PageBuffer) (zeroed : Bool)
  | allocation (a : PageAllocation)
  /-- A record, whether it points at the device path of its handle, and that path. -/
  | record (r : Option (ImageRecord × Bool)) (path : Option ByteArray)
  /-- The reply to a request; none without a file service. -/
  | reply (r : Option LoadFile.Reply)
  /-- A status, and the images that have been started. -/
  | ran (s : Status) (guests : List GuestRun)
  /-- The size of a file. -/
  | file (size : Nat)
  /-- The number of bytes that have been read, and the target of reading. -/
  | read (count : Nat) (target : ByteArray)

/-- The answer of a step. -/
inductive Answer where
  | plain (v : Value)
  | outcome (r : Except Status Value)
  | skipped (m : Missing)

/-- The answer of a step and what it did. -/
structure Report where
  answer : Answer
  calls : List String
  log : List String
  /-- Pages in use after the step. -/
  pages : Nat
  /-- Handles after the step, but for those of the loader and its device. -/
  handles : Nat

/-! ## Sessions -/

/-- A session between two steps. -/
structure Session where
  machine : Machine Stage
  logger : Console.Logger
  /-- Lines on the console. -/
  log : List String := []
  /-- The images that have been loaded. -/
  images : List LoadedImage := []
  /-- Memory that has been allocated, where it has not been given away. -/
  buffers : List (Option PageBuffer) := []
  file : Option (OpenFile Stage) := none

/-- A step in the making. -/
abbrev Run (α : Type) := StateM Session α

namespace Session

/-- Run a computation of the loader; what it logs is shown. -/
def perform (m : Loader Stage α) : Run α := fun s =>
  let r := m s.machine
  (r.value.1, { s with machine := r.value.2, log := s.log ++ s.logger.lines r.lines })

/-- Change the stage. -/
def onStage (m : StateM Stage α) : Run α := perform (Loader.call m)

/-- The bytes in memory. -/
def memory (base size : Nat) : Run ByteArray := do
  return (← get).machine.shared.memory.read base size

/-- The images that have been started in this step. -/
def guests : Run (List GuestRun) := do return (← get).machine.firmware.guests.toList

/-- A status as an answer. -/
def ofStatus (s : Status) : Answer := .plain (.status s)

/-- An outcome as an answer. -/
def ofOutcome (f : α → Value) (r : Except Status α) : Answer := .outcome (r.map f)

/-- The handle a step is about. -/
def target (t : Target) : Run (Option Handle) := do
  match t with
  | .handle h => return some h
  | .image index => return (← get).images[index]?.map (·.handle)

/-- Do something with the handle a step is about. -/
def withTarget (t : Target) (f : Handle → Run Answer) : Run Answer := do
  match ← target t with
  | some h => f h
  | none => return .skipped .image

/-- Take the memory at an index out of the session. -/
def takeBuffer (index : Nat) : Run (Option PageBuffer) := fun s =>
  (s.buffers[index]?.join, { s with buffers := s.buffers.set index none })

/-! ## Images -/

def load (fw : Firmware Stage) (data : ByteArray) (platform : Platform) : Run Answer := do
  match ← perform (LoadedImage.loadFor fw data platform).run with
  | .error status => return .outcome (.error status)
  | .ok image =>
    modify fun s => { s with images := s.images ++ [image] }
    return .outcome (.ok (.image image (← memory image.imageBase image.imageSize)))

def placeImage (fw : Firmware Stage) (data : ByteArray) (platform : Platform) :
    Run Answer := do
  let loaded : Attempt Stage PageBuffer := do
    let h ← Attempt.settle (← Headers.parseNoted data platform)
    EfiLoader.placeImage fw h data
  match ← perform loaded.run with
  | .error status => return .outcome (.error status)
  | .ok b =>
    let content ← memory b.base b.size
    perform (b.release fw)
    return .outcome (.ok (.sections b content))

/-- Bytes of a device path that are shown. -/
def shownPath : Nat := 28

def record (h : Handle) : Run Answer := do
  let m := (← get).machine
  let path? := m.firmware.handles.interface? h .loadedImageDevicePath
  let record? := (m.firmware.handles.interface? h .loadedImage).bind m.shared.objects.image?
  return .plain (.record (record?.map fun r => (r, path? == some r.filePath))
    ((path?.bind m.shared.objects.path?).map fun p =>
      Bytes.overwrite (Bytes.zeros shownPath) 0 p))

def patch (h : Handle) (p : Patch) : Run Answer := do
  let stage := (← get).machine.firmware
  let path? := stage.handles.interface? h .loadedImageDevicePath
  let change (f : Objects → Objects) : Run Answer := do
    perform (Loader.modifyObjects fun o => ((), f o))
    return .plain .none
  match p, stage.handles.interface? h .loadedImage, path? with
  | .unload unload, some record, _ =>
    change fun o => o.updateImage record fun r => { r with unload }
  | .filePath own, some record, _ =>
    let filePath := if own then path?.getD Interface.null else Interface.null
    change fun o => o.updateImage record fun r => { r with filePath }
  | .path off bytes, _, some path => change fun o => o.overwritePath path off bytes
  | _, _, _ => return .skipped .record

/-- Bytes after the end of a device path that can be read. -/
def pathMargin : Nat := 64

def plant (path : Option (Protocol × ByteArray)) (record service : Bool) : Run Answer := do
  let mut interfaces : Interfaces := []
  if let some (protocol, node) := path then
    let bytes := node ++ DevicePath.endNode ++ Bytes.zeros pathMargin
    let i ← perform (Loader.modifyObjects fun o => o.addPath bytes)
    interfaces := interfaces ++ [(protocol, i)]
  if record then
    let r ← perform (liftM (ImageRecord.noted { unload := .foreign }))
    let i ← perform (Loader.modifyObjects fun o => o.addImage r)
    interfaces := interfaces ++ [(.loadedImage, i)]
  if service then
    let id ← perform (Loader.modifyObjects Objects.fresh)
    interfaces := interfaces ++ [(.loadFile2, .loadFile id)]
  return .plain (.handle (← onStage (Stage.onHandles fun d => d.add interfaces)))

/-! ## Memory and files -/

def allocate (fw : Firmware Stage) (size alignment : Nat) (memoryType : UInt32) :
    Run Answer := do
  match ← perform (PageBuffer.allocate fw size alignment memoryType).run with
  | .error status => return .outcome (.error status)
  | .ok b =>
    modify fun s => { s with buffers := s.buffers ++ [some b] }
    return .outcome (.ok (.buffer b
      ((← get).machine.shared.memory.isFilled 0 b.base b.size)))

/-- Close the file that is open. -/
def closeFile : Run Unit := do
  if let some file := (← get).file then
    onStage file.close
    modify fun s => { s with file := none }

def openFile (fw : Firmware Stage) (path : String) : Run Answer := do
  closeFile
  match ← perform (Loader.callNoted (fw.openFile path)) with
  | .error status => return .outcome (.error status)
  | .ok file =>
    modify fun s => { s with file := some file }
    return .outcome (.ok (.file file.source.size))

/-- Read from an open file, noting a failure. -/
def readNoted (file : OpenFile Stage) (n : Nat) : Loader Stage (Except Status ReadResult) := do
  match ← Loader.call (file.source.read n) with
  | .ok r => return .ok r
  | .error e =>
    (Logged.write e.report : Logged Unit)
    return .error e.status

def readBytes (n : Nat) : Run Answer := do
  match (← get).file with
  | none => return .skipped .file
  | some file =>
    let r ← perform (readNoted file n)
    return ofOutcome (fun r => .read r.count (Bytes.overwrite (Bytes.zeros n) 0 r.bytes)) r

/-! ## Booting -/

/-- A boot attempt with the options that the loader was started with.  The
verbosity they ask for holds from then on. -/
def boot (fw : Firmware Stage) : Run Answer := do
  let o ← perform (liftM (Options.ofUnits fw.loadOptions))
  modify fun s => { s with logger := { s.logger with verbosity := o.verbosity } }
  let status ← perform (Boot.runPublished fw o)
  return .plain (.ran status (← guests))

/-- Whether functions that the firmware calls may use it. -/
def publish (on : Bool) : Run Answer := do
  perform (Loader.modifyShared fun s => { s with published := on })
  return .plain (.flag on)

/-- Read a buffer on by `skip` bytes, if it has so many. -/
def skipped (data : ByteArray) (skip : Nat) : Buffer :=
  match (Buffer.ofBytes data).advance skip with
  | .ok b => b
  | .error _ => Buffer.ofBytes data

/-! ## All steps -/

/-- Take a step. -/
def take (fw : Firmware Stage) : Step → Run Answer
  | .view => do return .plain (.view (← get).logger.present)
  | .load data platform => load fw data platform
  | .placeImage data platform => placeImage fw data platform
  | .start index options => do
    match (← get).images[index]? with
    | none => return .skipped .image
    | some image =>
      let status ← perform (LoadedImage.start fw image options)
      return .plain (.ran status (← guests))
  | .unload t => withTarget t fun h => ofStatus <$> perform (LoadedImage.unload fw h)
  | .callback t => withTarget t fun h => ofStatus <$> perform (LoadedImage.unloadForFirmware fw h)
  | .publish on => publish on
  | .record t => withTarget t record
  | .patch index p => withTarget (.image index) fun h => patch h p
  | .plant path hasRecord service => plant path hasRecord service
  | .register data skip =>
    ofOutcome (fun _ => .none) <$> perform (Initrd.register fw (skipped data skip)).run
  | .deregister => ofStatus <$> perform (Initrd.deregister fw)
  | .isRegistered => do return .plain (.flag (← get).machine.shared.hasInitrd)
  | .fetch f => (.plain ∘ .reply) <$> perform (Loader.hand fun shared => Stage.fetch shared f)
  | .allocate size alignment memoryType => allocate fw size alignment memoryType
  | .release index => do
    match ← takeBuffer index with
    | none => return .skipped .buffer
    | some b =>
      perform (b.release fw)
      return .plain .none
  | .keep index => do
    match ← takeBuffer index with
    | none => return .skipped .buffer
    | some b => return .plain (.allocation b.allocation)
  | .allocatePages memoryType pages =>
    ofOutcome .address <$> onStage (fw.allocatePages memoryType pages)
  | .freePages address pages => ofStatus <$> onStage (fw.freePages address pages)
  | .install h interfaces => ofOutcome .handle <$> onStage (fw.install h interfaces)
  | .uninstall h interfaces => ofStatus <$> onStage (fw.uninstall h interfaces)
  | .openExclusive t p => withTarget t fun h =>
    ofOutcome (fun _ => .none) <$> onStage (fw.openExclusive h p)
  | .close t p => withTarget t fun h => ofStatus <$> onStage (fw.close h p)
  | .interface t p => withTarget t fun h =>
    ofOutcome (fun _ => .none) <$> onStage (fw.interface h p)
  | .firmwareLoad data => ofOutcome .handle <$> perform (Boot.loadWithFirmware fw data)
  | .firmwareStart t => withTarget t fun h => do
    let status ← perform (Loader.hand (fw.startImage h))
    return .plain (.ran status (← guests))
  | .firmwareUnload t => withTarget t fun h => ofStatus <$> onStage (fw.unloadImage h)
  | .openFile path => openFile fw path
  | .readBytes n => readBytes n
  | .closeFile => do
    closeFile
    return .plain .none
  | .boot => boot fw

/-- Take a step and report it. -/
def step (fw : Firmware Stage) (x : Step) : Run Report := do
  modify fun s => { s with
    log := []
    machine := { s.machine with
      firmware := { s.machine.firmware with calls := #[], guests := #[] } } }
  let answer ← take fw x
  let s ← get
  let stage := s.machine.firmware
  return ⟨answer, stage.calls.toList, s.log, stage.pages.count, stage.handleCount⟩

end Session

/-! ## Setting up -/

/-- What a session starts with. -/
structure Setup where
  script : Script := {}
  /-- What the console shows, if there is one. -/
  console : Option Verbosity := none
  /-- The address of the first pages. -/
  firstPage : Nat := Stage.firstPage
  /-- The loader's own load options, if there are any. -/
  options : Option (List UInt16) := none
  /-- Bytes of the load options. -/
  optionsSize : Option Nat := none
  /-- Whether the load options start at an even address. -/
  optionsAligned : Bool := true
  /-- The loader's own image in memory. -/
  image : ByteArray := ByteArray.empty
  /-- Whether the loader knows its handle. -/
  imageHandle : Bool := true
  systemTable : Bool := true
  bootServices : Bool := true
  /-- Whether the loader's record names the boot device. -/
  device : Bool := true
  /-- Whether the boot device has a file system. -/
  fileSystem : Bool := true

namespace Setup

/-- The loader's own record. -/
def record (x : Setup) : ImageRecord where
  systemTable := true
  device := if x.device then Stage.deviceHandle else Handle.null
  options := x.options
  optionsAligned := x.optionsAligned
  optionsSize := UInt32.ofNat (x.optionsSize.getD (2 * (x.options.getD []).length))
  imageSize := UInt64.ofNat x.image.size

/-- What is in memory that nobody has written to. -/
def emptyMemory : Memory := Memory.filled 0xCC

/-- The stage, the shared objects and the loader's record before the first call. -/
def machine (x : Setup) : Machine Stage :=
  let (own, objects) := Objects.empty.addImage x.record
  { firmware :=
      { script := x.script
        pages := ⟨[], x.firstPage⟩
        handles :=
          ⟨[(Stage.loaderHandle, [(.loadedImage, own)]),
            (Stage.deviceHandle, if x.fileSystem then [(.simpleFileSystem, .raw 1)] else [])],
          Stage.firstHandle⟩ }
    shared := { memory := emptyMemory, objects } }

/-- What the loader is started with. -/
def arguments (x : Setup) : Uefi.Arguments where
  imageHandle := if x.imageHandle then Stage.loaderHandle else Handle.null
  systemTable := x.systemTable
  bootServices := x.bootServices

/-- The firmware that the loader sees. -/
def firmware (x : Setup) : Firmware Stage :=
  Uefi.firmware Stage.services Stage.loaderHandle x.record x.image

/-- The calls that the loader makes before the first step, and the session
that begins then, if it does. -/
def begin (x : Setup) : List String × Except Status Session :=
  let m := x.machine
  let (r, stage) := Uefi.connect Stage.services x.arguments m.firmware
  (stage.calls.toList, r.map fun _ =>
    { machine := { m with firmware := stage }
      logger := ⟨x.console.isSome, x.console.getD Verbosity.off⟩ })

end Setup

end EfiLoader.Simulation
