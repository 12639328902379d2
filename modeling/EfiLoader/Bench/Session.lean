import EfiLoader.Bench.Basic
import EfiLoader.Host
import EfiLoader.Loader.Boot

/-!
# EfiLoader.Bench.Session

Sessions on the test bench: steps that use the loader or its firmware, and
what each of them answers.  A handle is known by its place among the handles
that answers have named, in the order in which they were first named.
-/

namespace EfiLoader.Bench

/-! ## Steps -/

/-- Something to do in a session; handles are given by their places, and no
place is the null handle. -/
inductive Step where
  | allocate (pages : Nat)
  /-- Give back what was allocated, or another number of pages from there on. -/
  | free (index : Nat) (pages : Option Nat)
  | install (h : Option Nat) (is : Interfaces)
  /-- Make a handle, whatever is set to fail. -/
  | plant (is : Interfaces)
  | uninstall (h : Option Nat) (is : Interfaces)
  | openExclusive (h : Option Nat) (p : Protocol)
  | close (h : Option Nat) (p : Protocol)
  | interface (h : Option Nat) (p : Protocol)
  /-- Whether a handle carries a protocol. -/
  | carries (h : Option Nat) (p : Protocol)
  | locate (p : Protocol) (path : Interface)
  | load (data : ByteArray)
  | start (index : Nat) (options : List UInt16)
  | unload (h : Option Nat)
  /-- Unload an image as the firmware does. -/
  | callback (h : Option Nat)
  | publish
  | firmwareLoad (data : ByteArray)
  | firmwareStart (h : Option Nat)
  | firmwareUnload (h : Option Nat)
  | openFile (path : String)
  | readBytes (n : Nat)
  | register (data : ByteArray)
  | deregister
  | isRegistered
  /-- Fetch the initrd as a kernel does. -/
  | fetch
  | boot
  | view

/-! ## Answers -/

/-- What a step can lack. -/
inductive Missing where
  | image
  | pages
  | file
deriving DecidableEq

/-- A value that a step answers. -/
inductive Value where
  | none
  | flag (b : Bool)
  | status (s : Status)
  /-- The place of a handle. -/
  | place (n : Nat)
  /-- Whether new pages are aligned and zeroed. -/
  | pages (aligned zeroed : Bool)
  /-- An image and the place of its handle. -/
  | image (place : Nat) (i : LoadedImage)
  /-- The size of a file. -/
  | file (size : Nat)
  /-- The number of bytes that have been read, and the target of reading. -/
  | read (count : Nat) (target : ByteArray)
  /-- The statuses of asking for the size of the initrd and for the initrd,
  and what was fetched. -/
  | fetched (query read : Status) (data : ByteArray)
  | view

/-- The answer of a step. -/
inductive Answer where
  | plain (v : Value)
  | outcome (r : Except Status Value)
  | skipped (m : Missing)

/-- The answer of a step, and what is in use after it. -/
structure Report where
  answer : Answer
  pages : Nat
  handles : Nat

/-! ## Sessions -/

/-- A session between two steps. -/
structure Session where
  machine : Machine Bench
  /-- The handles that have been named. -/
  named : List Handle := []
  /-- Pages that have been allocated: where they begin, and their number. -/
  allocated : List (Nat × Nat) := []
  /-- The images that have been loaded. -/
  images : List LoadedImage := []
  file : Option (OpenFile Bench) := none

/-- A step in the making. -/
abbrev Run (α : Type) := StateT Session Logged α

namespace Session

/-- A session on a bench that has not been used. -/
def begin (settings : BenchSettings) : Session where
  machine := ⟨fresh settings, { memory := Memory.filled 0 }⟩

/-- Run a computation of the loader. -/
def perform (m : Loader Bench α) : Run α := fun s => do
  let (a, machine) ← m s.machine
  return (a, { s with machine })

/-- Change the bench. -/
def onBench (m : StateM Bench α) : Run α := perform (Loader.call m)

/-- The handle at a place. -/
def handleAt (s : Session) (place : Option Nat) : Handle :=
  (place.bind fun n => s.named[n]?).getD Handle.null

/-- The place of a handle, if it has been named. -/
def place? (s : Session) (h : Handle) : Option Nat := s.named.idxOf? h

/-- The place of a handle, which is named from now on. -/
def place (h : Handle) : Run Nat := do
  let s ← get
  match s.place? h with
  | some n => return n
  | none =>
    set { s with named := s.named ++ [h] }
    return s.named.length

/-- Where control has gone: the place of the handle, and the entry point. -/
def transfers (s : Session) : List (Option Nat × Nat) :=
  s.machine.firmware.transfers.map fun t => (s.place? t.1, t.2)

/-! ## Answers -/

/-- A status as an answer. -/
def ofStatus (s : Status) : Answer := .plain (.status s)

/-- An outcome whose value does not show. -/
def ofOutcome (r : Except Status α) : Answer := .outcome (r.map fun _ => .none)

/-- A handle or a status as an answer. -/
def ofHandle (r : Except Status Handle) : Run Answer := do
  match r with
  | .error status => return .outcome (.error status)
  | .ok h => return .outcome (.ok (.place (← place h)))

/-! ## Taking steps -/

def allocate (fw : Firmware Bench) (pages : Nat) : Run Answer := do
  match ← onBench (fw.allocatePages loaderCode pages) with
  | .error status => return .outcome (.error status)
  | .ok address =>
    modify fun s => { s with allocated := s.allocated ++ [(address, pages)] }
    let memory := (← get).machine.shared.memory
    return .outcome (.ok (.pages (address % pageSize == 0)
      (memory.isFilled 0 address (pages * pageSize))))

def free (fw : Firmware Bench) (index : Nat) (pages : Option Nat) : Run Answer := do
  match (← get).allocated[index]? with
  | none => return .skipped .pages
  | some (address, count) => ofStatus <$> onBench (fw.freePages address (pages.getD count))

def load (fw : Firmware Bench) (data : ByteArray) : Run Answer := do
  match ← perform (LoadedImage.load fw data).run with
  | .error status => return .outcome (.error status)
  | .ok image =>
    modify fun s => { s with images := s.images ++ [image] }
    return .outcome (.ok (.image (← place image.handle) image))

/-- Open a file; the one that is open stays so if that fails. -/
def openFile (fw : Firmware Bench) (path : String) : Run Answer := do
  match ← perform (Loader.callNoted (fw.openFile path)) with
  | .error status => return .outcome (.error status)
  | .ok file =>
    if let some old := (← get).file then
      onBench old.close
    modify fun s => { s with file := some file }
    return .outcome (.ok (.file file.source.size))

def readBytes (n : Nat) : Run Answer := do
  match (← get).file with
  | none => return .skipped .file
  | some file =>
    match ← onBench (file.source.read n) with
    | .error e =>
      (Logged.write e.report : Logged Unit)
      return .outcome (.error e.status)
    | .ok r =>
      return .outcome (.ok (.read r.count (Bytes.overwrite (Bytes.zeros n) 0 r.bytes)))

/-- The file service on the device path of initrds. -/
def findService (fw : Firmware Bench) : Attempt Bench Interface := do
  let h ← Attempt.ofLoader (Loader.callSharing (fw.locate .loadFile2 .initrdPath))
  Attempt.ofLoader (Loader.call (fw.interface h .loadFile2))

/-- Ask a file service for the size of its file, then for the file. -/
def fetchFrom (service : Interface) (shared : Shared) : Logged Value := do
  let query ← shared.loadFile service { path := some DevicePath.endNode, size := some 0 }
  let size := query.size.getD 0
  let reply ← shared.loadFile service
    { path := some DevicePath.endNode
      size := some size
      buffer := some (Bytes.zeros size) }
  return .fetched query.status reply.status (reply.buffer.getD ByteArray.empty)

def fetch (fw : Firmware Bench) : Run Answer := do
  match ← perform (findService fw).run with
  | .error status => return .outcome (.error status)
  | .ok service =>
    let value ← (fetchFrom service (← get).machine.shared : Logged Value)
    return .outcome (.ok value)

/-- A boot attempt with the options on the bench. -/
def boot (fw : Firmware Bench) : Run Answer := do
  let o ← (Options.ofUnits fw.loadOptions : Logged Options)
  ofStatus <$> perform (Boot.run fw o)

/-- Take a step. -/
def take (fw : Firmware Bench) (x : Step) : Run Answer := do
  let s ← get
  let handle := s.handleAt
  match x with
  | .allocate pages => allocate fw pages
  | .free index pages => free fw index pages
  | .install h is => do ofHandle (← onBench (fw.install (handle h) is))
  | .plant is => do return .plain (.place (← place (← onBench (addHandle is))))
  | .uninstall h is => ofStatus <$> onBench (fw.uninstall (handle h) is)
  | .openExclusive h p => ofOutcome <$> onBench (fw.openExclusive (handle h) p)
  | .close h p => ofStatus <$> onBench (fw.close (handle h) p)
  | .interface h p => ofOutcome <$> onBench (fw.interface (handle h) p)
  | .carries h p =>
    return .plain (.flag (s.machine.firmware.handles.interface? (handle h) p).isSome)
  | .locate p path => do
    ofHandle (← perform (Loader.callSharing (fw.locate p path)))
  | .load data => load fw data
  | .start index options =>
    match s.images[index]? with
    | none => return .skipped .image
    | some image => ofStatus <$> perform (LoadedImage.start fw image options)
  | .unload h => ofStatus <$> perform (LoadedImage.unload fw (handle h))
  | .callback h => ofStatus <$> perform (LoadedImage.unloadForFirmware fw (handle h))
  | .publish => do
    perform (Loader.modifyShared fun s => { s with published := true })
    return .plain .none
  | .firmwareLoad data => do ofHandle (← perform (Boot.loadWithFirmware fw data))
  | .firmwareStart h => ofStatus <$> perform (Loader.hand (fw.startImage (handle h)))
  | .firmwareUnload h => ofStatus <$> onBench (fw.unloadImage (handle h))
  | .openFile path => openFile fw path
  | .readBytes n => readBytes n
  | .register data =>
    ofOutcome <$> perform (Initrd.register fw (Buffer.ofBytes data)).run
  | .deregister => ofStatus <$> perform (Initrd.deregister fw)
  | .isRegistered => return .plain (.flag s.machine.shared.hasInitrd)
  | .fetch => fetch fw
  | .boot => boot fw
  | .view => return .plain .view

/-- Take a step and report it. -/
def step (fw : Firmware Bench) (x : Step) : Run Report := do
  let answer ← take fw x
  let b := (← get).machine.firmware
  return ⟨answer, b.pages.count, b.handles.entries.length⟩

end Session

end EfiLoader.Bench
