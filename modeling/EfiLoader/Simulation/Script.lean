import EfiLoader.Firmware.LoadFile
import EfiLoader.Firmware.Protocol
import EfiLoader.Text.Hex
import EfiLoader.Text.Utf16

/-!
# EfiLoader.Simulation.Script

What simulated boot services do: the files on the volume, the calls that are
made to fail, and what images do when they are started.
-/

namespace EfiLoader.Simulation

open Text

/-! ## Services -/

/-- The services that can be made to fail. -/
inductive Service where
  | allocatePages
  | freePages
  | installProtocol
  | uninstallProtocol
  | openProtocol
  | closeProtocol
  | handleProtocol
  | locateDevicePath
  | loadImage
  | startImage
  | unloadImage
  | openVolume
  | openFile
  | getInfo
  | read
deriving DecidableEq

namespace Service

/-- The name of a service. -/
def name : Service → String
  | allocatePages => "AllocatePages"
  | freePages => "FreePages"
  | installProtocol => "InstallProtocol"
  | uninstallProtocol => "UninstallProtocol"
  | openProtocol => "OpenProtocol"
  | closeProtocol => "CloseProtocol"
  | handleProtocol => "HandleProtocol"
  | locateDevicePath => "LocateDevicePath"
  | loadImage => "LoadImage"
  | startImage => "StartImage"
  | unloadImage => "UnloadImage"
  | openVolume => "OpenVolume"
  | openFile => "Open"
  | getInfo => "GetInfo"
  | read => "Read"

/-- All services. -/
def all : List Service :=
  [allocatePages, freePages, installProtocol, uninstallProtocol, openProtocol, closeProtocol,
   handleProtocol, locateDevicePath, loadImage, startImage, unloadImage, openVolume, openFile,
   getInfo, read]

/-- The service with a name. -/
def ofName? (name : String) : Option Service := all.find? fun s => s.name == name

/-- Whether a service can be made to answer without a result. -/
def canBeEmpty : Service → Bool
  | openVolume | openFile | handleProtocol => true
  | _ => false

end Service

/-! ## Interruptions -/

/-- How an interrupted call answers. -/
inductive Interruption where
  /-- With a status, without doing anything. -/
  | status (s : Status)
  /-- With success and no result. -/
  | empty
deriving DecidableEq

/-- Which calls are interrupted, and how. -/
structure Rule where
  service : Service
  /-- The number of the call, counted from 1; every call if there is none. -/
  nth : Option Nat
  interruption : Interruption

/-- How call number `n` of a service is interrupted: the first rule about it
counts, if the service can answer so. -/
def interruption? (rules : List Rule) (service : Service) (n : Nat) : Option Interruption :=
  match rules.find? fun r => r.service == service && (r.nth.isNone || r.nth == some n) with
  | none => none
  | some r =>
    if r.interruption == .empty && !service.canBeEmpty then none else some r.interruption

/-! ## Files -/

/-- A file on the volume. -/
structure ScriptedFile where
  path : String
  data : ByteArray
  /-- Most bytes of one read. -/
  maxRead : Option Nat := none
  /-- Bytes that a read reports beyond what it has read. -/
  overReport : Nat := 0
  /-- The size that the file reports. -/
  size : Option Nat := none
  /-- Bytes of what is known of the file. -/
  infoSize : Option Nat := none

namespace ScriptedFile

/-- Bytes of what is known of the file: a fixed part and its name. -/
def infoBytes (f : ScriptedFile) : Nat :=
  f.infoSize.getD (80 + 2 * ((Utf16.encode f.path).length + 1))

/-- The start of what is known of the file: its size is the second number. -/
def info (f : ScriptedFile) : ByteArray :=
  Bytes.le 8 f.infoBytes ++ Bytes.le 8 (f.size.getD f.data.size)

end ScriptedFile

/-! ## Started images -/

/-- On whose behalf a file service is called. -/
inductive ServiceChoice where
  /-- The newest file service there is. -/
  | newest
  /-- A file service that nobody knows. -/
  | foreign
  /-- No file service. -/
  | null
deriving DecidableEq

/-- A request to a file service. -/
structure Fetch where
  choice : ServiceChoice := .newest
  request : LoadFile.Request

/-- What an image that has been started saw and did. -/
structure GuestRun where
  handle : Handle
  /-- Its load options, their size in bytes and its memory, if it has a record. -/
  record : Option (List UInt16 × Nat × Option ByteArray)
  /-- The replies to its requests; none without a file service. -/
  replies : List (Option LoadFile.Reply)

/-! ## The script -/

/-- What simulated boot services do. -/
structure Script where
  files : List ScriptedFile := []
  rules : List Rule := []
  /-- What the firmware's loader answers; an image is loaded if there is nothing. -/
  loader : Option Status := some Status.unsupported
  /-- Whether images of the firmware's loader have a record. -/
  loaderRecord : Bool := true
  /-- What started images return. -/
  exit : Status := Status.success
  /-- What started images ask for. -/
  guest : List Fetch := []

/-- The form a status takes in a list of calls: its name or its number. -/
def label (s : Status) : String := s.name?.getD (hex s.code.toNat)

end EfiLoader.Simulation
