import EfiLoader.Loader.Image
import EfiLoader.Loader.Initrd
import EfiLoader.Options
import EfiLoader.Payload
import EfiLoader.Pe.Embedded

/-!
# EfiLoader.Loader.Boot

A boot attempt.  The payload comes from the path in the options, from the
loader's own image, or from the default path; it is unpacked, given an initrd
if there is one, and started with its command line.  When it returns, it is
unloaded and the initrd is withdrawn.
-/

namespace EfiLoader.Boot

open Log Text Pe

/-! ## Reading -/

/-- Unpack from a source that acts on the firmware. -/
def unpack (m : Payload.Unpack φ α) : Attempt φ α := do
  let r ← ExceptT.lift (Loader.callNoted m.run)
  Attempt.settle r

/-- Unpack from bytes in memory. -/
def unpackBytes (bytes : ByteArray) (m : Payload.Unpack Supply α) : Attempt φ α := do
  let r ← (m.run.run { bytes } : Logged _)
  Attempt.settle r.1

/-- Open a file, use it and close it. -/
def withFile (fw : Firmware φ) (path : String) (use : Source φ → Attempt φ α) : Attempt φ α := do
  let file ← Attempt.ofLoader (Loader.callNoted (fw.openFile path))
  ExceptT.mk do
    let r ← (use file.source).run
    Loader.call file.close
    return r

/-- Read as many bytes as the source says it has. -/
def readWhole [Allocator] (src : Source φ) : Payload.Unpack φ Buffer := do
  match Buffer.allocate src.size with
  | .error e => throw (.memory e)
  | .ok b =>
    let b ← Payload.fill src b
    if b.len < src.size then
      note (Component.boot.warn s!"File ended after {b.len} of {src.size} bytes")
    return b

/-! ## The payload and what comes with it -/

/-- What comes along in the loader's own image; an image without usable
headers has nothing. -/
def embedded (fw : Firmware φ) : Loader φ Embedded := do
  match ← Log.settle (← (Embedded.find fw.ownImage).run) with
  | .ok e => return e
  | .error status =>
    note (Component.boot.debug s!"No embedded sections in loader image: {status.text}")
    return {}

/-- The payload, unpacked.  A path in the options goes before an embedded
payload, and that before the default path. -/
def obtainPayload [Allocator] [Zstd.Decoder] (fw : Firmware φ) (o : Options)
    (linux : Option ByteArray) : Attempt φ Buffer := do
  match linux with
  | some data =>
    if o.image.isEmpty then
      note (Component.boot.info s!"Using embedded payload ({data.size} bytes)")
      unpackBytes data (Payload.unpackFile (Supply.source data.size))
    else
      fromFile
  | none => fromFile
where
  /-- The payload in the file that the options name. -/
  fromFile : Attempt φ Buffer := do
    note (Component.boot.info s!"Loading payload: {o.imagePath}")
    withFile fw o.imagePath fun src => unpack (Payload.unpackFile src)

/-- The initrd, if there is one.  A path in the options goes before an
embedded initrd. -/
def obtainInitrd [Allocator] (fw : Firmware φ) (o : Options) (embedded : Option ByteArray) :
    Attempt φ (Option Buffer) := do
  match o.initrdPath?, embedded with
  | some path, _ =>
    note (Component.boot.info s!"Loading initrd: {path}")
    withFile fw path fun src => some <$> unpack (readWhole src)
  | none, some data =>
    note (Component.boot.info s!"Using embedded initrd ({data.size} bytes)")
    some <$> unpackBytes data (do
      match Buffer.allocate data.size with
      | .error e => throw (.memory e)
      | .ok b => Payload.fill (Supply.source data.size) b)
  | none, none => return none

/-- The command line in bytes that came along, without the blanks and NULs
around it. -/
def embeddedCommandLine (bytes : ByteArray) : Logged (List Char) :=
  match String.fromUTF8? bytes with
  | some text => return trimBoth (fun c => c == '\x00' || isBlank c) text.toList
  | none => do
    note (Component.boot.warn "Embedded command line is not UTF-8, ignoring it")
    return []

/-- The load options of the payload: the command line in the options, or the
embedded one. -/
def payloadOptions (o : Options) (cmdline : Option ByteArray) : Logged (List UInt16) := do
  if !o.cmdline.isEmpty then
    return terminatedUnits o.cmdline
  match cmdline with
  | none => return terminatedUnits ""
  | some bytes => return terminatedUnits (String.ofList (← embeddedCommandLine bytes))

/-! ## Execution -/

/-- Load, start and unload an image with the built-in loader. -/
def runBuiltin (fw : Firmware φ) (data : ByteArray) (options : List UInt16) :
    Loader φ Status := do
  match ← (LoadedImage.load fw data).run with
  | .error status =>
    note (Component.boot.error s!"Failed to load image: {status.text}")
    return status
  | .ok image =>
    let status ← LoadedImage.start fw image options
    let unloaded ← LoadedImage.unload fw image.handle
    if unloaded.isError then
      note (Component.boot.warn s!"Failed to unload image: {unloaded.text}")
    return status

/-- Load an image with the firmware's loader. -/
def loadWithFirmware (fw : Firmware φ) (data : ByteArray) : Loader φ (Except Status Handle) := do
  let id ← Loader.modifyObjects Objects.fresh
  let (r, record?) ← Loader.call (fw.loadImage data id)
  if let some record := record? then
    Loader.modifyObjects fun o => ((), o.insertImage id record)
  return r

/-- Load, start and unload an image with the firmware's loader. -/
def runThroughFirmware (fw : Firmware φ) (data : ByteArray) (options : List UInt16) :
    Loader φ Status := do
  match ← loadWithFirmware fw data with
  | .error status =>
    note (Component.boot.error s!"Firmware failed to load image: {status.text}")
    return status
  | .ok handle =>
    let record ← Loader.call (fw.interface handle .loadedImage)
    if let .ok record := record then
      LoadedImage.setLoadOptions record options
    note (Component.boot.info s!"Starting image {handle.text} through firmware")
    let status ← Loader.hand (fw.startImage handle)
    note (Component.boot.info s!"Image returned with status: {status.text}")
    if let .ok record := record then
      LoadedImage.setLoadOptions record []
    let unloaded ← Loader.call (fw.unloadImage handle)
    if unloaded.isError then
      note (Component.boot.warn s!"Firmware failed to unload image: {unloaded.text}")
    return status

/-- Start an image.  The firmware's loader is for images whose headers the
built-in one does not support; whatever fails later is final. -/
def runImage (fw : Firmware φ) (mode : LoaderChoice) (data : ByteArray) (options : List UInt16) :
    Loader φ Status := do
  match mode with
  | .firmware => runThroughFirmware fw data options
  | .builtin =>
    match ← Log.settle (← Headers.parseNoted data Platform.native) with
    | .ok _ => runBuiltin fw data options
    | .error status =>
      if status = Status.unsupported then
        note (Component.boot.info
          "Image not supported by the built-in loader, trying firmware")
        runThroughFirmware fw data options
      else
        note (Component.boot.error s!"Failed to load image: {status.text}")
        return status

/-! ## The attempt -/

/-- Find the initrd and offer it. -/
def offerInitrd [Allocator] (fw : Firmware φ) (o : Options) (embedded : Option ByteArray) :
    Attempt φ Unit := do
  let initrd ← (obtainInitrd fw o embedded).noting
    fun status => Component.boot.error s!"Failed to load initrd: {status.text}"
  if let some data := initrd then
    Initrd.register fw data

/-- Start a payload that has its initrd, and withdraw the initrd afterwards. -/
def launch (fw : Firmware φ) (o : Options) (payload : Buffer) (cmdline : Option ByteArray) :
    Loader φ Status := do
  let options ← (payloadOptions o cmdline : Logged _)
  let status ← runImage fw o.mode payload.committed options
  let withdrawn ← Initrd.deregister fw
  if withdrawn.isError then
    note (Component.boot.warn s!"Failed to withdraw initrd: {withdrawn.text}")
  return status

/-- Make one boot attempt; the answer is the status that the payload returned,
or that of what went wrong before it was started. -/
def run [Allocator] [Zstd.Decoder] (fw : Firmware φ) (o : Options) : Loader φ Status := do
  let e ← embedded fw
  let payload ← ((obtainPayload fw o e.linux).noting
    fun status => Component.boot.error s!"Failed to load payload: {status.text}").run
  match payload with
  | .error status => return status
  | .ok payload =>
    match ← (offerInitrd fw o e.initrd).run with
    | .error status => return status
    | .ok () => launch fw o payload e.cmdline

/-- Make one boot attempt while functions that the firmware calls may use it. -/
def runPublished [Allocator] [Zstd.Decoder] (fw : Firmware φ) (o : Options) : Loader φ Status := do
  Loader.modifyShared fun s => { s with published := true }
  let status ← run fw o
  Loader.modifyShared fun s => { s with published := false }
  return status

end EfiLoader.Boot
