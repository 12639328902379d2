import EfiLoader.Proofs.Bench.Boot
import EfiLoader.Proofs.Firmware.LoadOptions
import EfiLoader.Proofs.Loader.Execution

/-!
# EfiLoader.Proofs.Loader.LoadOptions

Load options of images that are started.  The loader lends them to the record of an
image for as long as its code runs, and takes them back when it returns:

* `startBy`, `runThroughFirmwareBy` — images whose code may do anything, also with the
  records;
* `lends_startBy`, `lends_runThroughFirmwareBy` — what is lent to them;
* `ensures_startBy`, `ensures_runThroughFirmware` — no record keeps what it was lent;
* `recorded_after` — so none has any options, whatever has been loaded, started and
  unloaded, but what the firmware has made with some on the way (`ImageUse.Made`).
-/

namespace EfiLoader

open Log Text Pe

variable {φ : Type} {fw : Firmware φ}

/-! ## lending -/

/-- The machine with load options in the record that an interface names. -/
def Machine.lend (record : Interface) (units : List UInt16) (s : Machine φ) : Machine φ :=
  { s with shared := Boot.withLoadOptions (.ok record) units s.shared }

theorem Machine.image?_lend (record : Interface) (units : List UInt16) (s : Machine φ) :
    (s.lend record units).shared.objects.image? record =
      (s.shared.objects.image? record).map fun r => r.setLoadOptions units :=
  Objects.image?_updateImage_self _ _ _

/-- From the machine `before`, the code is run on the machine `running`, where the record
has the given load options.  The outcome has the status that the code has returned, and
the record, if the code has left it, has no options. -/
structure Lends (code : Loader φ Status) (record : Interface) (units : List UInt16)
    (before running : Machine φ) (outcome : Status × Machine φ) : Prop where
  during : ∀ r, before.shared.objects.image? record = some r →
    ∃ r', running.shared.objects.image? record = some r' ∧ r'.loadOptions = units
  status : outcome.1 = (Loader.ends code running).1
  left : (outcome.2.shared.objects.image? record).isSome =
    ((Loader.ends code running).2.shared.objects.image? record).isSome
  after : ∀ r, outcome.2.shared.objects.image? record = some r → r.Unlent

theorem lends_lend {code : Loader φ Status} {record : Interface} {units : List UInt16}
    {before running : Machine φ} {outcome : Status × Machine φ} (hunits : units.length < 2 ^ 31)
    (hbefore : running.shared = (before.lend record units).shared)
    (hstatus : outcome.1 = (Loader.ends code running).1)
    (hafter : outcome.2.shared = ((Loader.ends code running).2.lend record []).shared) :
    Lends code record units before running outcome := by
  refine ⟨?_, hstatus, ?_, ?_⟩
  · intro r hr
    refine ⟨r.setLoadOptions units, ?_, r.loadOptions_setLoadOptions hunits⟩
    rw [hbefore, Machine.image?_lend, hr, Option.map_some]
  · rw [hafter, Machine.image?_lend, Option.isSome_map]
  · intro r hr
    rw [hafter, Machine.image?_lend, Option.map_eq_some_iff] at hr
    obtain ⟨r', -, rfl⟩ := hr
    exact r'.unlent_setLoadOptions_nil

/-! ## code that is started -/

namespace LoadedImage

/-- Start an image whose code is `code`. -/
def startBy (fw : Firmware φ) (code : Handle → Nat → Loader φ Status) (image : LoadedImage)
    (options : List UInt16) : Loader φ Status := do
  match ← Loader.call (fw.interface image.handle .loadedImage) with
  | .error status =>
    note (Component.image.error s!"Image handle has no loaded image protocol: {status.text}")
    return status
  | .ok record =>
    setLoadOptions record options
    note (Component.image.info s!"Executing image at {hex image.entryPoint}")
    let status ← code image.handle image.entryPoint
    note (Component.image.info s!"Image returned with status: {status.text}")
    setLoadOptions record []
    return status

/-- The firmware transfers control to the code of an image. -/
theorem start_eq_startBy (fw : Firmware φ) : start fw =
    startBy fw fun h entryPoint => Loader.hand (fw.transfer h entryPoint) := rfl

variable {image : LoadedImage} {options : List UInt16}
  {code : Handle → Nat → Loader φ Status}

theorem ends_startBy_of_ok {s : Machine φ} {record : Interface} {f : φ}
    (hrecord : fw.interface image.handle .loadedImage s.firmware = (.ok record, f)) :
    Loader.ends (startBy fw code image options) s =
      let ended := Loader.ends (code image.handle image.entryPoint)
        (Machine.lend record options ⟨f, s.shared⟩)
      (ended.1, ended.2.lend record []) := by
  rw [startBy, Loader.ends_bind, Loader.ends_call, hrecord]
  rfl

/-- An image without a record is not started. -/
theorem ends_startBy_of_error {s : Machine φ} {status : Status} {f : φ}
    (hrecord : fw.interface image.handle .loadedImage s.firmware = (.error status, f)) :
    Loader.ends (startBy fw code image options) s = (status, ⟨f, s.shared⟩) := by
  rw [startBy, Loader.ends_bind, Loader.ends_call, hrecord]
  rfl

/-- An image that is started has the options as long as its code runs. -/
theorem lends_startBy {s : Machine φ} {record : Interface} {f : φ}
    (hoptions : options.length < 2 ^ 31)
    (hrecord : fw.interface image.handle .loadedImage s.firmware = (.ok record, f)) :
    Lends (code image.handle image.entryPoint) record options s
      (Machine.lend record options ⟨f, s.shared⟩)
      (Loader.ends (startBy fw code image options) s) := by
  rw [ends_startBy_of_ok hrecord]
  exact lends_lend hoptions rfl rfl rfl

end LoadedImage

namespace Boot

/-- Load, start and unload an image with the firmware's loader, whose code is `code`. -/
def runThroughFirmwareBy (fw : Firmware φ) (code : Handle → Loader φ Status) (data : ByteArray)
    (options : List UInt16) : Loader φ Status := do
  match ← loadWithFirmware fw data with
  | .error status =>
    note (Component.boot.error s!"Firmware failed to load image: {status.text}")
    return status
  | .ok handle =>
    let record ← Loader.call (fw.interface handle .loadedImage)
    if let .ok record := record then
      LoadedImage.setLoadOptions record options
    note (Component.boot.info s!"Starting image {handle.text} through firmware")
    let status ← code handle
    note (Component.boot.info s!"Image returned with status: {status.text}")
    if let .ok record := record then
      LoadedImage.setLoadOptions record []
    let unloaded ← Loader.call (fw.unloadImage handle)
    if unloaded.isError then
      note (Component.boot.warn s!"Firmware failed to unload image: {unloaded.text}")
    return status

/-- The firmware starts the code of an image that it has loaded. -/
theorem runThroughFirmware_eq_by (fw : Firmware φ) : runThroughFirmware fw =
    runThroughFirmwareBy fw fun h => Loader.hand (fw.startImage h) := rfl

variable {code : Handle → Loader φ Status} {data : ByteArray} {options : List UInt16}
  {h : Handle}

/-- What the firmware has loaded is started and unloaded, and its record has the options
meanwhile. -/
theorem ends_runThroughFirmwareBy_of_ok {s loaded : Machine φ} {record : Interface} {f : φ}
    (hload : Loader.ends (loadWithFirmware fw data) s = (.ok h, loaded))
    (hrecord : fw.interface h .loadedImage loaded.firmware = (.ok record, f)) :
    Loader.ends (runThroughFirmwareBy fw code data options) s =
      let ended := Loader.ends (code h) (Machine.lend record options ⟨f, loaded.shared⟩)
      let returned := ended.2.lend record []
      (ended.1, ⟨(fw.unloadImage h returned.firmware).2, returned.shared⟩) := by
  have hcall : Loader.ends (Loader.call (fw.interface h .loadedImage)) loaded =
      (.ok record, ⟨f, loaded.shared⟩) := by
    rw [Loader.ends_call, hrecord]
  rw [runThroughFirmwareBy, Loader.ends_bind, hload]
  dsimp only
  rw [Loader.ends_bind, hcall]
  exact ends_unloadImage h _

/-- An image that the firmware starts has the options as long as its code runs. -/
theorem lends_runThroughFirmwareBy {s loaded : Machine φ} {record : Interface} {f : φ}
    (hoptions : options.length < 2 ^ 31)
    (hload : Loader.ends (loadWithFirmware fw data) s = (.ok h, loaded))
    (hrecord : fw.interface h .loadedImage loaded.firmware = (.ok record, f)) :
    Lends (code h) record options loaded (Machine.lend record options ⟨f, loaded.shared⟩)
      (Loader.ends (runThroughFirmwareBy fw code data options) s) := by
  rw [ends_runThroughFirmwareBy_of_ok hload hrecord]
  exact lends_lend hoptions rfl rfl rfl

end Boot

/-! ## attempts -/

/-- Files are opened and read in lockstep with themselves. -/
theorem Firmware.opens_self (fw : Firmware φ) : fw.Opens Eq (fun _ => True) fw := by
  have halike : ∀ {α : Type} (m : StateM φ α), Alike Eq (fun _ => True) m m := by
    rintro α m s _ rfl
    exact ⟨rfl, trivial, rfl⟩
  rintro path s _ rfl
  refine ⟨rfl, ?_, rfl⟩
  cases (fw.openFile path s).value.1 with
  | error status => exact .error status trivial
  | ok file =>
    exact .ok file file ⟨rfl, fun n => (halike _).mono fun _ _ _ _ => trivial⟩ (halike _)

namespace Boot

/-- What comes along in the loader's own image. -/
def ownParts (fw : Firmware φ) : Embedded :=
  match (Embedded.find fw.ownImage).run.value with
  | .ok e => e
  | .error _ => {}

theorem ends_embedded (fw : Firmware φ) (s : Machine φ) :
    Loader.ends (embedded fw) s = (ownParts fw, s) := by
  unfold embedded ownParts
  rw [Loader.ends_bind, Loader.ends_logged, Loader.ends_bind, Loader.ends_logged]
  cases (Embedded.find fw.ownImage).run.value with
  | ok e => rfl
  | error e => rfl

section Ensures

variable {P Q : Machine φ → Prop} {data : ByteArray} {options : List UInt16}

/-- An image is loaded, started and unloaded, if it can be. -/
theorem ensures_runBuiltin_of (hPQ : ∀ s, P s → Q s)
    (hload : Attempt.Ensures P (LoadedImage.load fw data) (fun _ => P) P)
    (hstart : ∀ image, Loader.Ensures P (LoadedImage.start fw image options) fun _ => Q)
    (hunload : ∀ h, Loader.Ensures Q (LoadedImage.unload fw h) fun _ => Q) :
    Loader.Ensures P (runBuiltin fw data options) fun _ => Q := by
  unfold runBuiltin
  refine Loader.Ensures.bind hload fun answer => ?_
  cases answer with
  | error status => exact Loader.Ensures.note_bind (Loader.Ensures.pure hPQ)
  | ok image =>
    refine Loader.Ensures.bind (hstart image) fun status => ?_
    refine Loader.Ensures.bind (hunload image.handle) fun unloaded => ?_
    exact Loader.Ensures.note_if_bind (Loader.Ensures.pure fun s hs => hs)

/-- An image is unloaded, and its status is the answer. -/
theorem ensures_unloadImage_of {h : Handle}
    (hcall : ∀ s, P s → P { s with firmware := (fw.unloadImage h s.firmware).2 })
    (status : Status) :
    Loader.Ensures P
      (do
        let unloaded ← Loader.call (fw.unloadImage h)
        if unloaded.isError then
          note (Component.boot.warn s!"Firmware failed to unload image: {unloaded.text}")
        return status) fun _ => P :=
  Loader.Ensures.bind (R := fun _ => P) (Loader.Ensures.call hcall) fun _ =>
    Loader.Ensures.note_if_bind (Loader.Ensures.pure fun _ hs => hs)

/-- One of the two loaders runs it, or none does. -/
theorem ensures_runImage_of (hPQ : ∀ s, P s → Q s)
    (hbuiltin : Loader.Ensures P (runBuiltin fw data options) fun _ => Q)
    (hthrough : Loader.Ensures P (runThroughFirmware fw data options) fun _ => Q)
    (mode : LoaderChoice) : Loader.Ensures P (runImage fw mode data options) fun _ => Q := by
  unfold runImage
  cases mode with
  | firmware => exact hthrough
  | builtin =>
    refine Loader.Ensures.bind (R := fun _ => P) (Loader.Ensures.logged fun s hs => hs)
      fun parsed => ?_
    refine Loader.Ensures.bind (R := fun _ => P) (Loader.Ensures.logged fun s hs => hs)
      fun answer => ?_
    cases answer with
    | ok _ => exact hbuiltin
    | error status =>
      dsimp only
      split
      · exact Loader.Ensures.note_bind hthrough
      · exact Loader.Ensures.note_bind (Loader.Ensures.pure hPQ)

/-- An attempt reads what there is to read and offers the initrd; if that succeeds, it
runs the payload with its options and withdraws the initrd. -/
theorem ensures_run_through [Allocator] [Zstd.Decoder] {o : Options}
    {R T : Buffer → Machine φ → Prop}
    (hpayload : Attempt.Ensures P (obtainPayload fw o (ownParts fw).linux) R Q)
    (hoffer : ∀ payload, Attempt.Ensures (R payload) (offerInitrd fw o (ownParts fw).initrd)
      (fun _ => T payload) Q)
    (hrun : ∀ payload, Loader.Ensures (T payload) (runImage fw o.mode payload.committed
      (payloadOptions o (ownParts fw).cmdline).value) fun _ => Q)
    (hwithdraw : Loader.Ensures Q (Initrd.deregister fw) fun _ => Q) :
    Loader.Ensures P (run fw o) fun _ => Q := by
  have hembedded : Loader.Ensures P (embedded fw) fun e s => e = ownParts fw ∧ P s := by
    intro s hs
    have hends : (embedded fw s).value = (ownParts fw, s) := ends_embedded fw s
    rw [hends]
    exact ⟨rfl, hs⟩
  unfold run
  refine Loader.Ensures.bind hembedded fun e => Loader.Ensures.of_and fun he => ?_
  subst he
  refine Loader.Ensures.bind (Attempt.Ensures.noting hpayload) fun payload => ?_
  cases payload with
  | error status => exact Loader.Ensures.pure fun s hs => hs
  | ok payload =>
    refine Loader.Ensures.bind (hoffer payload) fun offered => ?_
    cases offered with
    | error status => exact Loader.Ensures.pure fun s hs => hs
    | ok _ =>
      unfold launch
      refine Loader.Ensures.bind (R := fun options s =>
        options = (payloadOptions o (ownParts fw).cmdline).value ∧ T payload s)
        (Loader.Ensures.logged fun s hs => ⟨rfl, hs⟩) fun options => ?_
      refine Loader.Ensures.of_and fun hoptions => ?_
      subst hoptions
      refine Loader.Ensures.bind (hrun payload) fun status => ?_
      refine Loader.Ensures.bind hwithdraw fun withdrawn => ?_
      exact Loader.Ensures.note_if_bind (Loader.Ensures.pure fun s hs => hs)

/-- What holds until the payload is run need not depend on it. -/
theorem ensures_run_of [Allocator] [Zstd.Decoder] {o : Options} (hPQ : ∀ s, P s → Q s)
    (hpayload : ∀ linux, Attempt.Ensures P (obtainPayload fw o linux) (fun _ => P) P)
    (hoffer : ∀ initrd, Attempt.Ensures P (offerInitrd fw o initrd) (fun _ => P) P)
    (hrun : ∀ mode data, Loader.Ensures P
      (runImage fw mode data (payloadOptions o (ownParts fw).cmdline).value) fun _ => Q)
    (hwithdraw : Loader.Ensures Q (Initrd.deregister fw) fun _ => Q) :
    Loader.Ensures P (run fw o) fun _ => Q :=
  ensures_run_through ((hpayload _).mono_error hPQ) (fun _ => (hoffer _).mono_error hPQ)
    (fun payload => hrun o.mode payload.committed) hwithdraw

end Ensures

end Boot

/-! ## records -/

/-- What holds of all records of a machine. -/
def Recorded (P : Interface → ImageRecord → Prop) (s : Machine φ) : Prop :=
  s.shared.objects.Records P

theorem Recorded.mono {P Q : Interface → ImageRecord → Prop} {s : Machine φ}
    (h : Recorded P s) (hPQ : ∀ i r, P i r → Q i r) : Recorded Q s :=
  fun i r hr => hPQ i r (h i r hr)

/-- The firmware makes the record `r` for `i` when it is asked to load `data` on the
machine `s`. -/
def Firmware.Makes (fw : Firmware φ) (s : Machine φ) (data : ByteArray) (i : Interface)
    (r : ImageRecord) : Prop :=
  i = .image s.shared.objects.next ∧
    (fw.loadImage data s.shared.objects.next s.firmware).1.2 = some r

/-- From `start`, an attempt gets as far as running the payload, on the machine `s`. -/
def Boot.Readies [Allocator] [Zstd.Decoder] (fw : Firmware φ) (o : Options)
    (start : Machine φ) (payload : Buffer) (s : Machine φ) : Prop :=
  ∃ s₁, Attempt.ends (obtainPayload fw o (ownParts fw).linux) start = (.ok payload, s₁) ∧
    Attempt.ends (offerInitrd fw o (ownParts fw).initrd) s₁ = (.ok (), s)

/-- What holds of all records but that of an interface. -/
def Besides (record : Interface) (P : Interface → ImageRecord → Prop) (i : Interface)
    (r : ImageRecord) : Prop :=
  i ≠ record → P i r

section Records

variable {P : Interface → ImageRecord → Prop}

theorem recorded_lend {s : Machine φ} (h : Recorded P s) (record : Interface)
    (units : List UInt16) : Recorded (Besides record P) (s.lend record units) :=
  h.updateImage (fun _ _ hne => absurd rfl hne) fun _ _ _ hr _ => hr

/-- Options that are taken back leave a record that is like the others. -/
theorem recorded_lend_nil (hP : ∀ i r, r.Unlent → P i r) {s : Machine φ} {record : Interface}
    (h : Recorded (Besides record P) s) : Recorded P (s.lend record []) :=
  h.updateImage (fun r _ => hP _ _ r.unlent_setLoadOptions_nil) fun _ _ hne hr => hr hne

theorem ensures_lend (record : Interface) (units : List UInt16) :
    Loader.Ensures (Recorded P) (LoadedImage.setLoadOptions record units : Loader φ Unit)
      fun _ => Recorded (Besides record P) :=
  Loader.Ensures.modifyObjects fun _ hs => recorded_lend hs record units

theorem ensures_lend_nil (hP : ∀ i r, r.Unlent → P i r) (record : Interface) :
    Loader.Ensures (Recorded (Besides record P))
      (LoadedImage.setLoadOptions record [] : Loader φ Unit) fun _ => Recorded P :=
  Loader.Ensures.modifyObjects fun _ hs => recorded_lend_nil hP hs

/-- Calls of the firmware leave the records as they are. -/
theorem ensures_call {α : Type} (m : StateM φ (Except Status α)) :
    Attempt.Ensures (Recorded P) (Attempt.ofLoader (Loader.call m)) (fun _ => Recorded P)
      (Recorded P) := by
  refine Attempt.Ensures.ofLoader (Loader.Ensures.call fun s hs => ?_)
  split
  · exact hs
  · exact hs

/-! ## loading -/

theorem ensures_release (b : PageBuffer) :
    Loader.Ensures (Recorded P) (b.release fw) fun _ => Recorded P := by
  unfold PageBuffer.release
  refine Loader.Ensures.bind (R := fun _ => Recorded P) (Loader.Ensures.call fun s hs => hs)
    fun status => ?_
  split
  · exact Loader.Ensures.logged fun s hs => hs
  · exact Loader.Ensures.pure fun s hs => hs

theorem ensures_allocate (size alignment : Nat) (memoryType : UInt32) :
    Attempt.Ensures (Recorded P) (PageBuffer.allocate fw size alignment memoryType)
      (fun _ => Recorded P) (Recorded P) := by
  unfold PageBuffer.allocate
  dsimp only
  split
  · exact Attempt.Ensures.throw fun s hs => hs
  split
  · exact Attempt.Ensures.throw fun s hs => hs
  refine Attempt.Ensures.bind (R := fun _ => Recorded P)
    (Attempt.Ensures.noting (ensures_call _)) fun address => ?_
  unfold PageBuffer.carve
  split
  · refine Attempt.Ensures.bind (R := fun _ => Recorded P)
      (Attempt.Ensures.lift (ensures_release _)) fun _ => ?_
    exact Attempt.Ensures.throw fun s hs => hs
  · refine Attempt.Ensures.note_bind (Attempt.Ensures.bind (R := fun _ => Recorded P)
      (Attempt.Ensures.lift (Loader.Ensures.modifyShared fun s hs => hs)) fun _ => ?_)
    exact Attempt.Ensures.pure fun s hs => hs

theorem ensures_placeImage (h : Headers) (source : ByteArray) :
    Attempt.Ensures (Recorded P) (placeImage fw h source) (fun _ => Recorded P)
      (Recorded P) := by
  unfold placeImage
  refine Attempt.Ensures.bind (ensures_allocate _ _ _) fun b => ?_
  refine Attempt.Ensures.bind (R := fun _ => Recorded P)
    (Attempt.Ensures.orElseDo (Bench.ensures_imageMemory h source b.base) (ensures_release b))
    fun region => ?_
  refine Attempt.Ensures.bind (R := fun _ => Recorded P)
    (Attempt.Ensures.lift (Loader.Ensures.modifyShared fun s hs => hs)) fun _ => ?_
  exact Attempt.Ensures.pure fun s hs => hs

variable (hP : ∀ i r, ImageRecord.Unlent r → P i r)

include hP

/-- The record of an image that is loaded has no options. -/
theorem ensures_describe (b : PageBuffer) (h : Headers) :
    Loader.Ensures (Recorded P) (LoadedImage.describe fw b h) fun _ => Recorded P := by
  intro s hs
  change Recorded P (Loader.ends (LoadedImage.describe fw b h) s).2
  rw [LoadedImage.ends_describe]
  exact (Objects.Records.addPath hs _).addImage (hP _ _ ⟨rfl, rfl⟩)

theorem ensures_install (b : PageBuffer) (h : Headers) :
    Attempt.Ensures (Recorded P) (LoadedImage.install fw b h) (fun _ => Recorded P)
      (Recorded P) := by
  unfold LoadedImage.install
  refine Attempt.Ensures.bind (Attempt.Ensures.lift (ensures_describe hP b h)) fun is => ?_
  refine Attempt.Ensures.bind (R := fun _ => Recorded P)
    (Attempt.Ensures.lift (Loader.Ensures.call fun s hs => hs)) fun answer => ?_
  cases answer with
  | ok handle => exact Attempt.Ensures.note_bind (Attempt.Ensures.pure fun s hs => hs)
  | error status =>
    refine Attempt.Ensures.note_bind (Attempt.Ensures.bind (R := fun _ => Recorded P)
      (Attempt.Ensures.lift (Loader.Ensures.modifyObjects fun s hs => ?_)) fun _ => ?_)
    · exact (Objects.Records.remove hs _).remove _
    · refine Attempt.Ensures.bind (R := fun _ => Recorded P)
        (Attempt.Ensures.lift (ensures_release b)) fun _ => ?_
      exact Attempt.Ensures.throw fun s hs => hs

/-- An image is loaded with a record like the others. -/
theorem ensures_loadFor (data : ByteArray) (platform : Platform) :
    Attempt.Ensures (Recorded P) (LoadedImage.loadFor fw data platform) (fun _ => Recorded P)
      (Recorded P) := by
  unfold LoadedImage.loadFor
  dsimp only
  split
  · exact Attempt.Ensures.note_bind (Attempt.Ensures.throw fun s hs => hs)
  refine Attempt.Ensures.bind (R := fun _ => Recorded P)
    (Attempt.Ensures.logged fun s hs => hs) fun parsed => ?_
  refine Attempt.Ensures.bind (R := fun _ => Recorded P)
    (Attempt.Ensures.settle (fun _ s _ hs => hs) fun s hs => hs) fun h => ?_
  refine Attempt.Ensures.bind (ensures_placeImage h data) fun b => ?_
  refine Attempt.Ensures.bind (ensures_install hP b h) fun image => ?_
  exact Attempt.Ensures.note_bind (Attempt.Ensures.pure fun s hs => hs)

/-! ## starting -/

/-- Code that leaves the other records as they should be leaves all of them so, since
its own has its options taken back. -/
theorem ensures_startBy {code : Handle → Nat → Loader φ Status} {image : LoadedImage}
    (hcode : ∀ record, Loader.Ensures (Recorded (Besides record P))
      (code image.handle image.entryPoint) fun _ => Recorded (Besides record P))
    (options : List UInt16) :
    Loader.Ensures (Recorded P) (LoadedImage.startBy fw code image options)
      fun _ => Recorded P := by
  unfold LoadedImage.startBy
  refine Loader.Ensures.bind (R := fun _ => Recorded P) (Loader.Ensures.call fun s hs => hs)
    fun answer => ?_
  cases answer with
  | error status => exact Loader.Ensures.note_bind (Loader.Ensures.pure fun s hs => hs)
  | ok record =>
    refine Loader.Ensures.bind (ensures_lend record options) fun _ => Loader.Ensures.note_bind ?_
    refine Loader.Ensures.bind (hcode record) fun status => Loader.Ensures.note_bind ?_
    refine Loader.Ensures.bind (ensures_lend_nil hP record) fun _ => ?_
    exact Loader.Ensures.pure fun s hs => hs

/-- Images that the firmware transfers control to do not change the records. -/
theorem ensures_start (image : LoadedImage) (options : List UInt16) :
    Loader.Ensures (Recorded P) (LoadedImage.start fw image options) fun _ => Recorded P := by
  rw [LoadedImage.start_eq_startBy]
  refine ensures_startBy hP (fun record => ?_) options
  exact Loader.Ensures.hand fun s hs => hs

omit hP

/-! ## unloading -/

theorem ensures_close (handle : Handle) (p : Protocol) :
    Loader.Ensures (Recorded P) (do let _ ← Loader.call (fw.close handle p))
      fun _ => Recorded P :=
  Loader.Ensures.bind (R := fun _ => Recorded P) (Loader.Ensures.call fun _ hs => hs)
    fun _ => Loader.Ensures.pure fun _ hs => hs

theorem ensures_discard (handle : Handle) (record path : Interface)
    (range : DevicePath.MemoryMapped) (pages : Nat) :
    Loader.Ensures (Recorded P) (LoadedImage.discard fw handle record path range pages)
      fun _ => Recorded P := by
  have hremove : Loader.Ensures (Recorded P)
      (Loader.modifyObjects fun o => ((), (o.remove record).remove path) : Loader φ Unit)
      fun _ => Recorded P :=
    Loader.Ensures.modifyObjects fun s hs => (Objects.Records.remove hs _).remove _
  unfold LoadedImage.discard
  dsimp only
  refine Loader.Ensures.bind (R := fun _ => Recorded P) (Loader.Ensures.call fun s hs => hs)
    fun status => ?_
  split
  · exact Loader.Ensures.note_bind (Loader.Ensures.pure fun s hs => hs)
  refine Loader.Ensures.bind (R := fun _ => Recorded P) (Loader.Ensures.call fun s hs => hs)
    fun freed => ?_
  split
  · refine Loader.Ensures.note_bind (Loader.Ensures.bind hremove fun _ => ?_)
    exact Loader.Ensures.note_bind (Loader.Ensures.pure fun s hs => hs)
  · refine Loader.Ensures.bind hremove fun _ => ?_
    exact Loader.Ensures.note_bind (Loader.Ensures.pure fun s hs => hs)

/-- Unloading an image can only forget a record. -/
theorem ensures_unload (handle : Handle) :
    Loader.Ensures (Recorded P) (LoadedImage.unload fw handle) fun _ => Recorded P := by
  have hclose : Loader.Ensures (Recorded P)
      (do let _ ← Loader.call (fw.close handle .loadedImageDevicePath)) fun _ => Recorded P :=
    ensures_close handle .loadedImageDevicePath
  have hcloseBoth : Loader.Ensures (Recorded P)
      (do
        let _ ← Loader.call (fw.close handle .loadedImage)
        let _ ← Loader.call (fw.close handle .loadedImageDevicePath)) fun _ => Recorded P :=
    Loader.Ensures.bind (R := fun _ => Recorded P) (Loader.Ensures.call fun s hs => hs)
      fun _ => hclose
  have hrefuse : Loader.Ensures (Recorded P) (pure Status.unsupported : Loader φ Status)
      fun _ => Recorded P := Loader.Ensures.pure fun s hs => hs
  unfold LoadedImage.unload
  dsimp only
  refine Loader.Ensures.bind (R := fun _ => Recorded P) (Loader.Ensures.call fun s hs => hs)
    fun answer => ?_
  cases answer with
  | error status => exact hrefuse
  | ok path =>
    refine Loader.Ensures.bind (R := fun _ => Recorded P) (Loader.Ensures.shared fun s hs => hs)
      fun shared => ?_
    cases (shared.objects.path? path).bind DevicePath.MemoryMapped.read? with
    | none => exact Loader.Ensures.note_bind (Loader.Ensures.bind hclose fun _ => hrefuse)
    | some range =>
      refine Loader.Ensures.bind (R := fun _ => Recorded P) (Loader.Ensures.call fun s hs => hs)
        fun answer => ?_
      cases answer with
      | error status => exact Loader.Ensures.bind hclose fun _ => hrefuse
      | ok record =>
        refine Loader.Ensures.bind (R := fun _ => Recorded P)
          (Loader.Ensures.shared fun s hs => hs) fun shared => ?_
        split
        · exact Loader.Ensures.note_bind (Loader.Ensures.bind hcloseBoth fun _ => hrefuse)
        cases LoadedImage.pagesBetween? range.start range.last with
        | none => exact Loader.Ensures.note_bind (Loader.Ensures.bind hcloseBoth fun _ => hrefuse)
        | some pages =>
          exact Loader.Ensures.bind hcloseBoth fun _ => ensures_discard handle record path _ _

/-! ## reading and the initrd -/

/-- What is read in lockstep with itself leaves the records as they are. -/
theorem ensures_of_maintains {α : Type} {m : Attempt φ α}
    (h : ∀ F, Maintains (Machine.Framed Eq F) (fun _ => True) m m) :
    Attempt.Ensures (Recorded P) m (fun _ => Recorded P) (Recorded P) := by
  intro s hs
  obtain ⟨-, -, -, hleft⟩ := h (fun shared => shared.objects.Records P) s s ⟨rfl, rfl, hs⟩
  split
  · exact hleft.frame
  · exact hleft.frame

theorem ensures_register (data : Buffer) :
    Attempt.Ensures (Recorded P) (Initrd.register fw data) (fun _ => Recorded P)
      (Recorded P) := by
  unfold Initrd.register
  dsimp only
  split
  · exact Attempt.Ensures.note_bind (Attempt.Ensures.pure fun s hs => hs)
  refine Attempt.Ensures.bind (R := fun _ => Recorded P)
    (Attempt.Ensures.lift (Loader.Ensures.shared fun s hs => hs)) fun shared => ?_
  split
  · exact Attempt.Ensures.note_bind (Attempt.Ensures.throw fun s hs => hs)
  refine Attempt.Ensures.bind (R := fun _ => Recorded P)
    (Attempt.Ensures.lift (Loader.Ensures.callSharing fun s hs => hs)) fun answer => ?_
  have hoffer : Attempt.Ensures (Recorded P)
      (do
        let id ← (Loader.modifyObjects Objects.fresh : Loader φ Nat)
        let service := Interface.loadFile id
        let handle ← (Attempt.ofLoader
          (Loader.call (fw.install Handle.null (Initrd.interfaces service)))).noting
            fun status => Component.initrd.error
              s!"Failed to install initrd protocols: {status.text}"
        note (Component.initrd.info s!"Registered {data.remaining.size} byte initrd")
        (Loader.modifyShared fun s => { s with initrd := some ⟨data, handle, service⟩ } :
          Loader φ Unit) : Attempt φ Unit) (fun _ => Recorded P) (Recorded P) := by
    refine Attempt.Ensures.bind (R := fun _ => Recorded P) (Attempt.Ensures.lift
      (Loader.Ensures.modifyObjects fun s hs => Objects.Records.fresh hs)) fun id => ?_
    refine Attempt.Ensures.bind (Attempt.Ensures.noting (ensures_call _)) fun handle => ?_
    exact Attempt.Ensures.note_bind
      (Attempt.Ensures.lift (Loader.Ensures.modifyShared fun s hs => hs))
  cases answer with
  | ok other => exact Attempt.Ensures.note_bind hoffer
  | error status => exact hoffer

theorem ensures_deregister :
    Loader.Ensures (Recorded P) (Initrd.deregister fw) fun _ => Recorded P := by
  unfold Initrd.deregister
  refine Loader.Ensures.bind (R := fun _ => Recorded P) (Loader.Ensures.shared fun s hs => hs)
    fun shared => ?_
  cases shared.initrd with
  | none => exact Loader.Ensures.pure fun s hs => hs
  | some offer =>
    refine Loader.Ensures.bind (R := fun _ => Recorded P) (Loader.Ensures.call fun s hs => hs)
      fun status => ?_
    split
    · exact Loader.Ensures.note_bind (Loader.Ensures.pure fun s hs => hs)
    · refine Loader.Ensures.bind (R := fun _ => Recorded P)
        (Loader.Ensures.modifyShared fun s hs => hs) fun _ => ?_
      exact Loader.Ensures.pure fun s hs => hs

theorem ensures_offerInitrd [Allocator] (o : Options) (embedded : Option ByteArray) :
    Attempt.Ensures (Recorded P) (Boot.offerInitrd fw o embedded) (fun _ => Recorded P)
      (Recorded P) := by
  unfold Boot.offerInitrd
  refine Attempt.Ensures.bind (Attempt.Ensures.noting (ensures_of_maintains fun F =>
    fw.opens_self.obtainInitrd (fun _ => trivial) o embedded)) fun initrd => ?_
  cases initrd with
  | none => exact Attempt.Ensures.pure fun s hs => hs
  | some data => exact ensures_register data

/-! ## either loader -/

theorem ensures_loadWithFirmware (data : ByteArray) :
    Loader.Ensures (fun s => Recorded P s ∧ ∀ i r, fw.Makes s data i r → P i r)
      (Boot.loadWithFirmware fw data) fun _ => Recorded P := by
  unfold Boot.loadWithFirmware
  refine Loader.Ensures.bind
    (R := fun id s => Recorded P s ∧
      ∀ r, (fw.loadImage data id s.firmware).1.2 = some r → P (.image id) r)
    (Loader.Ensures.modifyObjects fun s hs =>
      ⟨Objects.Records.fresh hs.1, fun r hr => hs.2 _ r ⟨rfl, hr⟩⟩) fun id => ?_
  refine Loader.Ensures.bind (R := fun answer s => (∀ r, answer.2 = some r → P (.image id) r) ∧
    Recorded P s) (Loader.Ensures.call fun s hs => ⟨hs.2, hs.1⟩)
    fun answer => Loader.Ensures.of_and fun hanswer => ?_
  obtain ⟨answer, record?⟩ := answer
  cases record? with
  | none => exact Loader.Ensures.pure fun s hs => hs
  | some r =>
    refine Loader.Ensures.bind (R := fun _ => Recorded P) (Loader.Ensures.modifyObjects
      fun s hs => Objects.Records.insertImage hs (hanswer r rfl)) fun _ => ?_
    exact Loader.Ensures.pure fun s hs => hs

include hP

/-- So does an image that the firmware loads, starts and unloads. -/
theorem ensures_runThroughFirmwareBy {code : Handle → Loader φ Status}
    (hcode : ∀ record h, Loader.Ensures (Recorded (Besides record P)) (code h)
      fun _ => Recorded (Besides record P))
    (hunnamed : ∀ h, Loader.Ensures (Recorded P) (code h) fun _ => Recorded P)
    (data : ByteArray) (options : List UInt16) :
    Loader.Ensures (fun s => Recorded P s ∧ ∀ i r, fw.Makes s data i r → P i r)
      (Boot.runThroughFirmwareBy fw code data options) fun _ => Recorded P := by
  unfold Boot.runThroughFirmwareBy
  refine Loader.Ensures.bind (ensures_loadWithFirmware data) fun answer => ?_
  cases answer with
  | error status => exact Loader.Ensures.note_bind (Loader.Ensures.pure fun s hs => hs)
  | ok h =>
    refine Loader.Ensures.bind (R := fun _ => Recorded P) (Loader.Ensures.call fun s hs => hs)
      fun record => ?_
    cases record with
    | error status =>
      refine Loader.Ensures.note_bind (Loader.Ensures.bind (hunnamed h) fun status => ?_)
      exact Loader.Ensures.note_bind (Boot.ensures_unloadImage_of (fun _ hs => hs) status)
    | ok record =>
      refine Loader.Ensures.bind (ensures_lend record options) fun _ => Loader.Ensures.note_bind ?_
      refine Loader.Ensures.bind (hcode record h) fun status => Loader.Ensures.note_bind ?_
      refine Loader.Ensures.bind (ensures_lend_nil hP record) fun _ => ?_
      exact Boot.ensures_unloadImage_of (fun _ hs => hs) status

theorem ensures_runThroughFirmware (data : ByteArray) (options : List UInt16) :
    Loader.Ensures (fun s => Recorded P s ∧ ∀ i r, fw.Makes s data i r → P i r)
      (Boot.runThroughFirmware fw data options) fun _ => Recorded P := by
  rw [Boot.runThroughFirmware_eq_by]
  refine ensures_runThroughFirmwareBy hP (fun record h => ?_) (fun h => ?_) data options
  · exact Loader.Ensures.hand fun s hs => hs
  · exact Loader.Ensures.hand fun s hs => hs

/-- An image is run by either loader. -/
theorem ensures_runImage (mode : LoaderChoice) (data : ByteArray) (options : List UInt16) :
    Loader.Ensures (fun s => Recorded P s ∧ ∀ i r, fw.Makes s data i r → P i r)
      (Boot.runImage fw mode data options) fun _ => Recorded P := by
  have hbuiltin : Loader.Ensures (Recorded P) (Boot.runBuiltin fw data options)
      fun _ => Recorded P :=
    Boot.ensures_runBuiltin_of (fun s hs => hs) (ensures_loadFor hP data Platform.native)
      (fun image => ensures_start hP image options) fun h => ensures_unload h
  exact Boot.ensures_runImage_of (fun s hs => hs.1)
    (hbuiltin.mono (fun s hs => hs.1) fun _ s hs => hs)
    (ensures_runThroughFirmware hP data options) mode

/-- A boot attempt leaves only records like the others, and what the firmware makes of
the payload. -/
theorem ensures_run [Allocator] [Zstd.Decoder] (o : Options) (start : Machine φ)
    (hmakes : ∀ payload s i r, Boot.Readies fw o start payload s →
      fw.Makes s payload.committed i r → P i r) :
    Loader.Ensures (fun s => s = start ∧ Recorded P s) (Boot.run fw o) fun _ => Recorded P := by
  have hpayload := (ensures_of_maintains (P := P) fun _ =>
    fw.opens_self.obtainPayload (fun _ => trivial) o (Boot.ownParts fw).linux).of_eq start
  refine Boot.ensures_run_through
    (T := fun payload s => Boot.Readies fw o start payload s ∧ Recorded P s) hpayload
    (fun payload => ?_) (fun payload => ?_) ensures_deregister
  · rintro s ⟨hobtained, hs⟩
    have hoffer : Attempt.Ensures (Recorded P)
        (Boot.offerInitrd fw o (Boot.ownParts fw).initrd) (fun _ => Recorded P) (Recorded P) :=
      ensures_offerInitrd o _
    have hready : Attempt.Ensures (fun s' => s' = s ∧ Recorded P s')
        (Boot.offerInitrd fw o (Boot.ownParts fw).initrd)
        (fun _ s' => Boot.Readies fw o start payload s' ∧ Recorded P s') (Recorded P) :=
      (hoffer.of_eq s).mono fun _ _ hs' => ⟨⟨s, hobtained, hs'.1⟩, hs'.2⟩
    exact hready s ⟨rfl, hs⟩
  · exact (ensures_runImage hP o.mode payload.committed _).mono
      (fun s hs => ⟨hs.2, fun i r => hmakes payload s i r hs.1⟩) fun _ s hs => hs

end Records

/-! ## one use after the other -/

/-- What is done with images: they are loaded, started and unloaded, or all of it with one
loader, or in a boot attempt. -/
inductive ImageUse where
  | load (data : ByteArray) (platform : Platform)
  | start (image : LoadedImage) (options : List UInt16)
  | unload (handle : Handle)
  | loadWithFirmware (data : ByteArray)
  | runThroughFirmware (data : ByteArray) (options : List UInt16)
  | attempt (o : Options)

namespace ImageUse

/-- The machine after a use. -/
def perform [Allocator] [Zstd.Decoder] (fw : Firmware φ) (s : Machine φ) : ImageUse → Machine φ
  | load data platform => (Attempt.ends (LoadedImage.loadFor fw data platform) s).2
  | start image options => (Loader.ends (LoadedImage.start fw image options) s).2
  | unload handle => (Loader.ends (LoadedImage.unload fw handle) s).2
  | loadWithFirmware data => (Loader.ends (Boot.loadWithFirmware fw data) s).2
  | runThroughFirmware data options =>
    (Loader.ends (Boot.runThroughFirmware fw data options) s).2
  | attempt o => (Loader.ends (Boot.run fw o) s).2

/-- The machine after uses, one after the other. -/
def after [Allocator] [Zstd.Decoder] (fw : Firmware φ) (s : Machine φ) (uses : List ImageUse) :
    Machine φ :=
  uses.foldl (perform fw) s

/-- The records that the firmware makes in a use: one for the image that it loads. -/
def Makes [Allocator] [Zstd.Decoder] (fw : Firmware φ) (s : Machine φ) :
    ImageUse → Interface → ImageRecord → Prop
  | loadWithFirmware data | runThroughFirmware data _ => fw.Makes s data
  | attempt o => fun i r =>
    ∃ payload ready, Boot.Readies fw o s payload ready ∧ fw.Makes ready payload.committed i r
  | load _ _ | start _ _ | unload _ => fun _ _ => False

/-- Those that it makes in uses, one after the other. -/
def Made [Allocator] [Zstd.Decoder] (fw : Firmware φ) (i : Interface) (r : ImageRecord) :
    Machine φ → List ImageUse → Prop
  | _, [] => False
  | s, use :: uses => Makes fw s use i r ∨ Made fw i r (perform fw s use) uses

variable {P : Interface → ImageRecord → Prop} (hP : ∀ i r, ImageRecord.Unlent r → P i r)

include hP

/-- No use leaves load options in a record, but the firmware can make one with some. -/
theorem recorded_perform [Allocator] [Zstd.Decoder] {s : Machine φ} (h : Recorded P s)
    (use : ImageUse) : Recorded (fun i r => P i r ∨ Makes fw s use i r) (perform fw s use) := by
  have hP' : ∀ i r, ImageRecord.Unlent r → P i r ∨ Makes fw s use i r :=
    fun i r hr => .inl (hP i r hr)
  have h' : Recorded (fun i r => P i r ∨ Makes fw s use i r) s := h.mono fun _ _ => Or.inl
  cases use with
  | load data platform => exact (ensures_loadFor hP' data platform).either s h'
  | start image options => exact ensures_start hP' image options s h'
  | unload handle => exact ensures_unload handle s h'
  | loadWithFirmware data =>
    exact ensures_loadWithFirmware data s ⟨h', fun _ _ hr => .inr hr⟩
  | runThroughFirmware data options =>
    exact ensures_runThroughFirmware hP' data options s ⟨h', fun _ _ hr => .inr hr⟩
  | attempt o =>
    exact ensures_run hP' o s (fun payload ready _ _ hready hr =>
      .inr ⟨payload, ready, hready, hr⟩) s ⟨rfl, h'⟩

theorem recorded_after [Allocator] [Zstd.Decoder] {s : Machine φ} (h : Recorded P s)
    (uses : List ImageUse) :
    Recorded (fun i r => P i r ∨ Made fw i r s uses) (after fw s uses) := by
  induction uses generalizing s P with
  | nil => exact h.mono fun _ _ => Or.inl
  | cons use uses ih =>
    have hnext : Recorded (fun i r => (P i r ∨ Makes fw s use i r) ∨
        Made fw i r (perform fw s use) uses) (after fw (perform fw s use) uses) :=
      ih (fun i r hr => .inl (hP i r hr)) (recorded_perform hP h use)
    exact hnext.mono fun i r => or_assoc.mp

end ImageUse

end EfiLoader
