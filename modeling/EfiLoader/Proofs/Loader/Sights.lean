import EfiLoader.Proofs.Loader.LoadOptions
import EfiLoader.Proofs.Options.Units

/-!
# EfiLoader.Proofs.Loader.Sights

What images see of load options.  A firmware keeps a list of what was shared with each
image when it was started, and which record the loader had found for it:

* `Firmware.sighted` — the firmware with its list, which the loader does not notice;
* `ensures_seen_run` — whoever a boot attempt starts has been lent its options;
* `CommandLine` — the text that these options say;
* `lent_while_running` — load options are lent, read and taken back.
-/

namespace EfiLoader

open Log Text Pe

variable {φ α : Type}

/-! ## sights -/

/-- What there was to see when an image was started: which record had been found, and
what was shared. -/
structure Sight where
  found : Except Status Interface
  shared : Shared

/-- The record, if one had been found. -/
def Sight.record? (x : Sight) : Option ImageRecord :=
  match x.found with
  | .error _ => none
  | .ok record => x.shared.objects.image? record

/-- The record, if there is one, has the load options. -/
def Sight.Reads (units : List UInt16) (x : Sight) : Prop :=
  ∀ r, x.record? = some r → r.loadOptions = units

/-- A firmware's state, the answer when it was last asked for a record, and what there
was to see for the images that were started, the oldest first. -/
structure Sighted (φ : Type) where
  state : φ
  found : Except Status Interface := .error Status.notFound
  sights : List Sight := []

namespace Sighted

/-- A call that is only passed on. -/
def pass (m : StateM φ α) : StateM (Sighted φ) α := fun w =>
  ((m w.state).1, { w with state := (m w.state).2 })

/-- The answer to the question for a record is kept. -/
def ask (p : Protocol) (m : StateM φ (Except Status Interface)) :
    StateM (Sighted φ) (Except Status Interface) := fun w =>
  ((m w.state).1, { w with
    state := (m w.state).2
    found := if p = .loadedImage then (m w.state).1 else w.found })

/-- What there is to see is kept before an image is started. -/
def sight (shared : Shared) (m : StateT φ Logged Status) : StateT (Sighted φ) Logged Status :=
  fun w => ⟨(m w.state).lines, (m w.state).value.1, { w with
    state := (m w.state).value.2
    sights := w.sights ++ [⟨w.found, shared⟩] }⟩

/-- An open file whose uses are only passed on. -/
def passFile (f : OpenFile φ) : OpenFile (Sighted φ) where
  source := { size := f.source.size, read := fun n => pass (f.source.read n) }
  close := pass f.close

end Sighted

open Sighted in
/-- The firmware `fw`, with what there was to see for every image. -/
def Firmware.sighted (fw : Firmware φ) : Firmware (Sighted φ) where
  allocatePages memoryType pages := pass (fw.allocatePages memoryType pages)
  freePages address pages := pass (fw.freePages address pages)
  install h is := pass (fw.install h is)
  uninstall h is := pass (fw.uninstall h is)
  openExclusive h p := pass (fw.openExclusive h p)
  close h p := pass (fw.close h p)
  interface h p := ask p (fw.interface h p)
  locate p path shared := pass (fw.locate p path shared)
  transfer h entryPoint shared := sight shared (fw.transfer h entryPoint shared)
  loadImage data id := pass (fw.loadImage data id)
  startImage h shared := sight shared (fw.startImage h shared)
  unloadImage h := pass (fw.unloadImage h)
  openFile path := fun w =>
    let opened := fw.openFile path w.state
    ⟨opened.lines, opened.value.1.map passFile, { w with state := opened.value.2 }⟩
  imageHandle := fw.imageHandle
  systemTable := fw.systemTable
  deviceHandle := fw.deviceHandle
  ownImage := fw.ownImage
  loadOptions := fw.loadOptions

/-- The machine before anything was started. -/
def Machine.sighted (m : Machine φ) : Machine (Sighted φ) := ⟨{ state := m.firmware }, m.shared⟩

/-- The machine without the list. -/
def Machine.unsighted (w : Machine (Sighted φ)) : Machine φ := ⟨w.firmware.state, w.shared⟩

/-! ## in lockstep -/

namespace Sighted

/-- The firmware is in the state `s`, and `L` holds of the sights. -/
def Of (L : List Sight → Prop) (w : Sighted φ) (s : φ) : Prop := w.state = s ∧ L w.sights

variable {L : List Sight → Prop}

theorem alike_pass (m : StateM φ α) : Alike (Of L) (fun _ => True) (pass m) m := by
  rintro w _ ⟨rfl, hL⟩
  exact ⟨rfl, trivial, rfl, hL⟩

theorem lockstep_sight (shared : Shared) (m : StateT φ Logged Status) :
    Lockstep (Of fun _ => True) (sight shared m) m fun _ => Of fun _ => True := by
  rintro w _ ⟨rfl, -⟩
  exact ⟨rfl, rfl, rfl, trivial⟩

end Sighted

open Sighted

/-- Calls are answered as without the list, and add nothing to it. -/
theorem Firmware.keeps_sighted (fw : Firmware φ) (L : List Sight → Prop) :
    fw.sighted.Keeps (Of L) (fun _ => True) fw := by
  have hfails {α : Type} (m : StateM φ (Except Status α)) :
      Alike (Of L) (OnlyFails fun _ => True) (pass m) m :=
    (alike_pass m).mono fun _ _ _ _ => trivial
  exact
    { allocatePages := fun _ _ => hfails _
      freePages := fun _ _ => alike_pass _
      install := fun _ _ => hfails _
      uninstall := fun _ _ => alike_pass _
      openExclusive := fun _ _ => hfails _
      close := fun _ _ => alike_pass _
      interface := by
        rintro h p w _ ⟨rfl, hL⟩
        exact ⟨rfl, fun _ _ => trivial, rfl, hL⟩
      locate := fun _ _ _ => hfails _
      loadImage := fun _ _ => (alike_pass _).mono fun _ _ _ _ => trivial
      unloadImage := fun _ => alike_pass _
      imageHandle := rfl
      systemTable := rfl
      deviceHandle := rfl
      ownImage := rfl }

/-- So are files, and what is read of them. -/
theorem Firmware.opens_sighted (fw : Firmware φ) (L : List Sight → Prop) :
    fw.sighted.Opens (Of L) (fun _ => True) fw := by
  rintro path w _ ⟨rfl, hL⟩
  refine ⟨rfl, ?_, rfl, hL⟩
  show SameFile _ _ ((fw.openFile path w.state).value.1.map passFile) _
  cases (fw.openFile path w.state).value.1 with
  | error status => exact .error status trivial
  | ok file =>
    have hread : ∀ n, Alike (Of L) (OnlyFails fun _ => True) ((passFile file).source.read n)
        (file.source.read n) := fun n => (alike_pass _).mono fun _ _ _ _ => trivial
    exact .ok _ _ ⟨rfl, hread⟩ (alike_pass _)

theorem Firmware.starts_sighted (fw : Firmware φ) :
    fw.sighted.Starts (Of fun _ => True) (fun _ => Of fun _ => True) fw where
  transfer _ _ _ := lockstep_sight _ _
  startImage _ _ := lockstep_sight _ _

/-- In lockstep with a computation without a list. -/
theorem Machine.InStep.unsighted_eq {L : List Sight → Prop} {w : Machine (Sighted φ)}
    {m : Machine φ} (h : w.InStep (Of L) m) : w.unsighted = m := by
  obtain ⟨⟨state, found, sights⟩, shared⟩ := w
  obtain ⟨⟨rfl, -⟩, rfl, -⟩ := h
  rfl

/-- A boot attempt does not notice the list. -/
theorem ends_run_sighted [Allocator] [Zstd.Decoder] (fw : Firmware φ) (o : Options)
    (m : Machine φ) :
    let run := Loader.ends (Boot.run fw.sighted o) m.sighted
    Loader.ends (Boot.run fw o) m = (run.1, run.2.unsighted) := by
  obtain ⟨-, hstatus, hended⟩ := (fw.keeps_sighted fun _ => True).run
    (fun _ => fw.keeps_sighted fun _ => True) fw.starts_sighted (fw.opens_sighted _)
    (fun _ => trivial) o m.sighted m ⟨⟨rfl, trivial⟩, rfl, trivial⟩
  have hmachine := hended.elim (fun h => h.2.unsighted_eq) Machine.InStep.unsighted_eq
  exact Prod.ext hstatus.symm hmachine.symm

/-! ## what images see -/

/-- `L` holds of the sights. -/
def Seen (L : List Sight → Prop) (w : Machine (Sighted φ)) : Prop := L w.firmware.sights

/-- Everything that was started could read the load options. -/
abbrev SeenAll (units : List UInt16) : Machine (Sighted φ) → Prop :=
  Seen fun sights => ∀ x ∈ sights, x.Reads units

section Seen

variable {L : List Sight → Prop} {fw : Firmware φ} {units : List UInt16}

/-- Nothing has been started that could not. -/
theorem seenAll_of_none {w : Machine (Sighted φ)} (h : Seen (· = []) w) : SeenAll units w := by
  intro x hx
  unfold Seen at h
  rw [h] at hx
  exact (List.not_mem_nil hx).elim

/-- What is done in lockstep adds nothing to the list. -/
theorem ensures_seen_of_lockstep {m : Loader (Sighted φ) α} {m' : Loader φ α}
    (h : Lockstep (Machine.InStep (Of L)) m m' fun _ => Machine.InStep (Of L)) :
    Loader.Ensures (Seen L) m fun _ => Seen L := by
  intro w hw
  obtain ⟨-, -, hleft⟩ := h w w.unsighted ⟨⟨rfl, hw⟩, rfl, trivial⟩
  exact hleft.firmware.2

theorem ensures_seen_of_maintains {m : Attempt (Sighted φ) α} {m' : Attempt φ α}
    (h : Maintains (Machine.InStep (Of L)) (fun _ => True) m m') :
    Attempt.Ensures (Seen L) m (fun _ => Seen L) (Seen L) := by
  intro w hw
  have hleft := ensures_seen_of_lockstep (h.mono (fun _ _ hst => hst) fun _ _ _ hst => hst.2) w hw
  split
  · exact hleft
  · exact hleft

/-- The first image that is started sees what is there. -/
theorem ensures_sight {P : Machine (Sighted φ) → Prop} (m : Shared → StateT φ Logged Status)
    (hnone : ∀ w, P w → Seen (· = []) w)
    (hreads : ∀ w, P w → Sight.Reads units ⟨w.firmware.found, w.shared⟩) :
    Loader.Ensures P (Loader.hand fun shared => Sighted.sight shared (m shared))
      fun _ => SeenAll units := by
  refine Loader.Ensures.hand fun w hw x hx => ?_
  have hfirst : w.firmware.sights = [] := hnone w hw
  simp only [Sighted.sight, hfirst, List.nil_append, List.mem_singleton] at hx
  rw [hx]
  exact hreads w hw

/-- It can read what has been lent to its record. -/
theorem ensures_sight_of_lent {record : Interface} (m : Shared → StateT φ Logged Status) :
    Loader.Ensures
      (fun w => (w.firmware.found = .ok record ∧ Seen (· = []) w) ∧
        ∀ r, w.shared.objects.image? record = some r → r.loadOptions = units)
      (Loader.hand fun shared => Sighted.sight shared (m shared)) fun _ => SeenAll units := by
  refine ensures_sight m (fun w hw => hw.1.2) ?_
  rintro w ⟨⟨hfound, -⟩, hunits⟩ r hr
  simp only [Sight.record?, hfound] at hr
  exact hunits r hr

theorem ensures_seen_lend (hunits : units.length < 2 ^ 31) (record : Interface) :
    Loader.Ensures (fun w : Machine (Sighted φ) => w.firmware.found = .ok record ∧ Seen L w)
      (LoadedImage.setLoadOptions record units) fun _ w =>
        (w.firmware.found = .ok record ∧ Seen L w) ∧
          ∀ r, w.shared.objects.image? record = some r → r.loadOptions = units := by
  refine Loader.Ensures.modifyObjects fun w hw => ⟨hw, fun r hr => ?_⟩
  rw [Objects.image?_updateImage_self, Option.map_eq_some_iff] at hr
  obtain ⟨r', -, rfl⟩ := hr
  exact r'.loadOptions_setLoadOptions hunits

theorem ensures_seen_lookUp (h : Handle) :
    Loader.Ensures (Seen L) (Loader.call (fw.sighted.interface h .loadedImage))
      fun answer w => w.firmware.found = answer ∧ Seen L w :=
  Loader.Ensures.call fun _ hw => ⟨rfl, hw⟩

/-- The built-in loader lends the options to whoever it starts. -/
theorem ensures_seen_start (hunits : units.length < 2 ^ 31) (image : LoadedImage) :
    Loader.Ensures (Seen (· = [])) (LoadedImage.start fw.sighted image units)
      fun _ => SeenAll units := by
  unfold LoadedImage.start
  refine Loader.Ensures.bind (ensures_seen_lookUp image.handle) fun answer => ?_
  cases answer with
  | error status =>
    exact Loader.Ensures.note_bind (Loader.Ensures.pure fun w hw => seenAll_of_none hw.2)
  | ok record =>
    refine Loader.Ensures.bind (ensures_seen_lend hunits record) fun _ =>
      Loader.Ensures.note_bind ?_
    refine Loader.Ensures.bind (ensures_sight_of_lent _) fun status =>
      Loader.Ensures.note_bind ?_
    refine Loader.Ensures.bind (R := fun _ => SeenAll units)
      (Loader.Ensures.modifyObjects fun w hw => hw) fun _ => ?_
    exact Loader.Ensures.pure fun w hw => hw

/-- So does the firmware's loader. -/
theorem ensures_seen_runThroughFirmware (hunits : units.length < 2 ^ 31) (data : ByteArray) :
    Loader.Ensures (Seen (· = [])) (Boot.runThroughFirmware fw.sighted data units)
      fun _ => SeenAll units := by
  have hload : Loader.Ensures (Seen (· = [])) (Boot.loadWithFirmware fw.sighted data)
      fun _ => Seen (· = []) := by
    unfold Boot.loadWithFirmware
    refine Loader.Ensures.bind (R := fun _ => Seen (· = []))
      (Loader.Ensures.modifyObjects fun w hw => hw) fun id => ?_
    refine Loader.Ensures.bind (R := fun _ => Seen (· = []))
      (Loader.Ensures.call fun w hw => hw) fun answer => ?_
    obtain ⟨answer, _ | record⟩ := answer
    · exact Loader.Ensures.pure fun w hw => hw
    · refine Loader.Ensures.bind (R := fun _ => Seen (· = []))
        (Loader.Ensures.modifyObjects fun w hw => hw) fun _ => ?_
      exact Loader.Ensures.pure fun w hw => hw
  unfold Boot.runThroughFirmware
  refine Loader.Ensures.bind hload fun answer => ?_
  cases answer with
  | error status =>
    exact Loader.Ensures.note_bind (Loader.Ensures.pure fun w hw => seenAll_of_none hw)
  | ok h =>
    refine Loader.Ensures.bind (ensures_seen_lookUp h) fun answer => ?_
    cases answer with
    | error status =>
      -- without a record there is nothing to read
      have hreads : ∀ w : Machine (Sighted φ), w.firmware.found = .error status ∧
          Seen (· = []) w → Sight.Reads units ⟨w.firmware.found, w.shared⟩ := by
        rintro w ⟨hfound, -⟩ r hr
        simp only [Sight.record?, hfound] at hr
        cases hr
      refine Loader.Ensures.note_bind (Loader.Ensures.bind
        (ensures_sight _ (fun w hw => hw.2) hreads) fun status => Loader.Ensures.note_bind ?_)
      exact Boot.ensures_unloadImage_of (fun _ hw => hw) status
    | ok record =>
      refine Loader.Ensures.bind (ensures_seen_lend hunits record) fun _ =>
        Loader.Ensures.note_bind ?_
      refine Loader.Ensures.bind (ensures_sight_of_lent _) fun status =>
        Loader.Ensures.note_bind ?_
      refine Loader.Ensures.bind (R := fun _ => SeenAll units)
        (Loader.Ensures.modifyObjects fun w hw => hw) fun _ => ?_
      exact Boot.ensures_unloadImage_of (fun _ hw => hw) status

/-- Whichever loader is used. -/
theorem ensures_seen_runImage (hunits : units.length < 2 ^ 31) (mode : LoaderChoice)
    (data : ByteArray) :
    Loader.Ensures (Seen (· = [])) (Boot.runImage fw.sighted mode data units)
      fun _ => SeenAll units := by
  refine Boot.ensures_runImage_of (fun w hw => seenAll_of_none hw) ?_
    (ensures_seen_runThroughFirmware hunits data) mode
  exact Boot.ensures_runBuiltin_of (fun w hw => seenAll_of_none hw)
    (ensures_seen_of_maintains ((fw.keeps_sighted _).load (fun _ => trivial) data))
    (fun image => ensures_seen_start hunits image)
    fun h => ensures_seen_of_lockstep ((fw.keeps_sighted _).unload h)

/-- A boot attempt lends its options to whatever it starts. -/
theorem ensures_seen_run [Allocator] [Zstd.Decoder] {o : Options}
    (hunits : (Boot.payloadOptions o (Boot.ownParts fw).cmdline).value.length < 2 ^ 31) :
    Loader.Ensures (Seen (· = [])) (Boot.run fw.sighted o)
      fun _ => SeenAll (Boot.payloadOptions o (Boot.ownParts fw).cmdline).value :=
  Boot.ensures_run_of (fun _ hw => seenAll_of_none hw)
    (fun linux => ensures_seen_of_maintains
      ((fw.opens_sighted _).obtainPayload (fun _ => trivial) o linux))
    (fun initrd => ensures_seen_of_maintains
      ((fw.keeps_sighted _).offerInitrd (fw.opens_sighted _) (fun _ => trivial) o initrd))
    (fun mode data => ensures_seen_runImage hunits mode data)
    (ensures_seen_of_lockstep (fw.keeps_sighted _).deregister)

end Seen

/-! ## the command line -/

/-- The command line of a boot attempt: that in the options or, if they have none, the
text that came along, without the white space and NULs around it. -/
inductive CommandLine (o : Options) : Option ByteArray → List Char → Prop where
  | configured (cmdline : Option ByteArray) (h : o.cmdline ≠ "") :
      CommandLine o cmdline o.cmdline.toList
  | embedded (t : String) {text : List Char} (h : o.cmdline = "")
      (htext : Trimmed (fun c => c == Utf16.nul || isBlank c) t.toList text) :
      CommandLine o (some t.toUTF8) text
  | illegible {bytes : ByteArray} (h : o.cmdline = "") (hbytes : ¬bytes.IsValidUTF8) :
      CommandLine o (some bytes) []
  | nothing (h : o.cmdline = "") : CommandLine o none []

/-- What came along does not count if there is a command line in the options. -/
theorem CommandLine.eq_of_ne {o : Options} {cmdline : Option ByteArray} {text : List Char}
    (h : CommandLine o cmdline text) (hne : o.cmdline ≠ "") : text = o.cmdline.toList := by
  cases h with
  | configured => rfl
  | embedded _ hnone => exact absurd hnone hne
  | illegible hnone => exact absurd hnone hne
  | nothing hnone => exact absurd hnone hne

/-- What came along is a command line, if it is text. -/
theorem commandLine_embedded {o : Options} (h : o.cmdline = "") (bytes : ByteArray) :
    CommandLine o (some bytes) (Boot.embeddedCommandLine bytes).value := by
  unfold Boot.embeddedCommandLine
  by_cases hbytes : bytes.IsValidUTF8
  · rw [String.fromUTF8?, dif_pos hbytes]
    exact .embedded (String.fromUTF8 bytes hbytes) h (trimmed_trimBoth _ _)
  · rw [String.fromUTF8?, dif_neg hbytes]
    exact .illegible h hbytes

/-- The load options of an attempt are its command line. -/
theorem commandLine_payloadOptions (o : Options) (cmdline : Option ByteArray) :
    ∃ text, CommandLine o cmdline text ∧
      (Boot.payloadOptions o cmdline).value = terminatedUnits (String.ofList text) := by
  unfold Boot.payloadOptions
  by_cases h : o.cmdline = ""
  · rw [if_neg (by simp [h])]
    cases cmdline with
    | none => exact ⟨[], .nothing h, rfl⟩
    | some bytes => exact ⟨_, commandLine_embedded h bytes, rfl⟩
  · rw [if_pos (by simpa using h)]
    exact ⟨_, .configured cmdline h, by rw [String.ofList_toList]; rfl⟩

/-- The units are read back up to the first NUL. -/
theorem decode_terminatedUnits (text : List Char) :
    Utf16.decode (Utf16.untilNul (terminatedUnits (String.ofList text))) =
      text.takeWhile (· != Utf16.nul) := by
  rw [terminatedUnits, Utf16.untilNul_append_zero, Utf16.encode, Utf16.untilNul_encodeChars,
    Utf16.decode_encodeChars, String.toList_ofList]

/-! ## the theorem -/

/-- **Load options are lent.**  Whatever the code of an image does, the record that the
loader finds for it has exactly the given options when the code is run, and none when the
loader returns, with either loader; without a record the built-in loader runs no code.
No record keeps options but those that the firmware has made it with on the way, or that
it had to begin with, however images are loaded, started and unloaded one after the
other; a machine begins without any records.  And whatever a
boot attempt starts can read the command line in its record, up to the first NUL; the
list of what there was to see changes nothing in the attempt. -/
theorem lent_while_running [Allocator] [Zstd.Decoder] (fw : Firmware φ) :
    (LoadedImage.start fw = LoadedImage.startBy fw fun h entryPoint =>
        Loader.hand (fw.transfer h entryPoint)) ∧
    (∀ code image options s status f,
      fw.interface image.handle .loadedImage s.firmware = (.error status, f) →
      Loader.ends (LoadedImage.startBy fw code image options) s = (status, ⟨f, s.shared⟩)) ∧
    (∀ code image options s record f, options.length < 2 ^ 31 →
      fw.interface image.handle .loadedImage s.firmware = (.ok record, f) →
      Lends (code image.handle image.entryPoint) record options s
        (Machine.lend record options ⟨f, s.shared⟩)
        (Loader.ends (LoadedImage.startBy fw code image options) s)) ∧
    (Boot.runThroughFirmware fw = Boot.runThroughFirmwareBy fw fun h =>
        Loader.hand (fw.startImage h)) ∧
    (∀ code data options s h loaded record f, options.length < 2 ^ 31 →
      Loader.ends (Boot.loadWithFirmware fw data) s = (.ok h, loaded) →
      fw.interface h .loadedImage loaded.firmware = (.ok record, f) →
      Lends (code h) record options loaded (Machine.lend record options ⟨f, loaded.shared⟩)
        (Loader.ends (Boot.runThroughFirmwareBy fw code data options) s)) ∧
    (∀ (f : φ) memory P, Recorded P ⟨f, { memory }⟩) ∧
    (∀ P uses s, (∀ i r, ImageRecord.Unlent r → P i r) → Recorded P s →
      Recorded (fun i r => P i r ∨ ImageUse.Made fw i r s uses) (ImageUse.after fw s uses)) ∧
    ∀ o s, ∃ text, CommandLine o (Boot.ownParts fw).cmdline text ∧
      ((terminatedUnits (String.ofList text)).length < 2 ^ 31 →
        let run := Loader.ends (Boot.run fw.sighted o) s.sighted
        Loader.ends (Boot.run fw o) s = (run.1, run.2.unsighted) ∧
          ∀ x ∈ run.2.firmware.sights, ∀ r, x.record? = some r →
            r.loadOptions = terminatedUnits (String.ofList text) ∧
              Utf16.decode (Utf16.untilNul r.loadOptions) =
                text.takeWhile (· != Utf16.nul)) := by
  refine ⟨LoadedImage.start_eq_startBy fw,
    fun _ _ _ _ _ _ herror => LoadedImage.ends_startBy_of_error herror,
    fun _ _ _ _ _ _ hoptions hrecord => LoadedImage.lends_startBy hoptions hrecord,
    Boot.runThroughFirmware_eq_by fw,
    fun _ _ _ _ _ _ _ _ hoptions hload hrecord =>
      Boot.lends_runThroughFirmwareBy hoptions hload hrecord,
    fun _ _ _ => Objects.Records.empty,
    fun _ uses _ hP hs => ImageUse.recorded_after hP hs uses, ?_⟩
  intro o s
  obtain ⟨text, htext, hunits⟩ := commandLine_payloadOptions o (Boot.ownParts fw).cmdline
  refine ⟨text, htext, fun hlength => ⟨ends_run_sighted fw o s, ?_⟩⟩
  intro x hx r hr
  have hseen : SeenAll (Boot.payloadOptions o (Boot.ownParts fw).cmdline).value
      (Loader.ends (Boot.run fw.sighted o) s.sighted).2 :=
    ensures_seen_run (by rwa [hunits]) s.sighted rfl
  have hreads : r.loadOptions = terminatedUnits (String.ofList text) := by
    rw [← hunits]
    exact hseen x hx r hr
  exact ⟨hreads, by rw [hreads, decode_terminatedUnits]⟩

/-- The firmware of a bench starts a payload of two bytes, which can read the command line
of the options.  No record keeps it. -/
theorem lent_while_running_quiet :
    let _ := Allocator.unlimited
    let _ := Zstd.Blocks.decoder
    let fw := Bench.firmware { files := [(Options.defaultImage, [0x4D, 0x5A].toByteArray)] }
    let o : Options := { cmdline := "quiet", mode := .firmware }
    let s : Machine Bench := ⟨Bench.fresh { loader := none }, { memory := Memory.filled 0 }⟩
    (∃ x ∈ (Loader.ends (Boot.run fw.sighted o) s.sighted).2.firmware.sights,
      ∃ r, x.record? = some r ∧
        Utf16.decode (Utf16.untilNul r.loadOptions) = "quiet".toList) ∧
      Recorded (fun i r => r.Unlent ∨ ImageUse.Made fw i r s [.attempt o])
        (ImageUse.after fw s [.attempt o]) := by
  intro _ _ fw o s
  obtain ⟨-, -, -, -, -, hnone, hafter, hattempt⟩ := lent_while_running fw
  refine ⟨?_, hafter _ _ _ (fun _ _ hr => hr) (hnone _ _ _)⟩
  obtain ⟨text, htext, hreads⟩ := hattempt o s
  have hquiet : text = "quiet".toList := htext.eq_of_ne (by decide)
  subst hquiet
  obtain ⟨-, hreads⟩ := hreads (by decide)
  have hstarted : ((Loader.ends (Boot.run fw.sighted o) s.sighted).2.firmware.sights.any
      fun x => x.record?.isSome) = true := by decide +kernel
  obtain ⟨x, hx, hrecord⟩ := List.any_eq_true.mp hstarted
  obtain ⟨r, hr⟩ := Option.isSome_iff_exists.mp hrecord
  exact ⟨x, hx, r, hr, (hreads x hx r hr).2⟩

end EfiLoader
