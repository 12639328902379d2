import EfiLoader.Proofs.Loader.Ends
import EfiLoader.Proofs.Lockstep.Boot

/-!
# EfiLoader.Proofs.Loader.Started

Firmware that writes down which images are started and what they return, so
that it can be seen whether the status of a boot attempt is that of an image:

* `Firmware.traced` — the firmware with a list of what was started;
* `Firmware.Errs`, `Firmware.ReadErrs` — what a firmware can fail with;
* `Boot.failsAt_obtainPayload`, `Boot.failsAt_offerInitrd` — where the loader
  fails before it starts an image: with such a failure, or where a file is not
  opened;
* `Firmware.Errs.run_traced` — an attempt ends with such a failure, with an
  error of the loader's own, or with the status of the one image it has started.
-/

namespace EfiLoader

open Log

variable {φ α : Type}

/-! ## tracing -/

/-- A firmware's state, and the images that were started, each with what it
returned, the oldest first. -/
structure Traced (φ : Type) where
  state : φ
  started : List (Handle × Status) := []

namespace Traced

/-- A call that starts no image. -/
def pass (m : StateM φ α) : StateM (Traced φ) α := fun w =>
  ((m w.state).1, { w with state := (m w.state).2 })

/-- The start of an image is written down when it has returned. -/
def record (handle : Handle) (m : StateT φ Logged Status) : StateT (Traced φ) Logged Status :=
  fun w => ⟨(m w.state).lines, (m w.state).value.1,
    ⟨(m w.state).value.2, w.started ++ [(handle, (m w.state).value.1)]⟩⟩

/-- An open file that starts no image. -/
def passFile (f : OpenFile φ) : OpenFile (Traced φ) where
  source := { size := f.source.size, read := fun n => pass (f.source.read n) }
  close := pass f.close

end Traced

open Traced in
/-- The firmware `fw`, with every start of an image written down. -/
def Firmware.traced (fw : Firmware φ) : Firmware (Traced φ) where
  allocatePages memoryType pages := pass (fw.allocatePages memoryType pages)
  freePages address pages := pass (fw.freePages address pages)
  install h is := pass (fw.install h is)
  uninstall h is := pass (fw.uninstall h is)
  openExclusive h p := pass (fw.openExclusive h p)
  close h p := pass (fw.close h p)
  interface h p := pass (fw.interface h p)
  locate p path shared := pass (fw.locate p path shared)
  transfer h entryPoint shared := record h (fw.transfer h entryPoint shared)
  loadImage data id := pass (fw.loadImage data id)
  startImage h shared := record h (fw.startImage h shared)
  unloadImage h := pass (fw.unloadImage h)
  openFile path := fun w =>
    let opened := fw.openFile path w.state
    ⟨opened.lines, opened.value.1.map passFile, { w with state := opened.value.2 }⟩
  imageHandle := fw.imageHandle
  systemTable := fw.systemTable
  deviceHandle := fw.deviceHandle
  ownImage := fw.ownImage
  loadOptions := fw.loadOptions

/-- The machine before anything was started. -/
def Machine.untraced (m : Machine φ) : Machine (Traced φ) := ⟨⟨m.firmware, []⟩, m.shared⟩

/-! ## failing -/

/-- Whatever the firmware is asked for but files, it fails with `E` only. -/
structure Firmware.Errs (E : Status → Prop) (fw : Firmware φ) : Prop where
  allocatePages : ∀ memoryType pages s, OnlyFails E (fw.allocatePages memoryType pages s).1
  install : ∀ h is s, OnlyFails E (fw.install h is s).1
  openExclusive : ∀ h p s, OnlyFails E (fw.openExclusive h p s).1
  interface : ∀ h p s, OnlyFails E (fw.interface h p s).1
  locate : ∀ p path shared s, OnlyFails E (fw.locate p path shared s).1
  loadImage : ∀ data id s, OnlyFails E (fw.loadImage data id s).1.1

/-- Reading a file that was opened fails with `E` only. -/
def Firmware.ReadErrs (E : Status → Prop) (fw : Firmware φ) : Prop :=
  ∀ path s file, (fw.openFile path s).value.1 = .ok file →
    ∀ n s, OnlyFails (fun e => E e.status) (file.source.read n s).1

/-! ## in lockstep -/

namespace Traced

/-- The firmware is in the state `s`, and `L` holds of what was started. -/
def Of (L : List (Handle × Status) → Prop) (w : Traced φ) (s : φ) : Prop :=
  w.state = s ∧ L w.started

variable {L : List (Handle × Status) → Prop}

theorem alike_pass {A : α → Prop} {m : StateM φ α} (h : ∀ s, A (m s).1) :
    Alike (Of L) A (pass m) m := by
  rintro w _ ⟨rfl, hL⟩
  exact ⟨rfl, h w.state, rfl, hL⟩

/-- The first image that is started. -/
theorem lockstep_record (handle : Handle) (m : StateT φ Logged Status) :
    Lockstep (Of (· = [])) (record handle m) m
      fun status => Of fun started => ∃ handle, started = [(handle, status)] := by
  rintro ⟨s, _⟩ _ ⟨rfl, rfl⟩
  exact ⟨rfl, rfl, rfl, handle, rfl⟩

end Traced

open Traced

/-- Calls are answered as without the list. -/
theorem Firmware.Errs.keeps_traced {fw : Firmware φ} {E : Status → Prop} (h : fw.Errs E)
    (L : List (Handle × Status) → Prop) : fw.traced.Keeps (Of L) E fw where
  allocatePages memoryType pages := alike_pass (h.allocatePages memoryType pages)
  freePages _ _ := alike_pass fun _ => trivial
  install hs is := alike_pass (h.install hs is)
  uninstall _ _ := alike_pass fun _ => trivial
  openExclusive hs p := alike_pass (h.openExclusive hs p)
  close _ _ := alike_pass fun _ => trivial
  interface hs p := alike_pass (h.interface hs p)
  locate p path shared := alike_pass (h.locate p path shared)
  loadImage data id := alike_pass (h.loadImage data id)
  unloadImage _ := alike_pass fun _ => trivial
  imageHandle := rfl
  systemTable := rfl
  deviceHandle := rfl
  ownImage := rfl

/-- So are files, and what is read of them. -/
theorem Firmware.opens_traced (fw : Firmware φ) (L : List (Handle × Status) → Prop) :
    fw.traced.Opens (Of L) (fun _ => True) fw := by
  rintro path w _ ⟨rfl, hL⟩
  refine ⟨rfl, ?_, rfl, hL⟩
  show SameFile _ _ ((fw.openFile path w.state).value.1.map passFile) _
  cases (fw.openFile path w.state).value.1 with
  | error status => exact .error status trivial
  | ok file =>
      have hsource : (passFile file).source.Keeps (Of L) (fun _ => True) file.source :=
        ⟨rfl, fun _ => alike_pass fun _ _ _ => trivial⟩
      exact .ok _ _ hsource (alike_pass fun _ => trivial)

/-- Starting an image writes it down. -/
theorem Firmware.starts_traced (fw : Firmware φ) :
    fw.traced.Starts (Of (· = []))
      (fun status => Of fun started => ∃ handle, started = [(handle, status)]) fw where
  transfer _ _ _ := lockstep_record _ _
  startImage _ _ := lockstep_record _ _

/-! ## before an image is started -/

namespace Boot

variable {fw : Firmware φ} {E : Status → Prop} {G : Status → Machine φ → Prop}

/-- What is called on the machine as it is, not on another one. -/
theorem failsAt_of_maintains {m : Attempt φ α}
    (h : Maintains (Machine.InStep Eq) E m m) (hG : ∀ status s, E status → G status s) :
    FailsAt G m :=
  FailsAt.of_maintains h (fun s => ⟨s, rfl, rfl, trivial⟩) hG

theorem failsAt_noting {m : Attempt φ α} (h : FailsAt G m) (line : Status → Entry) :
    FailsAt G (m.noting line) := by
  intro s e s' hend
  exact h s e s' ((Attempt.ends_noting m line s).symm.trans hend)

variable (hopen : ∀ path, FailsAt G (Attempt.ofLoader (Loader.callNoted (fw.openFile path))))
  (hread : fw.ReadErrs E) (hE : ∀ n, E (Status.error n)) (hG : ∀ status s, E status → G status s)

include hopen hread hG

/-- Using a file fails where it is not opened, or with what the use fails with. -/
theorem failsAt_withFile (path : String) {use : Source φ → Attempt φ α}
    (huse : ∀ src : Source φ, src.Keeps Eq E src →
      Maintains (Machine.InStep Eq) E (use src) (use src)) :
    FailsAt G (withFile fw path use) := by
  unfold withFile
  refine FailsAt.bind_of_answer (hopen path) fun file => ?_
  rintro ⟨s, hfile⟩ s₁ e s' hend
  have hsource : file.source.Keeps Eq E file.source := by
    refine ⟨rfl, fun n => ?_⟩
    rintro f _ rfl
    exact ⟨rfl, hread path s.firmware file hfile n f, rfl⟩
  -- closing the file does not change the answer
  have hanswer : ((use file.source).run.run s₁).value.1 = .error e := congrArg Prod.fst hend
  exact hG e s' ((huse file.source hsource).onlyFails ⟨rfl, rfl, trivial⟩ e hanswer)

include hE

theorem failsAt_obtainPayload [Allocator] [Zstd.Decoder] (o : Options)
    (linux : Option ByteArray) : FailsAt G (obtainPayload fw o linux) := by
  have hfile : FailsAt G (obtainPayload.fromFile fw o) := by
    unfold obtainPayload.fromFile
    refine FailsAt.note_bind (failsAt_withFile hopen hread hG _ fun src hsource => ?_)
    exact maintains_unpack (Payload.maintains_unpackFile hsource hE)
  unfold obtainPayload
  cases linux with
  | none => exact hfile
  | some data =>
      dsimp only
      split
      · refine FailsAt.note_bind (failsAt_of_maintains (maintains_unpackBytes data ?_) hG)
        exact Payload.maintains_unpackFile (Supply.keeps_source _ E) hE
      · exact hfile

theorem failsAt_obtainInitrd [Allocator] (o : Options) (embedded : Option ByteArray) :
    FailsAt G (obtainInitrd fw o embedded) := by
  unfold obtainInitrd
  cases o.initrdPath? with
  | some path =>
      refine FailsAt.note_bind (failsAt_withFile hopen hread hG _ fun src hsource => ?_)
      exact Maintains.map _ (maintains_unpack (maintains_readWhole hsource hE))
  | none =>
      cases embedded with
      | none => exact FailsAt.pure none
      | some data =>
          refine FailsAt.note_bind (failsAt_of_maintains
            (Maintains.map _ (maintains_unpackBytes data ?_)) hG)
          cases Buffer.allocate data.size with
          | error e => exact Maintains.throw (Buffer.coded_error.status hE e)
          | ok b => exact Payload.maintains_fill (Supply.keeps_source _ E) hE b

theorem failsAt_offerInitrd [Allocator] (h : fw.Errs E) (o : Options)
    (embedded : Option ByteArray) : FailsAt G (offerInitrd fw o embedded) := by
  unfold offerInitrd
  refine FailsAt.bind (failsAt_noting (failsAt_obtainInitrd hopen hread hE hG o embedded) _)
    fun initrd => ?_
  cases initrd with
  | none => exact FailsAt.pure ()
  | some data =>
      exact FailsAt.of_maintains ((h.keeps_traced fun _ => True).register hE data)
        (fun s => ⟨s.untraced, ⟨rfl, trivial⟩, rfl, trivial⟩) hG

end Boot

/-! ## the attempt -/

/-- A boot attempt does not notice the list.  Its status is that of the one
image on it; if there is none, it is a status that the firmware fails with, or
one that there is no payload or no initrd with, where the attempt has ended. -/
theorem Firmware.Errs.run_traced [Allocator] [Zstd.Decoder] {fw : Firmware φ}
    {E : Status → Prop} {G : Status → Machine φ → Prop} (h : fw.Errs E)
    (hE : ∀ n, E (Status.error n)) (hG : ∀ status s, E status → G status s) (o : Options)
    (hpayload : ∀ linux, FailsAt G (Boot.obtainPayload fw o linux))
    (hoffer : ∀ initrd, FailsAt G (Boot.offerInitrd fw o initrd)) (m : Machine φ) :
    let attempt := (Boot.run fw o m).value
    let traced := (Boot.run fw.traced o m.untraced).value
    traced.1 = attempt.1 ∧ traced.2.firmware.state = attempt.2.firmware ∧
      traced.2.shared = attempt.2.shared ∧
      ((G attempt.1 attempt.2 ∧ traced.2.firmware.started = []) ∨
        ∃ handle, traced.2.firmware.started = [(handle, attempt.1)]) := by
  have hcalls : fw.Errs fun _ => True :=
    { allocatePages := fun _ _ _ _ _ => trivial
      install := fun _ _ _ _ _ => trivial
      openExclusive := fun _ _ _ _ _ => trivial
      interface := fun _ _ _ _ _ => trivial
      locate := fun _ _ _ _ _ _ => trivial
      loadImage := fun _ _ _ _ _ => trivial }
  have hopens := fw.opens_traced (· = [])
  obtain ⟨-, hstatus, hended⟩ := (h.keeps_traced (· = [])).run_of
    (fun status => h.keeps_traced fun started => ∃ handle, started = [(handle, status)])
    fw.starts_traced hE o
    (fun linux => (hpayload linux).lockstep (hopens.obtainPayload (fun _ => trivial) o linux))
    (fun initrd => (hoffer initrd).lockstep
      ((hcalls.keeps_traced _).offerInitrd hopens (fun _ => trivial) o initrd))
    m.untraced m ⟨⟨rfl, rfl⟩, rfl, trivial⟩
  rw [hstatus] at hended
  obtain ⟨hfails, ⟨hstate, hstarted⟩, hshared, -⟩ | ⟨he, ⟨hstate, hstarted⟩, hshared, -⟩ |
    ⟨⟨hstate, hstarted⟩, hshared, -⟩ := hended
  · exact ⟨hstatus, hstate, hshared, .inl ⟨hfails, hstarted⟩⟩
  · exact ⟨hstatus, hstate, hshared, .inl ⟨hG _ _ he, hstarted⟩⟩
  · exact ⟨hstatus, hstate, hshared, .inr hstarted⟩

end EfiLoader
