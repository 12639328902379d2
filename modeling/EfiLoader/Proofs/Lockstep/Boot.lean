import EfiLoader.Loader.Boot
import EfiLoader.Proofs.Lockstep.Loader
import EfiLoader.Proofs.Lockstep.Payload

/-!
# EfiLoader.Proofs.Lockstep.Boot

Boot attempts in lockstep.  On two firmwares that answer alike, an attempt
reads the same files, offers the same initrd and starts the same image:

* `Firmware.Opens.obtainPayload`, `Firmware.Opens.obtainInitrd` — what is read;
* `Firmware.Keeps.register`, `Firmware.Keeps.deregister` — what is offered;
* `Firmware.Keeps.run`, `Firmware.Keeps.run_of` — the attempt as a whole, which
  ends with the status of the image it has started, or with that of what went
  wrong before.
-/

namespace EfiLoader

open Log Pe Machine

variable {φ ψ α : Type} {R : φ → ψ → Prop} {F : Shared → Prop} {E : Status → Prop}
  {fw : Firmware φ} {fw' : Firmware ψ}

/-! ## reading -/

namespace Boot

/-- A source is unpacked in lockstep. -/
theorem maintains_unpack {m : Payload.Unpack φ α} {m' : Payload.Unpack ψ α}
    (h : Maintains R (fun e => E (Fault.status e)) m m') :
    Maintains (Framed R F) E (unpack m) (unpack m') := by
  unfold unpack
  refine Maintains.lift_bind ((Lockstep.callNoted h).mono (fun _ _ hst => hst) ?_) fun r hr =>
    Maintains.settle hr
  exact fun r s t hst => ⟨hst.firmware.1, hst.firmware.2, hst.shared, hst.frame⟩

/-- Bytes in memory are unpacked in lockstep. -/
theorem maintains_unpackBytes (bytes : ByteArray) {m : Payload.Unpack Supply α}
    (h : Maintains Eq (fun e => E (Fault.status e)) m m) :
    Maintains (Framed R F) E (unpackBytes bytes m : Attempt φ α) (unpackBytes bytes m) := by
  unfold unpackBytes
  refine Maintains.lift_bind (A := fun r => r = (m.run.run { bytes }).value)
    (Lockstep.logged fun _ _ hst => ⟨rfl, hst⟩) fun r hr => ?_
  subst hr
  exact Maintains.settle (h { bytes } { bytes } rfl).2.2.1

/-- A source is read as a whole in lockstep. -/
theorem maintains_readWhole [Allocator] {src : Source φ} {src' : Source ψ} (h : src.Keeps R E src')
    (hE : ∀ n, E (Status.error n)) :
    Maintains R (fun e => E (Fault.status e)) (readWhole src) (readWhole src') := by
  unfold readWhole
  rw [h.size_eq]
  cases Buffer.allocate src.size with
  | error e => exact Maintains.throw (Buffer.coded_error.status hE e)
  | ok b =>
      refine Maintains.bind (Payload.maintains_fill h hE b) fun b => ?_
      dsimp only
      split
      · exact Maintains.note_bind (Maintains.pure b)
      · exact Maintains.pure b

end Boot

namespace Firmware.Opens

open Boot

/-- A file is opened, used and closed in lockstep. -/
theorem withFile (h : fw.Opens R E fw') (path : String) {use : Source φ → Attempt φ α}
    {use' : Source ψ → Attempt ψ α}
    (huse : ∀ src src', src.Keeps R E src' → Maintains (Framed R F) E (use src) (use' src')) :
    Maintains (Framed R F) E (withFile fw path use) (withFile fw' path use') := by
  unfold Boot.withFile
  have hopen : ∀ s t, Framed R F s t →
      (Loader.callNoted (fw.openFile path) s).lines =
          (Loader.callNoted (fw'.openFile path) t).lines ∧
        SameFile R E (Loader.callNoted (fw.openFile path) s).value.1
            (Loader.callNoted (fw'.openFile path) t).value.1 ∧
          Framed R F (Loader.callNoted (fw.openFile path) s).value.2
            (Loader.callNoted (fw'.openFile path) t).value.2 := by
    intro s t hst
    obtain ⟨hlines, hfile, hleft⟩ := h path _ _ hst.firmware
    refine ⟨?_, hfile, hleft, hst.shared, hst.frame⟩
    show (fw.openFile path s.firmware).lines ++ [] = (fw'.openFile path t.firmware).lines ++ []
    rw [hlines]
  refine Lockstep.bind_of_related (M := fun r r' s t => SameFile R E r r' ∧ Framed R F s t) hopen
    fun r r' => Lockstep.of_and fun hfile => ?_
  cases hfile with
  | error status he => exact Lockstep.pure fun _ _ hst => ⟨OnlyFails.error he, hst⟩
  | ok file file' hsource hclose =>
      refine Lockstep.bind (huse _ _ hsource) fun r => Lockstep.of_and fun hr => ?_
      refine Lockstep.bind (Lockstep.call hclose) fun _ => ?_
      exact Lockstep.pure fun _ _ hst => ⟨hr, hst⟩

variable (h : fw.Opens R E fw') (hE : ∀ n, E (Status.error n))

include h hE

/-- The payload is obtained in lockstep. -/
theorem obtainPayload [Allocator] [Zstd.Decoder] (o : Options) (linux : Option ByteArray) :
    Maintains (Framed R F) E (obtainPayload fw o linux) (obtainPayload fw' o linux) := by
  have hfile : Maintains (Framed R F) E (obtainPayload.fromFile fw o)
      (obtainPayload.fromFile fw' o) := by
    unfold obtainPayload.fromFile
    refine Maintains.note_bind (h.withFile _ fun src src' hsrc => ?_)
    exact maintains_unpack (Payload.maintains_unpackFile hsrc hE)
  unfold Boot.obtainPayload
  cases linux with
  | none => exact hfile
  | some data =>
      dsimp only
      split
      · refine Maintains.note_bind (maintains_unpackBytes data ?_)
        exact Payload.maintains_unpackFile (Supply.keeps_source _ E) hE
      · exact hfile

/-- The initrd is obtained in lockstep. -/
theorem obtainInitrd [Allocator] (o : Options) (embedded : Option ByteArray) :
    Maintains (Framed R F) E (obtainInitrd fw o embedded) (obtainInitrd fw' o embedded) := by
  unfold Boot.obtainInitrd
  cases o.initrdPath? with
  | some path =>
      refine Maintains.note_bind (h.withFile _ fun src src' hsrc => ?_)
      exact Maintains.map _ (maintains_unpack (maintains_readWhole hsrc hE))
  | none =>
      cases embedded with
      | none => exact Maintains.pure none
      | some data =>
          refine Maintains.note_bind (Maintains.map _ (maintains_unpackBytes data ?_))
          cases Buffer.allocate data.size with
          | error e => exact Maintains.throw (Buffer.coded_error.status hE e)
          | ok b => exact Payload.maintains_fill (Supply.keeps_source _ E) hE b

end Firmware.Opens

namespace Firmware.Keeps

open Boot

/-! ## the initrd -/

/-- An initrd is offered in lockstep. -/
theorem register (h : fw.Keeps R E fw') (hE : ∀ n, E (Status.error n)) (data : Buffer) :
    Maintains (InStep R) E (Initrd.register fw data) (Initrd.register fw' data) := by
  unfold Initrd.register
  dsimp only
  split
  · exact Maintains.note_bind (Maintains.pure _)
  · refine Maintains.bind (Maintains.lift Lockstep.shared) fun s => ?_
    split
    · exact Maintains.note_bind (Maintains.throw (hE 20))
    · refine Maintains.lift_bind (Lockstep.callSharing fun shared => h.locate _ _ shared)
        fun answer _ => ?_
      have hregister : Maintains (InStep R) E
          (do
            let id ← (Loader.modifyObjects Objects.fresh : Loader φ Nat)
            let service := Interface.loadFile id
            let handle ← (Attempt.ofLoader
              (Loader.call (fw.install Handle.null (Initrd.interfaces service)))).noting
                fun status => Component.initrd.error
                  s!"Failed to install initrd protocols: {status.text}"
            note (Component.initrd.info s!"Registered {data.remaining.size} byte initrd")
            (Loader.modifyShared fun s => { s with initrd := some ⟨data, handle, service⟩ } :
              Loader φ Unit))
          (do
            let id ← (Loader.modifyObjects Objects.fresh : Loader ψ Nat)
            let service := Interface.loadFile id
            let handle ← (Attempt.ofLoader
              (Loader.call (fw'.install Handle.null (Initrd.interfaces service)))).noting
                fun status => Component.initrd.error
                  s!"Failed to install initrd protocols: {status.text}"
            note (Component.initrd.info s!"Registered {data.remaining.size} byte initrd")
            (Loader.modifyShared fun s => { s with initrd := some ⟨data, handle, service⟩ } :
              Loader ψ Unit)) := by
        refine Maintains.bind (Maintains.lift (Lockstep.modifyObjects _)) fun id => ?_
        refine Maintains.bind (Maintains.noting
          (Maintains.ofLoader (Lockstep.call_and (h.install _ _))) _) fun handle => ?_
        exact Maintains.note_bind (Maintains.lift (Lockstep.modifyShared _))
      cases answer with
      | ok other => exact Maintains.note_bind hregister
      | error status => exact hregister

/-- It is withdrawn in lockstep. -/
theorem deregister (h : fw.Keeps R E fw') :
    Lockstep (InStep R) (Initrd.deregister fw) (Initrd.deregister fw') fun _ => InStep R := by
  unfold Initrd.deregister
  refine Lockstep.bind Lockstep.shared fun shared => ?_
  cases shared.initrd with
  | none => exact Lockstep.pure fun _ _ hst => hst
  | some registration =>
      refine Lockstep.bind (Lockstep.call (h.uninstall _ _)) fun status => ?_
      split
      · exact Lockstep.note_bind (Lockstep.pure fun _ _ hst => hst)
      · exact Lockstep.bind (Lockstep.modifyShared _) fun _ => Lockstep.pure fun _ _ hst => hst

theorem offerInitrd [Allocator] (h : fw.Keeps R E fw') (hopens : fw.Opens R E fw')
    (hE : ∀ n, E (Status.error n)) (o : Options) (embedded : Option ByteArray) :
    Maintains (InStep R) E (offerInitrd fw o embedded) (offerInitrd fw' o embedded) := by
  unfold Boot.offerInitrd
  refine Maintains.bind (Maintains.noting (hopens.obtainInitrd hE o embedded) _) fun initrd => ?_
  cases initrd with
  | none => exact Maintains.pure _
  | some data => exact h.register hE data

end Firmware.Keeps

/-! ## execution -/

/-- The status is that of an image that was started, or there was none and the
status has `E`. -/
def Machine.Ended (P : φ → ψ → Prop) (Q : Status → φ → ψ → Prop) (E : Status → Prop)
    (status : Status) (s : Machine φ) (t : Machine ψ) : Prop :=
  (E status ∧ InStep P s t) ∨ InStep (Q status) s t

namespace Firmware.Keeps

open Boot

variable {P : φ → ψ → Prop} {Q : Status → φ → ψ → Prop}

/-- What is done after the attempt has ended does not change how it did. -/
theorem ended {m : Loader φ α} {m' : Loader ψ α}
    (hP : Lockstep (InStep P) m m' fun _ => InStep P)
    (hQ : ∀ status, Lockstep (InStep (Q status)) m m' fun _ => InStep (Q status))
    (status : Status) : Lockstep (Ended P Q E status) m m' fun _ => Ended P Q E status := by
  refine Lockstep.of_or (Lockstep.of_and fun he => ?_) ?_
  · exact hP.mono (fun _ _ hst => hst) fun _ _ _ hst => .inl ⟨he, hst⟩
  · exact (hQ status).mono (fun _ _ hst => hst) fun _ _ _ hst => .inr hst

variable (h : fw.Keeps P E fw') (hnext : ∀ status, fw.Keeps (Q status) E fw')
  (hstarts : fw.Starts P Q fw')

include h hnext hstarts

/-- The built-in loader: its status is that of the image, or an error from
before the image was started. -/
theorem runBuiltin (hE : ∀ n, E (Status.error n)) (data : ByteArray) (options : List UInt16) :
    Lockstep (InStep P) (runBuiltin fw data options) (runBuiltin fw' data options)
      (Ended P Q E) := by
  unfold Boot.runBuiltin
  refine Lockstep.bind (h.load hE data) fun answer => Lockstep.of_and fun hanswer => ?_
  cases answer with
  | error status =>
      exact Lockstep.note_bind (Lockstep.pure fun _ _ hst => .inl ⟨hanswer status rfl, hst⟩)
  | ok image =>
      refine Lockstep.bind (h.start hstarts image options) fun status => ?_
      refine Lockstep.bind
        (ended (h.unload image.handle) (fun status => (hnext status).unload image.handle) status)
        fun unloaded => ?_
      exact Lockstep.note_if_bind (Lockstep.pure fun _ _ hst => hst)

/-- The firmware's loader, likewise. -/
theorem runThroughFirmware (data : ByteArray) (options : List UInt16) :
    Lockstep (InStep P) (runThroughFirmware fw data options)
      (runThroughFirmware fw' data options) (Ended P Q E) := by
  have hload : Lockstep (InStep P) (loadWithFirmware fw data) (loadWithFirmware fw' data)
      fun r s t => OnlyFails E r ∧ InStep P s t := by
    unfold loadWithFirmware
    refine Lockstep.bind (Lockstep.modifyObjects _) fun id => ?_
    refine Lockstep.bind (Lockstep.call_and (h.loadImage data id)) fun answer =>
      Lockstep.of_and fun hanswer => ?_
    obtain ⟨r, record?⟩ := answer
    cases record? with
    | none => exact Lockstep.pure fun _ _ hst => ⟨hanswer, hst⟩
    | some record =>
        exact Lockstep.bind (Lockstep.modifyObjects _) fun _ =>
          Lockstep.pure fun _ _ hst => ⟨hanswer, hst⟩
  have hunload : ∀ (handle : Handle) (status : Status), Lockstep (InStep (Q status))
      (do
        let unloaded ← Loader.call (fw.unloadImage handle)
        if unloaded.isError then
          note (Component.boot.warn s!"Firmware failed to unload image: {unloaded.text}")
        return status)
      (do
        let unloaded ← Loader.call (fw'.unloadImage handle)
        if unloaded.isError then
          note (Component.boot.warn s!"Firmware failed to unload image: {unloaded.text}")
        return status) (Ended P Q E) := by
    intro handle status
    refine Lockstep.bind (Lockstep.call ((hnext status).unloadImage handle)) fun unloaded => ?_
    exact Lockstep.note_if_bind (Lockstep.pure fun _ _ hst => .inr hst)
  unfold Boot.runThroughFirmware
  refine Lockstep.bind hload fun answer => Lockstep.of_and fun hanswer => ?_
  cases answer with
  | error status =>
      exact Lockstep.note_bind (Lockstep.pure fun _ _ hst => .inl ⟨hanswer status rfl, hst⟩)
  | ok handle =>
      refine Lockstep.bind (Lockstep.call (h.interface handle .loadedImage)) fun record => ?_
      cases record with
      | error status =>
          refine Lockstep.note_bind (Lockstep.bind (Lockstep.hand (hstarts.startImage handle))
            fun status => ?_)
          exact Lockstep.note_bind (hunload handle status)
      | ok record =>
          refine Lockstep.bind (Lockstep.modifyObjects _) fun _ => ?_
          refine Lockstep.note_bind (Lockstep.bind (Lockstep.hand (hstarts.startImage handle))
            fun status => ?_)
          refine Lockstep.note_bind (Lockstep.bind (Lockstep.modifyObjects _) fun _ => ?_)
          exact hunload handle status

theorem runImage (hE : ∀ n, E (Status.error n)) (mode : LoaderChoice) (data : ByteArray)
    (options : List UInt16) :
    Lockstep (InStep P) (runImage fw mode data options) (runImage fw' mode data options)
      (Ended P Q E) := by
  unfold Boot.runImage
  cases mode with
  | firmware => exact runThroughFirmware h hnext hstarts data options
  | builtin =>
      refine Lockstep.bind (M := fun _ => InStep P) (Lockstep.logged fun _ _ hst => hst)
        fun parsed => ?_
      refine Lockstep.bind (M := fun answer s t => OnlyFails E answer ∧ InStep P s t) ?_
        fun answer => Lockstep.of_and fun hanswer => ?_
      · refine Lockstep.logged fun _ _ hst => ⟨?_, hst⟩
        cases parsed with
        | ok _ => exact OnlyFails.ok _
        | error e => exact OnlyFails.error (coded_headerError.status hE e)
      · cases answer with
        | ok _ => exact runBuiltin h hnext hstarts hE data options
        | error status =>
            dsimp only
            split
            · exact Lockstep.note_bind (runThroughFirmware h hnext hstarts data options)
            · exact Lockstep.note_bind
                (Lockstep.pure fun _ _ hst => .inl ⟨hanswer status rfl, hst⟩)

/-! ## the attempt -/

theorem launch (hE : ∀ n, E (Status.error n)) (o : Options) (payload : Buffer)
    (cmdline : Option ByteArray) :
    Lockstep (InStep P) (launch fw o payload cmdline) (launch fw' o payload cmdline)
      (Ended P Q E) := by
  unfold Boot.launch
  refine Lockstep.bind (M := fun _ => InStep P) (Lockstep.logged fun _ _ hst => hst)
    fun options => ?_
  refine Lockstep.bind (runImage h hnext hstarts hE o.mode payload.committed options)
    fun status => ?_
  refine Lockstep.bind (ended h.deregister (fun status => (hnext status).deregister) status)
    fun withdrawn => ?_
  exact Lockstep.note_if_bind (Lockstep.pure fun _ _ hst => hst)

/-- Boot attempts in lockstep, if the payload and the initrd are had in lockstep:
the status is that of the image that was started, or there was none.  Then the
status has `E`, or is that of a payload or initrd that was not to be had. -/
theorem run_of [Allocator] [Zstd.Decoder] {G : Status → Machine φ → Machine ψ → Prop}
    (hE : ∀ n, E (Status.error n)) (o : Options)
    (hpayload : ∀ linux, Lockstep (InStep P) (obtainPayload fw o linux).run
      (obtainPayload fw' o linux).run fun r s t => (∀ e, r = .error e → G e s t) ∧ InStep P s t)
    (hoffer : ∀ initrd, Lockstep (InStep P) (Boot.offerInitrd fw o initrd).run
      (Boot.offerInitrd fw' o initrd).run
      fun r s t => (∀ e, r = .error e → G e s t) ∧ InStep P s t) :
    Lockstep (InStep P) (run fw o) (run fw' o) fun status s t =>
      (G status s t ∧ InStep P s t) ∨ Ended P Q E status s t := by
  have hembedded : Lockstep (InStep P) (embedded fw) (embedded fw') fun _ => InStep P := by
    unfold embedded
    rw [h.ownImage]
    refine Lockstep.bind (M := fun _ => InStep P) (Lockstep.logged fun _ _ hst => hst)
      fun found => ?_
    refine Lockstep.bind (M := fun _ => InStep P) (Lockstep.logged fun _ _ hst => hst)
      fun answer => ?_
    cases answer with
    | ok e => exact Lockstep.pure fun _ _ hst => hst
    | error status => exact Lockstep.note_bind (Lockstep.pure fun _ _ hst => hst)
  unfold Boot.run
  refine Lockstep.bind hembedded fun e => ?_
  refine Lockstep.bind (Lockstep.noting (hpayload e.linux) _) fun payload => ?_
  cases payload with
  | error status => exact Lockstep.pure fun _ _ hst => .inl ⟨hst.1 status rfl, hst.2⟩
  | ok payload =>
      refine Lockstep.mono (Lockstep.bind (hoffer e.initrd) fun offered => ?_)
        (fun _ _ hst => hst.2) fun _ _ _ hended => hended
      cases offered with
      | error status => exact Lockstep.pure fun _ _ hst => .inl ⟨hst.1 status rfl, hst.2⟩
      | ok _ =>
          exact (launch h hnext hstarts hE o payload e.cmdline).mono (fun _ _ hst => hst.2)
            fun _ _ _ hended => .inr hended

/-- Boot attempts in lockstep: the status is that of the image that was
started, or there was none and the status is an error from before. -/
theorem run [Allocator] [Zstd.Decoder] (hopens : fw.Opens P E fw')
    (hE : ∀ n, E (Status.error n)) (o : Options) :
    Lockstep (InStep P) (run fw o) (run fw' o) (Ended P Q E) :=
  (run_of h hnext hstarts (G := fun status _ _ => E status) hE o
    (fun linux => hopens.obtainPayload hE o linux)
    (fun initrd => h.offerInitrd hopens hE o initrd)).mono (fun _ _ hst => hst)
    fun _ _ _ hended => hended.elim Or.inl id

end Firmware.Keeps

end EfiLoader
