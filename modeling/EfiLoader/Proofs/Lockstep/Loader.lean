import EfiLoader.Loader.Image
import EfiLoader.Proofs.Lockstep.Reader

/-!
# EfiLoader.Proofs.Lockstep.Loader

Firmware in lockstep.  If two firmwares answer every call alike, then so does
the loader on both of them, and all that it fails with is an error of its own
or one that it got from them:

* `Firmware.Keeps`, `Firmware.Opens`, `Firmware.Starts` — what is asked of two
  firmwares;
* `Firmware.Keeps.load`, `Firmware.Keeps.unload` — an image is loaded and
  unloaded;
* `Firmware.Keeps.start` — it is started, which may lead to other states.
-/

namespace EfiLoader

open Log Pe

variable {φ ψ α ε : Type}

/-! ## machines -/

/-- The firmwares are in states with `R`, and the same is shared with them,
which has `F`. -/
structure Machine.Framed (R : φ → ψ → Prop) (F : Shared → Prop) (s : Machine φ)
    (t : Machine ψ) : Prop where
  firmware : R s.firmware t.firmware
  shared : s.shared = t.shared
  frame : F s.shared

/-- The firmwares are in states with `R`, and the same is shared with them. -/
abbrev Machine.InStep (R : φ → ψ → Prop) : Machine φ → Machine ψ → Prop :=
  Machine.Framed R fun _ => True

namespace Lockstep

open Machine

variable {R : φ → ψ → Prop} {F : Shared → Prop} {A : α → Prop} {Q : α → φ → ψ → Prop}

/-- A call of the firmware. -/
theorem call_and {m : StateM φ α} {m' : StateM ψ α} (h : Alike R A m m') :
    Lockstep (Framed R F) (Loader.call m) (Loader.call m') fun a s t =>
      A a ∧ Framed R F s t := by
  intro s t hst
  obtain ⟨hanswer, ha, hleft⟩ := h _ _ hst.firmware
  exact ⟨rfl, hanswer, ha, hleft, hst.shared, hst.frame⟩

/-- A call of which only the answer is needed. -/
theorem call {m : StateM φ α} {m' : StateM ψ α} (h : Alike R A m m') :
    Lockstep (Framed R F) (Loader.call m) (Loader.call m') fun _ => Framed R F :=
  (call_and h).mono (fun _ _ hst => hst) fun _ _ _ hst => hst.2

/-- A call that gets what is shared. -/
theorem callSharing {m : Shared → StateM φ α} {m' : Shared → StateM ψ α}
    (h : ∀ shared, Alike R A (m shared) (m' shared)) :
    Lockstep (Framed R F) (Loader.callSharing m) (Loader.callSharing m') fun a s t =>
      A a ∧ Framed R F s t := by
  rintro ⟨firmware, shared⟩ ⟨firmware', _⟩ ⟨hst, rfl, hF⟩
  exact call_and (h shared) ⟨firmware, shared⟩ ⟨firmware', shared⟩ ⟨hst, rfl, hF⟩

/-- A call that writes lines. -/
theorem callNoted {m : StateT φ Logged α} {m' : StateT ψ Logged α} (h : Lockstep R m m' Q) :
    Lockstep (Framed R F) (Loader.callNoted m) (Loader.callNoted m') fun a => Framed (Q a) F := by
  intro s t hst
  obtain ⟨hlines, hanswer, hleft⟩ := h _ _ hst.firmware
  refine ⟨?_, hanswer, hleft, hst.shared, hst.frame⟩
  show (m s.firmware).lines ++ [] = (m' t.firmware).lines ++ []
  rw [hlines]

/-- Code outside the loader. -/
theorem hand {m : Shared → StateT φ Logged α} {m' : Shared → StateT ψ Logged α}
    (h : ∀ shared, Lockstep R (m shared) (m' shared) Q) :
    Lockstep (Framed R F) (Loader.hand m) (Loader.hand m') fun a => Framed (Q a) F := by
  rintro ⟨firmware, shared⟩ ⟨firmware', _⟩ ⟨hst, rfl, hF⟩
  exact callNoted (h shared) ⟨firmware, shared⟩ ⟨firmware', shared⟩ ⟨hst, rfl, hF⟩

theorem shared : Lockstep (InStep R) Loader.shared Loader.shared fun _ => InStep R :=
  fun _ _ hst => ⟨rfl, hst.shared, hst⟩

/-- Nothing is asked of what is shared if it changes. -/
theorem modifyShared (f : Shared → Shared) :
    Lockstep (InStep R) (Loader.modifyShared f) (Loader.modifyShared f) fun _ => InStep R :=
  fun _ _ hst => ⟨rfl, rfl, hst.firmware, congrArg f hst.shared, trivial⟩

theorem modifyObjects (f : Objects → α × Objects) :
    Lockstep (InStep R) (Loader.modifyObjects f) (Loader.modifyObjects f) fun _ => InStep R := by
  rintro ⟨firmware, shared⟩ ⟨firmware', _⟩ ⟨hst, rfl, -⟩
  exact ⟨rfl, rfl, hst, rfl, trivial⟩

/-- The line of a failure. -/
theorem noting {P : Machine φ → Machine ψ → Prop}
    {M : Except Status α → Machine φ → Machine ψ → Prop} {m : Attempt φ α} {m' : Attempt ψ α}
    (h : Lockstep P m.run m'.run M) (line : Status → Entry) :
    Lockstep P (m.noting line).run (m'.noting line).run M := by
  refine Lockstep.bind h fun r => ?_
  cases r with
  | ok a => exact Lockstep.pure fun _ _ hst => hst
  | error status => exact Lockstep.note_bind (Lockstep.pure fun _ _ hst => hst)

end Lockstep

/-! ## attempts -/

namespace Maintains

variable {R : Machine φ → Machine ψ → Prop} {E : Status → Prop}

/-- An answer that says whether something has failed. -/
theorem ofLoader {m : Loader φ (Except Status α)} {m' : Loader ψ (Except Status α)}
    (h : Lockstep R m m' fun r s t => OnlyFails E r ∧ R s t) :
    Maintains R E (Attempt.ofLoader m) (Attempt.ofLoader m') := h

/-- A result is settled; its error has a status. -/
theorem settle [Fault ε] {r : Except ε α} (h : OnlyFails (fun e => E (Fault.status e)) r) :
    Maintains R E (Attempt.settle r) (Attempt.settle r) := by
  intro s t hst
  cases r with
  | ok a => exact ⟨rfl, rfl, OnlyFails.ok a, hst⟩
  | error e => exact ⟨rfl, rfl, OnlyFails.error (h e rfl), hst⟩

/-- The errors of the result are coded. -/
theorem settle_coded [Fault ε] (h : Fault.Coded ε) (hE : ∀ n, E (Status.error n))
    (r : Except ε α) : Maintains R E (Attempt.settle r) (Attempt.settle r) :=
  settle fun e _ => h.status hE e

theorem noting {m : Attempt φ α} {m' : Attempt ψ α} (h : Maintains R E m m')
    (line : Status → Entry) : Maintains R E (m.noting line) (m'.noting line) :=
  Lockstep.noting h line

/-- Cleaning up after a failure. -/
theorem orElseDo {m : Attempt φ α} {m' : Attempt ψ α} {c : Loader φ Unit} {c' : Loader ψ Unit}
    (h : Maintains R E m m') (hc : Lockstep R c c' fun _ => R) :
    Maintains R E (m.orElseDo c) (m'.orElseDo c') := by
  refine Lockstep.bind h fun r => Lockstep.of_and fun hr => ?_
  cases r with
  | ok a => exact Lockstep.pure fun _ _ hst => ⟨hr, hst⟩
  | error status =>
      exact Lockstep.bind hc fun _ => Lockstep.pure fun _ _ hst => ⟨hr, hst⟩

end Maintains

/-! ## firmwares -/

/-- Both opened a file, and the files are in lockstep, or both failed. -/
inductive SameFile (R : φ → ψ → Prop) (E : Status → Prop) :
    Except Status (OpenFile φ) → Except Status (OpenFile ψ) → Prop
  | ok (file : OpenFile φ) (file' : OpenFile ψ) (source : file.source.Keeps R E file'.source)
      (close : Alike R (fun _ => True) file.close file'.close) : SameFile R E (.ok file) (.ok file')
  | error (status : Status) (h : E status) : SameFile R E (.error status) (.error status)

theorem SameFile.eq_error {R : φ → ψ → Prop} {E : Status → Prop}
    {r : Except Status (OpenFile φ)} {status : Status} (h : SameFile R E r (.error status)) :
    r = .error status := by
  cases h
  rfl

/-- A file is opened in lockstep. -/
def Firmware.Opens (R : φ → ψ → Prop) (E : Status → Prop) (fw : Firmware φ)
    (fw' : Firmware ψ) : Prop :=
  ∀ path s t, R s t →
    (fw.openFile path s).lines = (fw'.openFile path t).lines ∧
      SameFile R E (fw.openFile path s).value.1 (fw'.openFile path t).value.1 ∧
      R (fw.openFile path s).value.2 (fw'.openFile path t).value.2

/-- From states with `R`, all calls but those that open a file or start an
image are answered alike, leave states with `R` and fail with `E` only. -/
structure Firmware.Keeps (R : φ → ψ → Prop) (E : Status → Prop) (fw : Firmware φ)
    (fw' : Firmware ψ) : Prop where
  allocatePages : ∀ memoryType pages,
    Alike R (OnlyFails E) (fw.allocatePages memoryType pages) (fw'.allocatePages memoryType pages)
  freePages : ∀ address pages,
    Alike R (fun _ => True) (fw.freePages address pages) (fw'.freePages address pages)
  install : ∀ h is, Alike R (OnlyFails E) (fw.install h is) (fw'.install h is)
  uninstall : ∀ h is, Alike R (fun _ => True) (fw.uninstall h is) (fw'.uninstall h is)
  openExclusive : ∀ h p, Alike R (OnlyFails E) (fw.openExclusive h p) (fw'.openExclusive h p)
  close : ∀ h p, Alike R (fun _ => True) (fw.close h p) (fw'.close h p)
  interface : ∀ h p, Alike R (OnlyFails E) (fw.interface h p) (fw'.interface h p)
  locate : ∀ p path shared,
    Alike R (OnlyFails E) (fw.locate p path shared) (fw'.locate p path shared)
  loadImage : ∀ data id,
    Alike R (fun a => OnlyFails E a.1) (fw.loadImage data id) (fw'.loadImage data id)
  unloadImage : ∀ h, Alike R (fun _ => True) (fw.unloadImage h) (fw'.unloadImage h)
  imageHandle : fw'.imageHandle = fw.imageHandle
  systemTable : fw'.systemTable = fw.systemTable
  deviceHandle : fw'.deviceHandle = fw.deviceHandle
  ownImage : fw'.ownImage = fw.ownImage

/-- From states with `P`, starting an image is answered alike and leaves
states with `Q` of the answer. -/
structure Firmware.Starts (P : φ → ψ → Prop) (Q : Status → φ → ψ → Prop) (fw : Firmware φ)
    (fw' : Firmware ψ) : Prop where
  transfer : ∀ h entryPoint shared,
    Lockstep P (fw.transfer h entryPoint shared) (fw'.transfer h entryPoint shared) Q
  startImage : ∀ h shared, Lockstep P (fw.startImage h shared) (fw'.startImage h shared) Q

/-! ## errors of images -/

theorem Pe.coded_headerError : Fault.Coded HeaderError := by
  intro e
  show ∃ n, (if e.foreign then Status.unsupported else Status.loadError) = Status.error n
  split
  · exact ⟨3, rfl⟩
  · exact ⟨1, rfl⟩

theorem Pe.coded_placementError : Fault.Coded PlacementError := fun _ => ⟨1, rfl⟩

theorem Pe.Fixup.coded_error : Fault.Coded Fixup.Error := by
  intro e
  cases e with
  | unknownKind _ _ => exact ⟨3, rfl⟩
  | _ => exact ⟨1, rfl⟩

/-- Making the memory of an image needs no firmware. -/
theorem maintains_imageMemory {R : Machine φ → Machine ψ → Prop} {E : Status → Prop}
    (hE : ∀ n, E (Status.error n)) (h : Headers) (source : ByteArray) (base : Nat) :
    Maintains R E (imageMemory h source base) (imageMemory h source base) := by
  unfold imageMemory
  dsimp only
  split
  · exact Maintains.note_bind (Maintains.throw (hE 1))
  · refine Maintains.bind (Maintains.logged _) fun answer => ?_
    refine Maintains.bind (Maintains.settle_coded coded_placementError hE _) fun section? => ?_
    unfold rebase
    split
    · refine Maintains.bind (Maintains.logged _) fun answer => ?_
      exact Maintains.bind (Maintains.noting (Maintains.settle_coded Fixup.coded_error hE _) _)
        fun _ => Maintains.pure _
    · exact Maintains.note_bind (Maintains.pure _)
    · dsimp only
      split
      · exact Maintains.note_bind (Maintains.pure _)
      · exact Maintains.pure _

namespace Firmware.Keeps

open Machine

variable {R : φ → ψ → Prop} {E : Status → Prop} {fw : Firmware φ} {fw' : Firmware ψ}

/-! ## pages -/

theorem release (h : fw.Keeps R E fw') (b : PageBuffer) :
    Lockstep (InStep R) (b.release fw) (b.release fw') fun _ => InStep R := by
  unfold PageBuffer.release
  refine Lockstep.bind (Lockstep.call (h.freePages _ _)) fun status => ?_
  split
  · exact Lockstep.logged fun _ _ hst => hst
  · exact Lockstep.pure fun _ _ hst => hst

theorem allocate (h : fw.Keeps R E fw') (hE : ∀ n, E (Status.error n)) (size alignment : Nat)
    (memoryType : UInt32) :
    Maintains (InStep R) E (PageBuffer.allocate fw size alignment memoryType)
      (PageBuffer.allocate fw' size alignment memoryType) := by
  unfold PageBuffer.allocate
  dsimp only
  split
  · exact Maintains.throw (hE 2)
  · split
    · exact Maintains.throw (hE 9)
    · refine Maintains.bind (Maintains.noting
        (Maintains.ofLoader (Lockstep.call_and (h.allocatePages _ _))) _) fun address => ?_
      unfold PageBuffer.carve
      split
      · exact Maintains.bind (Maintains.lift (h.release _)) fun _ => Maintains.throw (hE 9)
      · refine Maintains.note_bind ?_
        exact Maintains.bind (Maintains.lift (Lockstep.modifyShared _)) fun _ => Maintains.pure _

/-! ## loading -/

theorem placeImage (h : fw.Keeps R E fw') (hE : ∀ n, E (Status.error n)) (hs : Headers)
    (source : ByteArray) :
    Maintains (InStep R) E (placeImage fw hs source) (placeImage fw' hs source) := by
  unfold EfiLoader.placeImage
  refine Maintains.bind (h.allocate hE _ _ _) fun b => ?_
  refine Maintains.bind
    (Maintains.orElseDo (maintains_imageMemory hE hs source b.base) (h.release b)) fun _ => ?_
  exact Maintains.bind (Maintains.lift (Lockstep.modifyShared _)) fun _ => Maintains.pure _

theorem describe (h : fw.Keeps R E fw') (b : PageBuffer) (hs : Headers) :
    Lockstep (InStep R) (LoadedImage.describe fw b hs) (LoadedImage.describe fw' b hs)
      fun _ => InStep R := by
  have hrecord : ∀ path,
      LoadedImage.recordOf fw' b hs path = LoadedImage.recordOf fw b hs path := by
    intro path
    rw [LoadedImage.recordOf, LoadedImage.recordOf, h.imageHandle, h.systemTable, h.deviceHandle]
  unfold LoadedImage.describe
  refine Lockstep.bind (Lockstep.modifyObjects _) fun path => ?_
  rw [hrecord]
  refine Lockstep.bind (M := fun _ => InStep R) (Lockstep.logged fun _ _ hst => hst) fun r => ?_
  exact Lockstep.bind (Lockstep.modifyObjects _) fun _ => Lockstep.pure fun _ _ hst => hst

theorem installImage (h : fw.Keeps R E fw') (b : PageBuffer) (hs : Headers) :
    Maintains (InStep R) E (LoadedImage.install fw b hs) (LoadedImage.install fw' b hs) := by
  unfold LoadedImage.install
  refine Maintains.bind (Maintains.lift (h.describe b hs)) fun is => ?_
  refine Maintains.lift_bind (Lockstep.call_and (h.install _ _)) fun answer hanswer => ?_
  cases answer with
  | ok handle => exact Maintains.note_bind (Maintains.pure _)
  | error status =>
      refine Maintains.note_bind ?_
      refine Maintains.bind (Maintains.lift (Lockstep.modifyObjects _)) fun _ => ?_
      exact Maintains.bind (Maintains.lift (h.release b)) fun _ =>
        Maintains.throw (hanswer status rfl)

/-- An image is loaded in lockstep. -/
theorem load (h : fw.Keeps R E fw') (hE : ∀ n, E (Status.error n)) (data : ByteArray) :
    Maintains (InStep R) E (LoadedImage.load fw data) (LoadedImage.load fw' data) := by
  unfold LoadedImage.load LoadedImage.loadFor
  dsimp only
  split
  · exact Maintains.note_bind (Maintains.throw (hE 2))
  · refine Maintains.bind (Maintains.logged _) fun answer => ?_
    refine Maintains.bind (Maintains.settle_coded coded_headerError hE _) fun hs => ?_
    refine Maintains.bind (h.placeImage hE hs data) fun b => ?_
    refine Maintains.bind (h.installImage b hs) fun image => ?_
    exact Maintains.note_bind (Maintains.pure _)

/-! ## starting -/

/-- An image is started in lockstep: if it cannot be started, the answer says
why. -/
theorem start {P : φ → ψ → Prop} {Q : Status → φ → ψ → Prop} (h : fw.Keeps P E fw')
    (hstarts : fw.Starts P Q fw') (image : LoadedImage) (options : List UInt16) :
    Lockstep (InStep P) (LoadedImage.start fw image options) (LoadedImage.start fw' image options)
      fun status s t => (E status ∧ InStep P s t) ∨ InStep (Q status) s t := by
  unfold LoadedImage.start
  refine Lockstep.bind (Lockstep.call_and (h.interface _ _)) fun answer =>
    Lockstep.of_and fun hanswer => ?_
  cases answer with
  | error status =>
      exact Lockstep.note_bind (Lockstep.pure fun _ _ hst => .inl ⟨hanswer status rfl, hst⟩)
  | ok record =>
      refine Lockstep.bind (Lockstep.modifyObjects _) fun _ => Lockstep.note_bind ?_
      refine Lockstep.bind (Lockstep.hand (hstarts.transfer _ _)) fun status => ?_
      refine Lockstep.note_bind (Lockstep.bind (Lockstep.modifyObjects _) fun _ => ?_)
      exact Lockstep.pure fun _ _ hst => .inr hst

/-! ## unloading -/

theorem discard (h : fw.Keeps R E fw') (handle : Handle) (record path : Interface)
    (range : DevicePath.MemoryMapped) (pages : Nat) :
    Lockstep (InStep R) (LoadedImage.discard fw handle record path range pages)
      (LoadedImage.discard fw' handle record path range pages) fun _ => InStep R := by
  unfold LoadedImage.discard
  dsimp only
  refine Lockstep.bind (Lockstep.call (h.uninstall _ _)) fun status => ?_
  split
  · exact Lockstep.note_bind (Lockstep.pure fun _ _ hst => hst)
  · refine Lockstep.bind (Lockstep.call (h.freePages _ _)) fun freed => ?_
    split
    · refine Lockstep.note_bind (Lockstep.bind (Lockstep.modifyObjects _) fun _ => ?_)
      exact Lockstep.note_bind (Lockstep.pure fun _ _ hst => hst)
    · refine Lockstep.bind (Lockstep.modifyObjects _) fun _ => ?_
      exact Lockstep.note_bind (Lockstep.pure fun _ _ hst => hst)

/-- An image is unloaded in lockstep. -/
theorem unload (h : fw.Keeps R E fw') (handle : Handle) :
    Lockstep (InStep R) (LoadedImage.unload fw handle) (LoadedImage.unload fw' handle)
      fun _ => InStep R := by
  have hclose : ∀ p, Lockstep (InStep R)
      (do let _ ← Loader.call (fw.close handle p))
      (do let _ ← Loader.call (fw'.close handle p)) fun _ => InStep R :=
    fun p => Lockstep.bind (Lockstep.call (h.close handle p)) fun _ =>
      Lockstep.pure fun _ _ hst => hst
  have hcloseBoth : Lockstep (InStep R)
      (do
        let _ ← Loader.call (fw.close handle .loadedImage)
        let _ ← Loader.call (fw.close handle .loadedImageDevicePath))
      (do
        let _ ← Loader.call (fw'.close handle .loadedImage)
        let _ ← Loader.call (fw'.close handle .loadedImageDevicePath)) fun _ => InStep R :=
    Lockstep.bind (Lockstep.call (h.close handle .loadedImage)) fun _ => hclose _
  unfold LoadedImage.unload
  dsimp only
  refine Lockstep.bind (Lockstep.call (h.openExclusive _ _)) fun answer => ?_
  cases answer with
  | error status => exact Lockstep.pure fun _ _ hst => hst
  | ok path =>
      refine Lockstep.bind Lockstep.shared fun shared => ?_
      cases (shared.objects.path? path).bind DevicePath.MemoryMapped.read? with
      | none =>
          refine Lockstep.note_bind ?_
          exact Lockstep.bind (hclose _) fun _ => Lockstep.pure fun _ _ hst => hst
      | some range =>
          refine Lockstep.bind (Lockstep.call (h.openExclusive _ _)) fun answer => ?_
          cases answer with
          | error status =>
              exact Lockstep.bind (hclose _) fun _ => Lockstep.pure fun _ _ hst => hst
          | ok record =>
              refine Lockstep.bind Lockstep.shared fun shared => ?_
              split
              · refine Lockstep.note_bind ?_
                exact Lockstep.bind hcloseBoth fun _ => Lockstep.pure fun _ _ hst => hst
              · cases LoadedImage.pagesBetween? range.start range.last with
                | none =>
                    refine Lockstep.note_bind ?_
                    exact Lockstep.bind hcloseBoth fun _ => Lockstep.pure fun _ _ hst => hst
                | some pages => exact Lockstep.bind hcloseBoth fun _ => h.discard handle _ _ _ _

end Firmware.Keeps

end EfiLoader
