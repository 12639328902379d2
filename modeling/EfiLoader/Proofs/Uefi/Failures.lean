import EfiLoader.Proofs.Loader.Ends
import EfiLoader.Proofs.Loader.Started
import EfiLoader.Proofs.Uefi.FilesClosed
import EfiLoader.Uefi.Firmware
import EfiLoader.Zstd.Blocks

/-!
# EfiLoader.Proofs.Uefi.Failures

What a loader on UEFI boot services fails with.  Whatever the services answer,
a call that fails has an error as its status, except that opening a volume
hands on a status that is no error if there is no volume with it:

* `Failure` — such a status, by the calls that have been made, or an error;
* `errs_firmware`, `failsAt_openOnDevice` — the calls that the loader makes fail
  with these only;
* `status_of_run` — so a boot attempt ends with one of them or with the status
  of the image that it has started;
* `run_volumeless` — it can succeed although it has started nothing.
-/

namespace EfiLoader.Uefi

open Log

variable {β α : Type} {E : Status → Prop} {s : BootServices β}

/-! ## calls on boot services -/

/-- A call that answers has got as far as its last part. -/
theorem Call.ok_of_bind {γ : Type} {m : Call β γ} {f : γ → Call β α} {b : β} {a : α}
    (h : ((m >>= f).run.run b).value.1 = .ok a) : ∃ c b', ((f c).run.run b').value.1 = .ok a := by
  rw [ExceptT.run_bind, StateT.run_bind, Logged.value_bind] at h
  generalize (m.run.run b).value = answer at h
  obtain ⟨status | c, b'⟩ := answer
  · cases h
  · exact ⟨c, b', h⟩

/-- A call of which only the answer matters. -/
theorem alike_self {A : α → Prop} (m : StateM β α) (h : ∀ b, A (m b).1) : Alike Eq A m m := by
  rintro b _ rfl
  exact ⟨rfl, h b, rfl⟩

/-- A boot service is called first. -/
theorem maintains_service_bind {m : StateM β α} {γ : Type} {A : α → Prop} {f : α → Call β γ}
    (hm : ∀ b, A (m b).1) (hf : ∀ a, A a → Maintains Eq E (f a) (f a)) :
    Maintains Eq E (service m >>= f) (service m >>= f) := by
  refine Maintains.lift_bind (A := A) ?_ hf
  rintro b _ rfl
  exact ⟨rfl, rfl, hm b, rfl⟩

/-- A boot service is called whose answer does not matter. -/
theorem lockstep_plain (m : StateM β α) : Lockstep Eq (plain m) (plain m) fun _ => Eq := by
  rintro b _ rfl
  exact ⟨rfl, rfl, rfl⟩

theorem onlyFails_written (hE : ∀ status, status.isError = true → E status)
    (answer : Status × α) : OnlyFails E (BootServices.written answer) := by
  unfold BootServices.written
  split
  · next h => exact OnlyFails.error (hE _ h)
  · exact OnlyFails.ok _

/-! ## files -/

namespace File

variable (hE : ∀ status, status.isError = true → E status)

include hE

/-- A status is thrown as it is if it is an error, and another one that is an error if not. -/
theorem of_ite {status other : Status} (h : other.isError = true) :
    E (if status.isError then status else other) := by
  split
  · next hstatus => exact hE _ hstatus
  · exact hE _ h

theorem maintains_size [Allocator] (file : FileId) :
    Maintains Eq E (size s file) (size s file) := by
  unfold size
  refine maintains_service_bind (A := fun _ => True) (fun _ => trivial) fun answer _ => ?_
  obtain ⟨status, needed, _⟩ := answer
  dsimp only
  split
  · exact Maintains.note_bind (Maintains.throw (of_ite hE (by decide)))
  · split
    · exact Maintains.throw (hE _ (by decide))
    split
    · exact maintains_service_bind (A := fun _ => True) (fun _ => trivial) fun _ _ =>
        Maintains.throw (hE _ (by decide))
    · refine maintains_service_bind (A := fun _ => True) (fun _ => trivial) fun answer _ => ?_
      obtain ⟨status, _, info⟩ := answer
      dsimp only
      split
      · next hstatus => exact Maintains.note_bind (Maintains.throw (hE _ hstatus))
      · exact Maintains.pure _

theorem maintains_openOn (volume : FileId) (path : String) (units : List UInt16) :
    Maintains Eq E (openOn s volume path units) (openOn s volume path units) := by
  unfold openOn
  refine maintains_service_bind (A := fun _ => True) (fun _ => trivial) fun answer _ => ?_
  refine maintains_service_bind (A := fun _ => True) (fun _ => trivial) fun _ _ => ?_
  obtain ⟨status, _ | file⟩ := answer
  · exact Maintains.note_bind (Maintains.throw (of_ite hE (by decide)))
  · dsimp only
    split
    · next hstatus => exact Maintains.note_bind (Maintains.throw (hE _ hstatus))
    · exact Maintains.pure _

theorem maintains_sizeOrClose [Allocator] (file : FileId) :
    Maintains Eq E (sizeOrClose s file) (sizeOrClose s file) := by
  unfold sizeOrClose
  refine Lockstep.bind (maintains_size hE file) fun r => Lockstep.of_and fun hr => ?_
  cases r with
  | ok size => exact Lockstep.pure fun _ _ hst => ⟨hr, hst⟩
  | error status =>
      exact Lockstep.bind (lockstep_plain _) fun _ => Lockstep.pure fun _ _ hst => ⟨hr, hst⟩

/-- A read fails with an error. -/
theorem onlyFails_read (file : FileId) (asked : Nat) (b : β) :
    OnlyFails (fun e => E e.status) (read s file asked b).1 := by
  unfold read
  rcases s.readFile file asked b with ⟨⟨status, count, bytes⟩, b'⟩
  dsimp only
  split
  · next hstatus => exact OnlyFails.error (hE _ hstatus)
  · exact OnlyFails.ok _

end File

/-! ## the firmware -/

namespace BootServices

variable (hE : ∀ status, status.isError = true → E status)

include hE

theorem alike_interface (handle : Handle) (protocol : Protocol) :
    Alike Eq (OnlyFails E) (s.interface handle protocol) (s.interface handle protocol) := by
  unfold interface
  refine Alike.bind (alike_self _ fun _ => trivial) fun answer (_ : True) => ?_
  rcases hwritten : written answer with status | interface
  · exact Alike.pure (OnlyFails.error (onlyFails_written hE answer status hwritten))
  · refine Alike.pure ?_
    split
    · exact OnlyFails.error (hE _ (by decide))
    · exact OnlyFails.ok _

theorem alike_installFrom (done is : Interfaces) (handle : Handle) :
    Alike Eq (OnlyFails E) (s.installFrom done handle is) (s.installFrom done handle is) := by
  induction is generalizing done handle with
  | nil => exact Alike.pure (OnlyFails.ok handle)
  | cons i rest ih =>
      unfold installFrom
      refine Alike.bind (alike_self _ fun _ => trivial) fun answer (_ : True) => ?_
      dsimp only
      split
      · next hstatus =>
        refine Alike.bind (alike_self _ fun _ => trivial) fun _ (_ : True) => ?_
        exact Alike.pure (OnlyFails.error (hE _ hstatus))
      · exact ih _ _

omit hE in
/-- An open file is read with the service for it. -/
theorem source_of_openOnDevice [Allocator] {device : Handle} {path : String} {b : β}
    {file : OpenFile β} (h : ((s.openOnDevice device path).run b).value.1 = .ok file) :
    ∃ id size, file.source = File.source s id size := by
  unfold openOnDevice at h
  obtain ⟨answer, b, h⟩ := Call.ok_of_bind h
  cases answer with
  | error status =>
      obtain ⟨_, b, h⟩ := Call.ok_of_bind h
      cases h
  | ok fileSystem =>
      obtain ⟨⟨id, size⟩, b, h⟩ := Call.ok_of_bind h
      cases h
      exact ⟨id, size, rfl⟩

end BootServices

/-- Calls but those for files fail with errors. -/
theorem errs_firmware [Allocator] (hE : ∀ status, status.isError = true → E status)
    (self : Handle) (record : ImageRecord) (image : ByteArray) :
    (firmware s self record image).Errs E where
  allocatePages _ _ _ := onlyFails_written hE _
  install h is b := (BootServices.alike_installFrom hE [] is h b b rfl).2.1
  openExclusive _ _ _ := onlyFails_written hE _
  interface h p b := (BootServices.alike_interface hE h p b b rfl).2.1
  locate _ _ _ _ := onlyFails_written hE _
  loadImage _ _ _ := onlyFails_written hE _

/-- So does reading files. -/
theorem readErrs_firmware [Allocator] (hE : ∀ status, status.isError = true → E status)
    (self : Handle) (record : ImageRecord) (image : ByteArray) :
    (firmware s self record image).ReadErrs E := by
  intro path b file hfile n b'
  obtain ⟨id, size, hsource⟩ := BootServices.source_of_openOnDevice hfile
  rw [hsource]
  exact File.onlyFails_read hE id n b'

/-! ## files that are not opened -/

/-- What there is to fail with, after these calls: an error, or the status that
a call for a volume has been answered without one. -/
def Failure (calls : List FileCall) (status : Status) : Prop :=
  status.isError = true ∨ FileCall.openVolume status none ∈ calls

/-- The same, of the calls on the list of boot services. -/
def Booked.Fails (status : Status) (w : Booked β) : Prop := Failure w.calls status

open Booked

theorem Booked.fails_of_isError (status : Status) (w : Booked β) (h : status.isError = true) :
    Fails status w := .inl h

theorem failsAt_of_maintains {m : Call (Booked β) α}
    (h : Maintains Eq (fun status => status.isError = true) m m) : FailsAt Fails m :=
  FailsAt.of_maintains h (fun w => ⟨w, rfl⟩) fails_of_isError

/-- A volume is opened, or what the call answered is thrown. -/
theorem failsAt_openVolume (fileSystem : Interface) :
    FailsAt Fails (File.openVolume s.booked fileSystem) := by
  intro w e w' hend
  obtain ⟨⟨status, volume?⟩, left, hlast, hend⟩ : ∃ (answer : Status × Option FileId)
      (left : Booked β), FileCall.openVolume answer.1 answer.2 ∈ left.calls ∧
        ((File.handOver answer.1 answer.1
          (File.failure s!"Failed to open volume: {answer.1.text}") answer.2 :
            Call (Booked β) FileId).run.run left).value = (.error e, w') :=
    ⟨(s.openVolume fileSystem w.state).1, ⟨_, w.calls ++ [_]⟩,
      List.mem_append_right _ (List.mem_singleton_self _), hend⟩
  cases volume? with
  | none =>
      cases hend
      exact .inr hlast
  | some volume =>
      unfold File.handOver at hend
      dsimp only at hend
      split at hend
      · next hstatus =>
        cases hend
        exact .inl hstatus
      · cases hend

theorem failsAt_openPath [Allocator] (fileSystem : Interface) (path : String) :
    FailsAt Fails (File.openPath s.booked fileSystem path) := by
  unfold File.openPath
  cases FilePath.encode? path with
  | none => exact FailsAt.throw fun w => fails_of_isError _ w (by decide)
  | some units =>
      refine FailsAt.bind (failsAt_openVolume fileSystem) fun volume => ?_
      refine FailsAt.bind
        (failsAt_of_maintains (File.maintains_openOn (fun _ h => h) volume path units))
        fun file => ?_
      refine FailsAt.bind
        (failsAt_of_maintains (File.maintains_sizeOrClose (fun _ h => h) file)) fun size => ?_
      exact FailsAt.note_bind (FailsAt.pure _)

/-- A file is opened, or the device has no file system, or no such file. -/
theorem failsAt_openOnDevice [Allocator] (device : Handle) (path : String) :
    FailsAt Fails (s.booked.openOnDevice device path) := by
  unfold BootServices.openOnDevice
  have hinterface := BootServices.alike_interface (s := s.booked) (fun _ h => h) device
    .simpleFileSystem
  refine FailsAt.bind_of_answer (fun _ _ _ hend => nomatch hend) fun answer => ?_
  rintro ⟨w, hanswer⟩
  have hcall : (s.booked.interface device .simpleFileSystem w).1 = answer := Except.ok.inj hanswer
  have hfails := (hinterface w w rfl).2.1
  rw [hcall] at hfails
  cases answer with
  | error status =>
      refine FailsAt.note_bind (FailsAt.throw fun w => ?_)
      exact fails_of_isError status w (hfails status rfl)
  | ok fileSystem => exact FailsAt.bind (failsAt_openPath fileSystem path) fun _ => FailsAt.pure _

/-! ## boot attempts -/

section Boot

variable [Allocator] {self : Handle} {record : ImageRecord} {image : ByteArray}

/-- The same, of a machine. -/
def Booked.FailsOn (status : Status) (w : Machine (Booked β)) : Prop := Fails status w.firmware

theorem failsAt_openFile (path : String) :
    FailsAt FailsOn (Attempt.ofLoader
      (Loader.callNoted ((firmware s.booked self record image).openFile path))) := by
  intro w e w' hend
  obtain ⟨hanswer, hleft⟩ := Prod.mk.inj hend
  subst hleft
  exact failsAt_openOnDevice record.device path w.firmware e _ (Prod.ext hanswer rfl)

theorem failsAt_obtainPayload [Zstd.Decoder] (o : Options) (linux : Option ByteArray) :
    FailsAt FailsOn (Boot.obtainPayload (firmware s.booked self record image) o linux) :=
  Boot.failsAt_obtainPayload failsAt_openFile (readErrs_firmware (fun _ h => h) self record image)
    Status.isError_error (fun status w => fails_of_isError status w.firmware) o linux

theorem failsAt_obtainInitrd (o : Options) (embedded : Option ByteArray) :
    FailsAt FailsOn (Boot.obtainInitrd (firmware s.booked self record image) o embedded) :=
  Boot.failsAt_obtainInitrd failsAt_openFile (readErrs_firmware (fun _ h => h) self record image)
    Status.isError_error (fun status w => fails_of_isError status w.firmware) o embedded

theorem failsAt_offerInitrd (o : Options) (embedded : Option ByteArray) :
    FailsAt FailsOn (Boot.offerInitrd (firmware s.booked self record image) o embedded) :=
  Boot.failsAt_offerInitrd failsAt_openFile (readErrs_firmware (fun _ h => h) self record image)
    Status.isError_error (fun status w => fails_of_isError status w.firmware)
    (errs_firmware (fun _ h => h) self record image) o embedded

omit [Allocator] in
/-- What fails with `FailsOn` fails so without the list too. -/
theorem onlyFails_of_booked {m : Attempt (Booked β) α} {m' : Attempt β α}
    (h : Maintains (Machine.InStep (Of fun _ => True)) (fun _ => True) m m')
    (hfails : FailsAt FailsOn m) (w : Machine β) :
    OnlyFails (Failure (Attempt.ends m (Booked.ofMachine w)).2.firmware.calls)
      (Attempt.ends m' w).1 := by
  obtain ⟨-, hanswer, -⟩ := h (Booked.ofMachine w) w ⟨⟨rfl, trivial⟩, rfl, trivial⟩
  intro status hstatus
  exact hfails (Booked.ofMachine w) status _ (Prod.ext (hanswer.trans hstatus) rfl)

end Boot

/-- **The status of a boot attempt**: whatever boot services and files do, a
boot attempt ends with the status of the one image that it has started, or
with a failure if it has started none.  A failure is an error, except that the
status of `OpenVolume` is handed on if there is no volume with it: then that
call is among those that have been made.  So opening files and what depends on
it fails with such a status only; reading files, offering an initrd and loading
an image fail with errors only. -/
theorem status_of_run [Allocator] [Zstd.Decoder] (s : BootServices β) (self : Handle)
    (record : ImageRecord) (image : ByteArray) (o : Options) (m : Machine β) :
    let fw := firmware s self record image
    let booked := firmware s.booked self record image
    let start := Booked.ofMachine m
    let attempt := (Boot.run fw o m).value
    let traced := (Boot.run booked.traced o start.untraced).value
    (traced.1 = attempt.1 ∧ traced.2.firmware.state.state = attempt.2.firmware ∧
      traced.2.shared = attempt.2.shared) ∧
    ((Failure traced.2.firmware.state.calls attempt.1 ∧ traced.2.firmware.started = []) ∨
      ∃ handle, traced.2.firmware.started = [(handle, attempt.1)]) ∧
    (∀ path, OnlyFails (Failure (booked.openFile path start.firmware).value.2.calls)
      (fw.openFile path m.firmware).value.1) ∧
    (∀ path file n b, (fw.openFile path m.firmware).value.1 = .ok file →
      OnlyFails (fun e => e.status.isError = true) (file.source.read n b).1) ∧
    (∀ linux, OnlyFails
      (Failure (Attempt.ends (Boot.obtainPayload booked o linux) start).2.firmware.calls)
      (Attempt.ends (Boot.obtainPayload fw o linux) m).1) ∧
    (∀ initrd, OnlyFails
      (Failure (Attempt.ends (Boot.obtainInitrd booked o initrd) start).2.firmware.calls)
      (Attempt.ends (Boot.obtainInitrd fw o initrd) m).1) ∧
    (∀ data, OnlyFails (fun status => status.isError = true)
      (Attempt.ends (Initrd.register fw data) m).1) ∧
    (∀ data, OnlyFails (fun status => status.isError = true)
      (Attempt.ends (LoadedImage.load fw data) m).1) := by
  intro fw booked start attempt traced
  have hcoded : ∀ n, (Status.error n).isError = true := Status.isError_error
  have hErrs : booked.Errs fun status => status.isError = true :=
    errs_firmware (fun _ h => h) self record image
  obtain ⟨hstatus, hstate, hshared, hended⟩ := hErrs.run_traced hcoded
    (fun status w => fails_of_isError status w.firmware) o (failsAt_obtainPayload o)
    (failsAt_offerInitrd o) start
  -- the list of calls makes no difference to the attempt
  have hbooked := value_run_booked (s := s) self record image o m
  have hanswer : (Boot.run booked o start).value.1 = attempt.1 := congrArg Prod.fst hbooked
  have hleft : Booked.toMachine (Boot.run booked o start).value.2 = attempt.2 :=
    congrArg Prod.snd hbooked
  have hkeeps := (errs_firmware (fun _ h => h) self record image : fw.Errs _).keeps_traced
    fun _ => True
  have hm : Machine.InStep (Traced.Of fun _ => True) m.untraced m :=
    ⟨⟨rfl, trivial⟩, rfl, trivial⟩
  refine ⟨⟨hstatus.trans hanswer,
    (congrArg Booked.state hstate).trans (congrArg Machine.firmware hleft),
    hshared.trans (congrArg Machine.shared hleft)⟩, ?_, ?_, ?_, ?_, ?_, ?_, ?_⟩
  · rw [← hanswer]
    refine hended.imp_left fun ⟨hfails, hnone⟩ => ⟨?_, hnone⟩
    rw [hstate]
    exact hfails
  · intro path status hopen
    obtain ⟨-, hsame, -⟩ := opens_booked (s := s) path start.firmware m.firmware ⟨rfl, trivial⟩
    rw [hopen] at hsame
    exact failsAt_openOnDevice record.device path start.firmware status _
      (Prod.ext hsame.eq_error rfl)
  · intro path file n b hfile
    obtain ⟨id, size, hsource⟩ := BootServices.source_of_openOnDevice hfile
    rw [hsource]
    exact File.onlyFails_read (fun _ h => h) id n b
  · exact fun linux => onlyFails_of_booked
      (opens_booked.obtainPayload (fun _ => trivial) o linux) (failsAt_obtainPayload o linux) m
  · exact fun initrd => onlyFails_of_booked
      (opens_booked.obtainInitrd (fun _ => trivial) o initrd) (failsAt_obtainInitrd o initrd) m
  · exact fun data => (hkeeps.register hcoded data).onlyFails hm
  · exact fun data => (hkeeps.load hcoded data).onlyFails hm

/-- Boot services that fail, but that have a file system whose volume opens
with success and is not there. -/
def volumeless : BootServices Unit where
  allocatePages _ _ := return (Status.outOfResources, 0)
  freePages _ _ := return Status.notFound
  installProtocol handle _ _ := return (Status.outOfResources, handle)
  uninstallProtocol _ _ _ := return Status.invalidParameter
  openProtocol _ _ _ _ := return (Status.unsupported, Interface.null)
  closeProtocol _ _ _ := return Status.notFound
  handleProtocol _ _ := return (Status.success, .raw 1)
  locateDevicePath _ _ _ := return (Status.notFound, Handle.null)
  loadImage _ _ _ := return (Status.unsupported, Handle.null, none)
  startImage _ _ := return Status.unsupported
  unloadImage _ := return Status.invalidParameter
  enter _ _ _ := return Status.unsupported
  openVolume _ := return (Status.success, none)
  openFile _ _ _ _ := return (Status.notFound, none)
  closeFile _ := return
  fileInfo _ _ _ := return (Status.deviceError, 0, ByteArray.empty)
  readFile _ _ := return (Status.deviceError, 0, ByteArray.empty)
  stop _ := return

/-- A failure need not be an error: an attempt that finds no volume succeeds,
and has started nothing. -/
theorem run_volumeless :
    let _ := Allocator.unlimited
    let _ := Zstd.Blocks.decoder
    let fw := firmware volumeless ⟨0x1000⟩ {} ByteArray.empty
    let m : Machine Unit := ⟨(), { memory := Memory.filled 0 }⟩
    (Boot.run fw {} m).value.1 = Status.success ∧
      (Boot.run fw.traced {} m.untraced).value.2.firmware.started = [] :=
  ⟨rfl, rfl⟩

end EfiLoader.Uefi
