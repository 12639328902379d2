import EfiLoader.Proofs.Loader.Image
import EfiLoader.Proofs.Loader.Journal

/-!
# EfiLoader.Proofs.Loader.Execution

Which loader an image is started with, and what the status of its execution is.
Both can be told from the image and the firmware, stage by stage:

* `Foreign`, `Loads`, `Fails` — what there is to know of an image beforehand;
* `Foreign.run`, `Loads.run`, `Fails.run` — what its execution then is;
* `executed_of_runImage` — the three are all there is, so only foreign images go
  to the firmware's loader, and the status is that of the one image that was
  started or of what went wrong before.
-/

namespace EfiLoader.Boot

open Log Pe

variable {φ : Type} {fw : Firmware φ} {m s : Machine φ} {data : ByteArray}

/-! ## stages of the built-in loader -/

/-- The headers are not supported. -/
def Foreign (data : ByteArray) : Prop :=
  ∃ e, Headers.parse data Platform.native = .error e ∧ Fault.status e = Status.unsupported

/-- The headers are accepted, and the machine `s` has pages for them. -/
def Allocates (fw : Firmware φ) (m : Machine φ) (data : ByteArray) (h : Headers) (b : PageBuffer)
    (s : Machine φ) : Prop :=
  Headers.parse data Platform.native = .ok h ∧
    Attempt.ends (PageBuffer.allocate fw h.imageSize h.sectionAlignment loaderCode) m = (.ok b, s)

/-- The entry point is inside the image, its sections are in place and its
fields are changed for its base; the machine `s` has the image in memory. -/
def Places (fw : Firmware φ) (m : Machine φ) (data : ByteArray) (h : Headers) (b : PageBuffer)
    (s : Machine φ) : Prop :=
  ∃ s₁ bytes, Allocates fw m data h b s₁ ∧ assembled h data b.base = .ok bytes ∧
    s = { s₁ with shared := { s₁.shared with memory := s₁.shared.memory.write b.base bytes } }

/-- The image has a handle in the machine `s`. -/
def Installs (fw : Firmware φ) (m : Machine φ) (data : ByteArray) (image : LoadedImage)
    (s : Machine φ) : Prop :=
  ∃ h b s₁, Places fw m data h b s₁ ∧
    Attempt.ends (LoadedImage.install fw b h) s₁ = (.ok image, s)

/-- All stages succeed, and the record of the image is found. -/
def Loads (fw : Firmware φ) (m : Machine φ) (data : ByteArray) (image : LoadedImage) : Prop :=
  ∃ s record, Installs fw m data image s ∧
    (fw.interface image.handle .loadedImage s.firmware).1 = .ok record

/-- One of the stages fails, and with which status; the headers do so if they
are supported but not right. -/
inductive Fails (fw : Firmware φ) (m : Machine φ) (data : ByteArray) : Status → Prop
  | headers {e : HeaderError} : Headers.parse data Platform.native = .error e →
      Fault.status e ≠ Status.unsupported → Fails fw m data (Fault.status e)
  | pages {h : Headers} {status : Status} : Headers.parse data Platform.native = .ok h →
      (Attempt.ends (PageBuffer.allocate fw h.imageSize h.sectionAlignment loaderCode) m).1 =
        .error status →
      Fails fw m data status
  | memory {h : Headers} {b : PageBuffer} {s : Machine φ} {status : Status} :
      Allocates fw m data h b s → Broken h data b.base status → Fails fw m data status
  | handle {h : Headers} {b : PageBuffer} {s : Machine φ} {status : Status} :
      Places fw m data h b s →
      (Attempt.ends (LoadedImage.install fw b h) s).1 = .error status → Fails fw m data status
  | record {image : LoadedImage} {s : Machine φ} {status : Status} :
      Installs fw m data image s →
      (fw.interface image.handle .loadedImage s.firmware).1 = .error status →
      Fails fw m data status

theorem ends_placeImage_eq_ok_iff_places {h : Headers} {b : PageBuffer}
    (hparse : Headers.parse data Platform.native = .ok h) :
    Attempt.ends (placeImage fw h data) m = (.ok b, s) ↔ Places fw m data h b s := by
  rw [ends_placeImage_eq_ok_iff]
  exact exists_congr fun s₁ => exists_congr fun bytes =>
    ⟨fun ⟨hallocate, hrest⟩ => ⟨⟨hparse, hallocate⟩, hrest⟩,
      fun ⟨hallocates, hrest⟩ => ⟨hallocates.2, hrest⟩⟩

theorem Places.parse {h : Headers} {b : PageBuffer} (hp : Places fw m data h b s) :
    Headers.parse data Platform.native = .ok h := by
  obtain ⟨_, _, hallocates, -⟩ := hp
  exact hallocates.1

theorem ends_load_eq_ok_iff {image : LoadedImage} :
    Attempt.ends (LoadedImage.load fw data) m = (.ok image, s) ↔ Installs fw m data image s := by
  refine LoadedImage.ends_loadFor_eq_ok_iff.trans ⟨?_, ?_⟩
  · rintro ⟨-, h, b, s₁, hparse, hplace, hinstall⟩
    exact ⟨h, b, s₁, (ends_placeImage_eq_ok_iff_places hparse).mp hplace, hinstall⟩
  · rintro ⟨h, b, s₁, hplaces, hinstall⟩
    have hparse := hplaces.parse
    exact ⟨size_ne_zero_of_parse hparse, h, b, s₁, hparse,
      (ends_placeImage_eq_ok_iff_places hparse).mpr hplaces, hinstall⟩

theorem Installs.parse {image : LoadedImage} (hi : Installs fw m data image s) :
    ∃ h, Headers.parse data Platform.native = .ok h := by
  obtain ⟨h, _, _, hplaces, -⟩ := hi
  exact ⟨h, hplaces.parse⟩

/-- Loading fails with a stage before the record is looked for. -/
theorem ends_load_fst_eq_error_iff {h : Headers}
    (hparse : Headers.parse data Platform.native = .ok h) {status : Status} :
    (Attempt.ends (LoadedImage.load fw data) m).1 = .error status ↔
      (Attempt.ends (PageBuffer.allocate fw h.imageSize h.sectionAlignment loaderCode) m).1 =
          .error status ∨
        (∃ b s, Allocates fw m data h b s ∧ Broken h data b.base status) ∨
        ∃ b s, Places fw m data h b s ∧
          (Attempt.ends (LoadedImage.install fw b h) s).1 = .error status := by
  refine (LoadedImage.ends_loadFor_fst_eq_error_iff hparse).trans ?_
  rw [ends_placeImage_fst_eq_error_iff, or_assoc]
  refine or_congr_right (or_congr ?_ ?_)
  · simp only [Allocates, hparse, true_and]
  · simp only [ends_placeImage_eq_ok_iff_places hparse]

/-! ## where execution ends -/

/-- What is shared, with load options in the record that an image has. -/
def withLoadOptions (record : Except Status Interface) (units : List UInt16) (s : Shared) :
    Shared :=
  match record with
  | .error _ => s
  | .ok record =>
    { s with objects := s.objects.updateImage record fun r => r.setLoadOptions units }

section Ends

variable {options : List UInt16}

theorem ends_runImage_of_ok {h : Headers} (hparse : Headers.parse data Platform.native = .ok h) :
    Loader.ends (runImage fw .builtin data options) m =
      Loader.ends (runBuiltin fw data options) m := by
  unfold runImage
  rw [Loader.ends_bind, Loader.ends_logged, Headers.value_parseNoted, hparse]
  rfl

theorem ends_runImage_of_error {e : HeaderError}
    (hparse : Headers.parse data Platform.native = .error e) :
    Loader.ends (runImage fw .builtin data options) m =
      if Fault.status e = Status.unsupported then
        Loader.ends (runThroughFirmware fw data options) m
      else (Fault.status e, m) := by
  unfold runImage
  rw [Loader.ends_bind, Loader.ends_logged, Headers.value_parseNoted, hparse]
  change Loader.ends (if Fault.status e = Status.unsupported then _ else _) m = _
  split
  · rfl
  · rfl

theorem ends_runBuiltin_of_error {status : Status}
    (hload : Attempt.ends (LoadedImage.load fw data) m = (.error status, s)) :
    Loader.ends (runBuiltin fw data options) m = (status, s) := by
  have hrun : Loader.ends (LoadedImage.load fw data).run m = (.error status, s) := hload
  rw [runBuiltin, Loader.ends_bind, hrun]
  rfl

/-- What has been loaded is started and unloaded; unloading does not change the
status. -/
theorem ends_runBuiltin_of_ok {image : LoadedImage}
    (hload : Attempt.ends (LoadedImage.load fw data) m = (.ok image, s)) :
    Loader.ends (runBuiltin fw data options) m =
      ((Loader.ends (LoadedImage.start fw image options) s).1,
        (Loader.ends (LoadedImage.unload fw image.handle)
          (Loader.ends (LoadedImage.start fw image options) s).2).2) := by
  have hrun : Loader.ends (LoadedImage.load fw data).run m = (.ok image, s) := hload
  rw [runBuiltin, Loader.ends_bind, hrun]
  simp only [Loader.ends_bind, Loader.ends_note_if, Loader.ends_pure]

theorem ends_runThroughFirmware_of_error {status : Status}
    (hload : Loader.ends (loadWithFirmware fw data) m = (.error status, s)) :
    Loader.ends (runThroughFirmware fw data options) m = (status, s) := by
  rw [runThroughFirmware, Loader.ends_bind, hload]
  rfl

/-- What has returned is unloaded, and the status stays what it is. -/
theorem ends_unloadImage (h : Handle) (status : Status) :
    Loader.ends (do
        let unloaded ← Loader.call (fw.unloadImage h)
        if unloaded.isError then
          note (Component.boot.warn s!"Firmware failed to unload image: {unloaded.text}")
        return status) m =
      (status, ⟨(fw.unloadImage h m.firmware).2, m.shared⟩) := by
  rw [Loader.ends_bind, Loader.ends_note_if, Loader.ends_call, Loader.ends_pure]

/-- What the firmware has loaded is started and unloaded by the firmware; its
record, if it has one, has the load options meanwhile. -/
theorem ends_runThroughFirmware_of_ok {h : Handle}
    (hload : Loader.ends (loadWithFirmware fw data) m = (.ok h, s)) :
    Loader.ends (runThroughFirmware fw data options) m =
      let found := fw.interface h .loadedImage s.firmware
      let running := withLoadOptions found.1 options s.shared
      let started := (fw.startImage h running found.2).value
      (started.1, ⟨(fw.unloadImage h started.2).2, withLoadOptions found.1 [] running⟩) := by
  have hcall : Loader.ends (Loader.call (fw.interface h .loadedImage)) s =
      ((fw.interface h .loadedImage s.firmware).1,
        ⟨(fw.interface h .loadedImage s.firmware).2, s.shared⟩) := rfl
  rw [runThroughFirmware, Loader.ends_bind, hload]
  dsimp only
  rw [Loader.ends_bind, hcall]
  generalize fw.interface h .loadedImage s.firmware = found
  obtain ⟨status | record, f⟩ := found
  · exact ends_unloadImage h _
  · exact ends_unloadImage h _

end Ends

/-! ## the firmware's loader -/

/-- The calls for an image that goes to the firmware's loader, and the status
of its execution: the image is refused, or it is started and unloaded. -/
inductive ThroughFirmware (data : ByteArray) (status : Status) : List Firmware.Call → Prop
  | refused : ThroughFirmware data status [.loadImage data (.error status)]
  | started (h : Handle) (unloaded : Status) : ThroughFirmware data status
      [.loadImage data (.ok h), .interface h .loadedImage, .startImage h status,
        .unloadImage h unloaded]

/-- Loading through the firmware is one call, the answer of which is that of the
firmware. -/
theorem calls_loadWithFirmware (fw : Firmware φ) (data : ByteArray) (m : Machine φ) :
    let loaded := Loader.ends (loadWithFirmware fw.journaled data) m.journaled
    loaded.2.firmware.calls = [.loadImage data loaded.1] := by
  dsimp only
  unfold loadWithFirmware
  simp only [Loader.ends_bind, Loader.ends_modifyObjects, Loader.ends_call, Firmware.journaled,
    Journaled.write, Machine.journaled]
  rcases (fw.loadImage data m.shared.objects.fresh.1 m.firmware).1 with ⟨r, _ | record⟩
  · rfl
  · rfl

theorem through_runThroughFirmware (fw : Firmware φ) (data : ByteArray) (options : List UInt16)
    (m : Machine φ) :
    let run := Loader.ends (runThroughFirmware fw.journaled data options) m.journaled
    ThroughFirmware data run.1 run.2.firmware.calls := by
  have hcalls := calls_loadWithFirmware fw data m
  dsimp only at hcalls ⊢
  rcases hload : Loader.ends (loadWithFirmware fw.journaled data) m.journaled
    with ⟨status | h, loaded⟩
  · rw [hload] at hcalls
    rw [ends_runThroughFirmware_of_error hload, hcalls]
    exact .refused
  · rw [hload] at hcalls
    rw [ends_runThroughFirmware_of_ok hload]
    change ThroughFirmware data _ (((loaded.firmware.calls ++ [_]) ++ [_]) ++ [_])
    rw [hcalls]
    exact .started h _

/-! ## the two loaders -/

/-- A foreign image goes to the firmware's loader. -/
theorem Foreign.run (hforeign : Foreign data) (fw : Firmware φ) (options : List UInt16)
    (m : Machine φ) :
    let run := Loader.ends (runImage fw.journaled .builtin data options) m.journaled
    ThroughFirmware data run.1 run.2.firmware.calls := by
  obtain ⟨e, hparse, hstatus⟩ := hforeign
  dsimp only
  rw [ends_runImage_of_error hparse, if_pos hstatus]
  exact through_runThroughFirmware fw data options m

/-- An image that has been loaded is left to the built-in loader. -/
theorem Installs.run {image : LoadedImage} (hinstalls : Installs fw m data image s)
    (options : List UInt16) :
    ∃ loaded : Machine (Journaled φ), loaded.unjournaled = s ∧ loaded.firmware.images = [] ∧
      let run := Loader.ends (runImage fw.journaled .builtin data options) m.journaled
      let started := Loader.ends (LoadedImage.start fw.journaled image options) loaded
      run.1 = started.1 ∧ run.2.firmware.images = started.2.firmware.images := by
  obtain ⟨h, hparse⟩ := hinstalls.parse
  obtain ⟨loaded, hload, hmachine, himages⟩ := ends_load_journaled fw m.journaled data
  have hplain : Attempt.ends (LoadedImage.load fw data) m.journaled.unjournaled = (.ok image, s) :=
    ends_load_eq_ok_iff.mpr hinstalls
  rw [hplain] at hload hmachine
  refine ⟨loaded, hmachine.symm, himages, ?_⟩
  dsimp only
  rw [ends_runImage_of_ok hparse, ends_runBuiltin_of_ok hload]
  exact ⟨rfl, ends_unload_journaled fw _ image.handle⟩

/-- If its record is found, it is started, and nothing else is done with images. -/
theorem Loads.run {image : LoadedImage} (hloads : Loads fw m data image) (options : List UInt16) :
    let run := Loader.ends (runImage fw.journaled .builtin data options) m.journaled
    run.2.firmware.images = [.transfer image.handle image.entryPoint run.1] := by
  obtain ⟨s, record, hinstalls, hrecord⟩ := hloads
  obtain ⟨loaded, rfl, himages, hstatus, hrun⟩ := hinstalls.run options
  have hstart := ends_start_journaled_of_ok options hrecord
  dsimp only
  rw [hrun, hstart, hstatus, himages, List.nil_append]

/-- An image that is not loaded is not started, and there is nothing to do with
images. -/
theorem run_of_load_error {h : Headers} {status : Status}
    (hparse : Headers.parse data Platform.native = .ok h)
    (hload : (Attempt.ends (LoadedImage.load fw data) m).1 = .error status)
    (options : List UInt16) :
    let run := Loader.ends (runImage fw.journaled .builtin data options) m.journaled
    run.1 = status ∧ run.2.firmware.images = [] := by
  obtain ⟨loaded, hjournaled, -, himages⟩ := ends_load_journaled fw m.journaled data
  have hplain : (Attempt.ends (LoadedImage.load fw data) m.journaled.unjournaled).1 =
    .error status := hload
  rw [hplain] at hjournaled
  dsimp only
  rw [ends_runImage_of_ok hparse, ends_runBuiltin_of_error hjournaled]
  exact ⟨rfl, himages⟩

/-- Whatever fails is final: its status is that of the execution, and there is
nothing to do with images. -/
theorem Fails.run {status : Status} (hfails : Fails fw m data status) (options : List UInt16) :
    let run := Loader.ends (runImage fw.journaled .builtin data options) m.journaled
    run.1 = status ∧ run.2.firmware.images = [] := by
  cases hfails with
  | headers hparse hstatus =>
      dsimp only
      rw [ends_runImage_of_error hparse, if_neg hstatus]
      exact ⟨rfl, rfl⟩
  | pages hparse hallocate =>
      exact run_of_load_error hparse
        ((ends_load_fst_eq_error_iff hparse).mpr (.inl hallocate)) options
  | memory hallocates hbroken =>
      exact run_of_load_error hallocates.1
        ((ends_load_fst_eq_error_iff hallocates.1).mpr (.inr (.inl ⟨_, _, hallocates, hbroken⟩)))
        options
  | handle hplaces hinstall =>
      exact run_of_load_error hplaces.parse
        ((ends_load_fst_eq_error_iff hplaces.parse).mpr (.inr (.inr ⟨_, _, hplaces, hinstall⟩)))
        options
  | record hinstalls hrecord =>
      obtain ⟨loaded, rfl, himages, hstatus, hrun⟩ := hinstalls.run options
      obtain ⟨hstart, hleft⟩ := ends_start_journaled_of_error options hrecord
      exact ⟨hstatus.trans hstart, hrun.trans (hleft.trans himages)⟩

/-- An image is foreign, or it is loaded, or a stage fails. -/
theorem foreign_or_loads_or_fails (fw : Firmware φ) (m : Machine φ) (data : ByteArray) :
    Foreign data ∨ (∃ image, Loads fw m data image) ∨ ∃ status, Fails fw m data status := by
  cases hparse : Headers.parse data Platform.native with
  | error e =>
      by_cases hstatus : Fault.status e = Status.unsupported
      · exact .inl ⟨e, hparse, hstatus⟩
      · exact .inr (.inr ⟨_, .headers hparse hstatus⟩)
  | ok h =>
      rcases hload : Attempt.ends (LoadedImage.load fw data) m with ⟨status | image, s⟩
      · have hfails : (Attempt.ends (LoadedImage.load fw data) m).1 = .error status := by rw [hload]
        rcases (ends_load_fst_eq_error_iff hparse).mp hfails with
          hallocate | ⟨b, s', hallocates, hbroken⟩ | ⟨b, s', hplaces, hinstall⟩
        · exact .inr (.inr ⟨status, .pages hparse hallocate⟩)
        · exact .inr (.inr ⟨status, .memory hallocates hbroken⟩)
        · exact .inr (.inr ⟨status, .handle hplaces hinstall⟩)
      · have hinstalls := ends_load_eq_ok_iff.mp hload
        cases hrecord : (fw.interface image.handle .loadedImage s.firmware).1 with
        | error status => exact .inr (.inr ⟨status, .record hinstalls hrecord⟩)
        | ok record => exact .inr (.inl ⟨image, s, record, hinstalls, hrecord⟩)

/-! ## the theorem -/

/-- What an execution in builtin mode has come to, when it ended with `status`
and the journal `w`: only foreign images are loaded by the firmware, only images
that pass all stages are entered, and a stage that fails is final. -/
structure Executed (fw : Firmware φ) (m : Machine φ) (data : ByteArray) (status : Status)
    (w : Journaled φ) : Prop where
  fallback : (∃ bytes answer, .loadImage bytes answer ∈ w.calls) ↔ Foreign data
  transfer : (∃ h entryPoint returned, .transfer h entryPoint returned ∈ w.calls) ↔
    ∃ image, Loads fw m data image
  exclusive : ¬((∃ bytes answer, .loadImage bytes answer ∈ w.calls) ∧
    ∃ h entryPoint returned, .transfer h entryPoint returned ∈ w.calls)
  total : Foreign data ∨ (∃ image, Loads fw m data image) ∨ ∃ failure, Fails fw m data failure
  started : ∀ image, Loads fw m data image →
    w.images = [.transfer image.handle image.entryPoint status]
  failed : ∀ failure, Fails fw m data failure → status = failure ∧ w.images = []

/-- What the image has returned is the status. -/
theorem ThroughFirmware.returned {status returned : Status} {calls : List Firmware.Call}
    (h : ThroughFirmware data status calls) {c : Firmware.Call} (hmem : c ∈ calls)
    (hc : c.returned? = some returned) : status = returned := by
  cases h with
  | refused =>
      obtain rfl := List.mem_singleton.mp hmem
      cases hc
  | started handle unloaded =>
      simp only [List.mem_cons, List.not_mem_nil, or_false] at hmem
      rcases hmem with rfl | rfl | rfl | rfl
      · cases hc
      · cases hc
      · cases hc
        rfl
      · cases hc

/-- The firmware's loader transfers nothing to an entry point by itself. -/
theorem ThroughFirmware.no_transfer {status : Status} {calls : List Firmware.Call}
    (h : ThroughFirmware data status calls) (handle : Handle) (entryPoint : Nat)
    (returned : Status) : .transfer handle entryPoint returned ∉ calls := by
  cases h with
  | refused => simp
  | started handle unloaded => simp

theorem ThroughFirmware.mem_loadImage {status : Status} {calls : List Firmware.Call}
    (h : ThroughFirmware data status calls) : ∃ answer, .loadImage data answer ∈ calls := by
  cases h with
  | refused => exact ⟨_, List.mem_cons_self⟩
  | started handle unloaded => exact ⟨_, List.mem_cons_self⟩

/-- The three ways in which an execution can go leave nothing open, so it can be
told from the journal which of them it was. -/
theorem executed_of_each {status : Status} {w : Journaled φ}
    (hthrough : Foreign data → ThroughFirmware data status w.calls)
    (hstarted : ∀ image, Loads fw m data image →
      w.images = [.transfer image.handle image.entryPoint status])
    (hfailed : ∀ failure, Fails fw m data failure → status = failure ∧ w.images = []) :
    Executed fw m data status w := by
  have htotal := foreign_or_loads_or_fails fw m data
  have hfallback : (∃ bytes answer, .loadImage bytes answer ∈ w.calls) ↔ Foreign data := by
    constructor
    · rintro ⟨bytes, answer, hmem⟩
      have himages := Journaled.mem_images hmem rfl
      rcases htotal with hforeign | ⟨image, hloads⟩ | ⟨failure, hfails⟩
      · exact hforeign
      · rw [hstarted image hloads, List.mem_singleton] at himages
        cases himages
      · rw [(hfailed failure hfails).2] at himages
        cases himages
    · intro hforeign
      exact ⟨data, (hthrough hforeign).mem_loadImage⟩
  have htransfer : (∃ h entryPoint returned, .transfer h entryPoint returned ∈ w.calls) ↔
      ∃ image, Loads fw m data image := by
    constructor
    · rintro ⟨h, entryPoint, returned, hmem⟩
      rcases htotal with hforeign | hloads | ⟨failure, hfails⟩
      · exact absurd hmem ((hthrough hforeign).no_transfer _ _ _)
      · exact hloads
      · have himages := Journaled.mem_images hmem rfl
        rw [(hfailed failure hfails).2] at himages
        cases himages
    · rintro ⟨image, hloads⟩
      have himages : .transfer image.handle image.entryPoint status ∈ w.images := by
        rw [hstarted image hloads]
        exact List.mem_singleton_self _
      exact ⟨_, _, _, (List.mem_filter.mp himages).1⟩
  exact {
    fallback := hfallback
    transfer := htransfer
    exclusive := by
      rintro ⟨hload, h, entryPoint, returned, hmem⟩
      exact (hthrough (hfallback.mp hload)).no_transfer _ _ _ hmem
    total := htotal
    started := hstarted
    failed := hfailed }

/-- The journal does not change the execution. -/
theorem ends_runImage_journaled (fw : Firmware φ) (mode : LoaderChoice) (data : ByteArray)
    (options : List UInt16) (m : Machine φ) :
    let run := Loader.ends (runImage fw.journaled mode data options) m.journaled
    Loader.ends (runImage fw mode data options) m = (run.1, run.2.unjournaled) := by
  obtain ⟨-, hstatus, hended⟩ := fw.keeps_journaled.runImage (fun _ => fw.keeps_journaled)
    fw.starts_journaled (fun _ => trivial) mode data options m.journaled m
    ⟨⟨rfl, trivial⟩, rfl, trivial⟩
  have hmachine := hended.elim (fun h => h.2.unjournaled_eq) Machine.InStep.unjournaled_eq
  exact Prod.ext hstatus.symm hmachine.symm

/-- In either mode, an image that was started has returned the status. -/
theorem Executed.returned {status returned : Status} {w : Journaled φ}
    (h : Executed fw m data status w)
    (hthrough : Foreign data → ThroughFirmware data status w.calls) {c : Firmware.Call}
    (hmem : c ∈ w.calls) (hc : c.returned? = some returned) : status = returned := by
  have himages := Journaled.mem_images hmem (Firmware.Call.ofImage_of_returned hc)
  rcases h.total with hforeign | ⟨image, hloads⟩ | ⟨failure, hfails⟩
  · exact (hthrough hforeign).returned hmem hc
  · rw [h.started image hloads, List.mem_singleton] at himages
    subst himages
    cases hc
    rfl
  · rw [(h.failed failure hfails).2] at himages
    cases himages

/-- **Execution**: the journal does not change what is done.  In builtin mode only
foreign images are loaded by the firmware, and control is transferred to an
image if and only if all stages of the built-in loader succeed; any stage that
fails is final, with its status and nothing started.  In firmware mode the calls
are those of the firmware's loader and no others.  The status is what the image
has returned that was started, whatever is said when it is unloaded. -/
theorem executed_of_runImage (fw : Firmware φ) (mode : LoaderChoice) (data : ByteArray)
    (options : List UInt16) (m : Machine φ) :
    let run := Loader.ends (runImage fw.journaled mode data options) m.journaled
    Loader.ends (runImage fw mode data options) m = (run.1, run.2.unjournaled) ∧
      (mode = .builtin → Executed fw m data run.1 run.2.firmware) ∧
      (mode = .firmware ∨ Foreign data → ThroughFirmware data run.1 run.2.firmware.calls) ∧
      ∀ c ∈ run.2.firmware.calls, ∀ returned, c.returned? = some returned → run.1 = returned := by
  refine ⟨ends_runImage_journaled fw mode data options m, ?_⟩
  cases mode with
  | builtin =>
      have hthrough (hforeign : Foreign data) := hforeign.run fw options m
      have hexecuted := executed_of_each hthrough
        (fun _ hloads => hloads.run options) fun _ hfails => hfails.run options
      refine ⟨fun _ => hexecuted, ?_, fun c hmem returned => hexecuted.returned hthrough hmem⟩
      rintro (⟨⟨⟩⟩ | hforeign)
      exact hthrough hforeign
  | firmware =>
      have hthrough := through_runThroughFirmware fw data options m
      exact ⟨nofun, fun _ => hthrough, fun c hmem returned => hthrough.returned hmem⟩

end EfiLoader.Boot
