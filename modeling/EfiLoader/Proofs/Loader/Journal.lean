import EfiLoader.Proofs.Loader.Ends
import EfiLoader.Proofs.Lockstep.Boot

/-!
# EfiLoader.Proofs.Loader.Journal

Firmware that keeps a journal of its calls, so that it can be seen which of two
loaders was used and what the images said that were started:

* `Firmware.journaled` — the firmware with its journal, which the loader does
  not notice;
* `ends_load_journaled`, `ends_unload_journaled` — the built-in loader loads and
  unloads images without the services that the firmware has for it;
* `ends_start_journaled_of_ok` — it starts one by a transfer to its entry point.
-/

namespace EfiLoader

open Log

variable {φ α : Type}

/-! ## the journal -/

/-- A call of the firmware; calls for images also have the answer. -/
inductive Firmware.Call where
  | allocatePages (memoryType : UInt32) (pages : Nat)
  | freePages (address pages : Nat)
  | install (h : Handle) (is : Interfaces)
  | uninstall (h : Handle) (is : Interfaces)
  | openExclusive (h : Handle) (p : Protocol)
  | close (h : Handle) (p : Protocol)
  | interface (h : Handle) (p : Protocol)
  | locate (p : Protocol) (path : Interface)
  | openFile (path : String)
  | transfer (h : Handle) (entryPoint : Nat) (status : Status)
  | loadImage (data : ByteArray) (answer : Except Status Handle)
  | startImage (h : Handle) (status : Status)
  | unloadImage (h : Handle) (status : Status)

namespace Firmware.Call

/-- Whether the call loads, starts or unloads an image. -/
def ofImage : Firmware.Call → Bool
  | transfer .. | loadImage .. | startImage .. | unloadImage .. => true
  | _ => false

/-- The status that an image has returned, if the call has started one. -/
def returned? : Firmware.Call → Option Status
  | transfer _ _ status | startImage _ status => some status
  | _ => none

end Firmware.Call

/-- A firmware's state, and all calls of it, the oldest first. -/
structure Journaled (φ : Type) where
  state : φ
  calls : List Firmware.Call := []

namespace Journaled

/-- The calls that load, start or unload images. -/
def images (w : Journaled φ) : List Firmware.Call := w.calls.filter Firmware.Call.ofImage

/-- A call that is not written down. -/
def pass (m : StateM φ α) : StateM (Journaled φ) α := fun w =>
  ((m w.state).1, { w with state := (m w.state).2 })

/-- A call is written down when it has been answered. -/
def write (c : α → Firmware.Call) (m : StateM φ α) : StateM (Journaled φ) α := fun w =>
  ((m w.state).1, ⟨(m w.state).2, w.calls ++ [c (m w.state).1]⟩)

/-- So is one with log lines. -/
def writeNoted (c : α → Firmware.Call) (m : StateT φ Logged α) :
    StateT (Journaled φ) Logged α := fun w =>
  ⟨(m w.state).lines, (m w.state).value.1,
    ⟨(m w.state).value.2, w.calls ++ [c (m w.state).value.1]⟩⟩

/-- An open file, the uses of which are not written down. -/
def passFile (f : OpenFile φ) : OpenFile (Journaled φ) where
  source := { size := f.source.size, read := fun n => pass (f.source.read n) }
  close := pass f.close

end Journaled

open Journaled in
/-- The firmware `fw` with a journal. -/
def Firmware.journaled (fw : Firmware φ) : Firmware (Journaled φ) where
  allocatePages memoryType pages :=
    write (fun _ => .allocatePages memoryType pages) (fw.allocatePages memoryType pages)
  freePages address pages := write (fun _ => .freePages address pages) (fw.freePages address pages)
  install h is := write (fun _ => .install h is) (fw.install h is)
  uninstall h is := write (fun _ => .uninstall h is) (fw.uninstall h is)
  openExclusive h p := write (fun _ => .openExclusive h p) (fw.openExclusive h p)
  close h p := write (fun _ => .close h p) (fw.close h p)
  interface h p := write (fun _ => .interface h p) (fw.interface h p)
  locate p path shared := write (fun _ => .locate p path) (fw.locate p path shared)
  transfer h entryPoint shared :=
    writeNoted (.transfer h entryPoint) (fw.transfer h entryPoint shared)
  loadImage data id := write (fun answer => .loadImage data answer.1) (fw.loadImage data id)
  startImage h shared := writeNoted (.startImage h) (fw.startImage h shared)
  unloadImage h := write (.unloadImage h) (fw.unloadImage h)
  openFile path := fun w =>
    let opened := fw.openFile path w.state
    ⟨opened.lines, opened.value.1.map passFile,
      ⟨opened.value.2, w.calls ++ [.openFile path]⟩⟩
  imageHandle := fw.imageHandle
  systemTable := fw.systemTable
  deviceHandle := fw.deviceHandle
  ownImage := fw.ownImage
  loadOptions := fw.loadOptions

/-- The machine with an empty journal. -/
def Machine.journaled (m : Machine φ) : Machine (Journaled φ) := ⟨⟨m.firmware, []⟩, m.shared⟩

/-- The machine without its journal. -/
def Machine.unjournaled (w : Machine (Journaled φ)) : Machine φ := ⟨w.firmware.state, w.shared⟩

/-! ## calls for images -/

theorem Firmware.Call.ofImage_of_returned {c : Firmware.Call} {status : Status}
    (hc : c.returned? = some status) : c.ofImage = true := by
  cases c with
  | transfer _ _ _ => rfl
  | startImage _ _ => rfl
  | _ => cases hc

theorem Journaled.mem_images {w : Journaled φ} {c : Firmware.Call} (hmem : c ∈ w.calls)
    (hc : c.ofImage = true) : c ∈ w.images :=
  List.mem_filter.mpr ⟨hmem, hc⟩

/-- A call that has nothing to do with images does not show among those that
have. -/
theorem Journaled.filter_ofImage_append (l calls : List Firmware.Call) (c : Firmware.Call)
    (hc : c.ofImage = false)
    (h : calls.filter Firmware.Call.ofImage = l) :
    (calls ++ [c]).filter Firmware.Call.ofImage = l := by
  rw [List.filter_append, h, List.filter_cons_of_neg (by rw [hc]; exact Bool.false_ne_true),
    List.filter_nil, List.append_nil]

/-! ## in lockstep -/

namespace Journaled

/-- The firmware is in the state `s`, and `L` holds of the journal. -/
def Of (L : List Firmware.Call → Prop) (w : Journaled φ) (s : φ) : Prop :=
  w.state = s ∧ L w.calls

variable {L : List Firmware.Call → Prop}

theorem alike_pass (m : StateM φ α) : Alike (Of L) (fun _ => True) (pass m) m := by
  rintro w _ ⟨rfl, hL⟩
  exact ⟨rfl, trivial, rfl, hL⟩

theorem alike_write {c : α → Firmware.Call} (h : ∀ calls a, L calls → L (calls ++ [c a]))
    (m : StateM φ α) : Alike (Of L) (fun _ => True) (write c m) m := by
  rintro w _ ⟨rfl, hL⟩
  exact ⟨rfl, trivial, rfl, h _ _ hL⟩

theorem lockstep_writeNoted {c : α → Firmware.Call}
    (h : ∀ calls a, L calls → L (calls ++ [c a])) (m : StateT φ Logged α) :
    Lockstep (Of L) (writeNoted c m) m fun _ => Of L := by
  rintro w _ ⟨rfl, hL⟩
  exact ⟨rfl, rfl, rfl, h _ _ hL⟩

end Journaled

open Journaled

/-- In lockstep with a computation without a journal. -/
theorem Machine.InStep.unjournaled_eq {L : List Firmware.Call → Prop}
    {w : Machine (Journaled φ)} {m : Machine φ} (h : w.InStep (Of L) m) : w.unjournaled = m := by
  obtain ⟨⟨state, calls⟩, shared⟩ := w
  obtain ⟨⟨rfl, -⟩, rfl, -⟩ := h
  rfl

/-- A journal in which loading and unloading through the firmware are missing.
The built-in loader calls neither, so what it does with an image is the same
computation on both. -/
def Firmware.halfJournaled (fw : Firmware φ) : Firmware (Journaled φ) :=
  { fw.journaled with
    loadImage := fun data id => pass (fw.loadImage data id)
    unloadImage := fun h => pass (fw.unloadImage h) }

/-- What only other calls than those for images are asked to keep. -/
theorem Firmware.keeps_halfJournaled (fw : Firmware φ) {L : List Firmware.Call → Prop}
    (hL : ∀ calls (c : Firmware.Call), c.ofImage = false → L calls → L (calls ++ [c])) :
    fw.halfJournaled.Keeps (Of L) (fun _ => True) fw := by
  have hwrite {α : Type} (c : Firmware.Call) (hc : c.ofImage = false) (m : StateM φ α) :
      Alike (Of L) (fun _ => True) (write (fun _ => c) m) m :=
    alike_write (fun calls _ => hL calls c hc) m
  have hfails {α : Type} (c : Firmware.Call) (hc : c.ofImage = false)
      (m : StateM φ (Except Status α)) :
      Alike (Of L) (OnlyFails fun _ => True) (write (fun _ => c) m) m :=
    (hwrite c hc m).mono fun _ _ _ _ => trivial
  exact
    { allocatePages := fun _ _ => hfails _ rfl _
      freePages := fun _ _ => hwrite _ rfl _
      install := fun _ _ => hfails _ rfl _
      uninstall := fun _ _ => hwrite _ rfl _
      openExclusive := fun _ _ => hfails _ rfl _
      close := fun _ _ => hwrite _ rfl _
      interface := fun _ _ => hfails _ rfl _
      locate := fun _ _ _ => hfails _ rfl _
      loadImage := fun _ _ => (alike_pass _).mono fun _ _ _ _ => trivial
      unloadImage := fun _ => alike_pass _
      imageHandle := rfl
      systemTable := rfl
      deviceHandle := rfl
      ownImage := rfl }

/-- Calls are answered as without the journal. -/
theorem Firmware.keeps_journaled (fw : Firmware φ) :
    fw.journaled.Keeps (Of fun _ => True) (fun _ => True) fw :=
  { fw.keeps_halfJournaled fun _ _ _ _ => trivial with
    loadImage := fun data id => by
      have hwrite := alike_write (L := fun _ => True)
        (c := fun answer => .loadImage data answer.1) (fun _ _ _ => trivial) (fw.loadImage data id)
      exact hwrite.mono fun _ _ _ _ => trivial
    unloadImage := fun _ => alike_write (fun _ _ _ => trivial) _ }

/-- So are starts of images. -/
theorem Firmware.starts_journaled (fw : Firmware φ) :
    fw.journaled.Starts (Of fun _ => True) (fun _ => Of fun _ => True) fw where
  transfer _ _ _ := lockstep_writeNoted (fun _ _ _ => trivial) _
  startImage _ _ := lockstep_writeNoted (fun _ _ _ => trivial) _

/-! ## images -/

section Images

variable (fw : Firmware φ) (w : Machine (Journaled φ))

/-- An image is loaded as without the journal, and without the firmware's loader. -/
theorem ends_load_journaled (data : ByteArray) :
    ∃ loaded : Machine (Journaled φ),
      Attempt.ends (LoadedImage.load fw.journaled data) w =
        ((Attempt.ends (LoadedImage.load fw data) w.unjournaled).1, loaded) ∧
      (Attempt.ends (LoadedImage.load fw data) w.unjournaled).2 = loaded.unjournaled ∧
      loaded.firmware.images = w.firmware.images := by
  obtain ⟨-, hanswer, -, hleft⟩ :=
    (fw.keeps_halfJournaled (filter_ofImage_append w.firmware.images)).load
      (fun _ => trivial) data w w.unjournaled ⟨⟨rfl, rfl⟩, rfl, trivial⟩
  exact ⟨_, Prod.ext hanswer rfl, hleft.unjournaled_eq.symm, hleft.firmware.2⟩

/-- It is unloaded without the firmware's loader. -/
theorem ends_unload_journaled (h : Handle) :
    (Loader.ends (LoadedImage.unload fw.journaled h) w).2.firmware.images = w.firmware.images := by
  obtain ⟨-, -, hleft⟩ :=
    (fw.keeps_halfJournaled (filter_ofImage_append w.firmware.images)).unload h
      w w.unjournaled ⟨⟨rfl, rfl⟩, rfl, trivial⟩
  exact hleft.firmware.2

/-- Looking for the record of an image is no call for images. -/
theorem ends_interface_journaled (h : Handle) :
    ∃ found : Machine (Journaled φ),
      Loader.ends (Loader.call (fw.journaled.interface h .loadedImage)) w =
        ((fw.interface h .loadedImage w.firmware.state).1, found) ∧
      found.firmware.images = w.firmware.images :=
  ⟨_, rfl, filter_ofImage_append _ _ (.interface h .loadedImage) rfl rfl⟩

variable {fw w} {image : LoadedImage} (options : List UInt16)

/-- An image without a record is not started. -/
theorem ends_start_journaled_of_error {status : Status}
    (hrecord : (fw.interface image.handle .loadedImage w.firmware.state).1 = .error status) :
    let started := Loader.ends (LoadedImage.start fw.journaled image options) w
    started.1 = status ∧ started.2.firmware.images = w.firmware.images := by
  obtain ⟨found, hcall, himages⟩ := ends_interface_journaled fw w image.handle
  dsimp only
  rw [LoadedImage.start, Loader.ends_bind, hcall, hrecord]
  exact ⟨rfl, himages⟩

/-- Any other is started by a transfer to its entry point, and the answer is what
it has returned. -/
theorem ends_start_journaled_of_ok {record : Interface}
    (hrecord : (fw.interface image.handle .loadedImage w.firmware.state).1 = .ok record) :
    let started := Loader.ends (LoadedImage.start fw.journaled image options) w
    started.2.firmware.images =
      w.firmware.images ++ [.transfer image.handle image.entryPoint started.1] := by
  obtain ⟨found, hcall, himages⟩ := ends_interface_journaled fw w image.handle
  dsimp only
  rw [LoadedImage.start, Loader.ends_bind, hcall, hrecord, ← himages]
  exact List.filter_append _ _

end Images

end EfiLoader
