import EfiLoader.Proofs.Lockstep.Boot

/-!
# EfiLoader.Proofs.Loader.Watched

Watched firmware.  A watched firmware keeps a list of all pages that were given
back, so that it can be seen whether any were given back twice.  The loader
does not notice: what it does on a watched firmware is what it does on the
firmware itself.

* `Firmware.keeps_watched` — every call is answered as without the list;
* `bares_load`, `bares_start`, `bares_unload` — so are the uses of an image;
* `bares_run` — so is a boot attempt.
-/

namespace EfiLoader

open Log Pe

/-! ## watched firmware -/

/-- Pages that were given back, and what the firmware said to it. -/
structure PageReturn where
  address : Nat
  pages : Nat
  status : Status

/-- A firmware's state, and all pages that were given back, the oldest first. -/
structure Watched (φ : Type) where
  state : φ
  returns : List PageReturn := []

namespace Watched

variable {φ α : Type}

/-- A call that is only passed on. -/
def pass (m : StateM φ α) : StateM (Watched φ) α := fun w =>
  ((m w.state).1, { w with state := (m w.state).2 })

/-- A call with log lines that is only passed on. -/
def passNoted (m : StateT φ Logged α) : StateT (Watched φ) Logged α := fun w => do
  let (a, state) ← m w.state
  return (a, { w with state })

/-- Change the state of the firmware itself. -/
def inside (f : φ → φ) (w : Watched φ) : Watched φ := { w with state := f w.state }

/-- An open file whose uses are only passed on. -/
def passFile (f : OpenFile φ) : OpenFile (Watched φ) where
  source := { size := f.source.size, read := fun n => pass (f.source.read n) }
  close := pass f.close

end Watched

open Watched in
/-- The firmware `fw`, with every return of pages written down. -/
def Firmware.watched {φ : Type} (fw : Firmware φ) : Firmware (Watched φ) where
  allocatePages memoryType pages := pass (fw.allocatePages memoryType pages)
  freePages address pages := fun w =>
    let (status, state) := fw.freePages address pages w.state
    (status, { state, returns := w.returns ++ [⟨address, pages, status⟩] })
  install h is := pass (fw.install h is)
  uninstall h is := pass (fw.uninstall h is)
  openExclusive h p := pass (fw.openExclusive h p)
  close h p := pass (fw.close h p)
  interface h p := pass (fw.interface h p)
  locate p path shared := pass (fw.locate p path shared)
  transfer h entryPoint shared := passNoted (fw.transfer h entryPoint shared)
  loadImage data id := pass (fw.loadImage data id)
  startImage h shared := passNoted (fw.startImage h shared)
  unloadImage h := pass (fw.unloadImage h)
  openFile path := do
    match ← passNoted (fw.openFile path) with
    | .error status => return .error status
    | .ok file => return .ok (passFile file)
  imageHandle := fw.imageHandle
  systemTable := fw.systemTable
  deviceHandle := fw.deviceHandle
  ownImage := fw.ownImage
  loadOptions := fw.loadOptions

/-- The machine without the list of what was given back. -/
def Machine.bare {φ : Type} (m : Machine (Watched φ)) : Machine φ :=
  ⟨m.firmware.state, m.shared⟩

/-! ## calls -/

namespace Watched

variable {φ α : Type}

/-- The firmware that is watched is in the state `s`. -/
def Of (w : Watched φ) (s : φ) : Prop := w.state = s

theorem alike_pass (m : StateM φ α) : Alike Of (fun _ => True) (pass m) m := by
  rintro w _ rfl
  exact ⟨rfl, trivial, rfl⟩

theorem lockstep_passNoted (m : StateT φ Logged α) :
    Lockstep Of (passNoted m) m fun _ => Of := by
  rintro w _ rfl
  exact ⟨List.append_nil _, rfl, rfl⟩

end Watched

variable {φ : Type}

open Watched in
/-- Calls are answered as without the list. -/
theorem Firmware.keeps_watched (fw : Firmware φ) :
    fw.watched.Keeps Of (fun _ => True) fw := by
  have hfails : ∀ {α : Type} (m : StateM φ (Except Status α)),
      Alike Of (OnlyFails fun _ => True) (pass m) m :=
    fun m => (alike_pass m).mono fun _ _ _ _ => trivial
  exact
    { allocatePages := fun _ _ => hfails _
      freePages := by
        rintro address pages w _ rfl
        exact ⟨rfl, trivial, rfl⟩
      install := fun _ _ => hfails _
      uninstall := fun _ _ => alike_pass _
      openExclusive := fun _ _ => hfails _
      close := fun _ _ => alike_pass _
      interface := fun _ _ => hfails _
      locate := fun _ _ _ => hfails _
      loadImage := fun _ _ => (alike_pass _).mono fun _ _ _ _ => trivial
      unloadImage := fun _ => alike_pass _
      imageHandle := rfl
      systemTable := rfl
      deviceHandle := rfl
      ownImage := rfl }

open Watched in
/-- Files are opened as without it. -/
theorem Firmware.opens_watched (fw : Firmware φ) : fw.watched.Opens Of (fun _ => True) fw := by
  rintro path w _ rfl
  simp only [Firmware.watched, passNoted, bind, StateT.bind]
  rcases fw.openFile path w.state with ⟨lines, status | file, s⟩
  · have hlines : (lines ++ []) ++ [] = lines := by simp
    exact ⟨hlines, .error status trivial, rfl⟩
  · have hlines : (lines ++ []) ++ [] = lines := by simp
    have hread : ∀ n, Alike Of (OnlyFails fun _ => True) ((passFile file).source.read n)
        (file.source.read n) := fun n => (alike_pass _).mono fun _ _ _ _ => trivial
    exact ⟨hlines, .ok _ _ ⟨rfl, hread⟩ (alike_pass _), rfl⟩

/-- So is the start of an image. -/
theorem Firmware.starts_watched (fw : Firmware φ) :
    fw.watched.Starts Watched.Of (fun _ => Watched.Of) fw where
  transfer _ _ _ := Watched.lockstep_passNoted _
  startImage _ _ := Watched.lockstep_passNoted _

/-! ## images -/

/-- On a machine that is watched, a computation in lockstep with one that is
not does the same. -/
theorem Lockstep.bare {α : Type} {m : Loader (Watched φ) α} {m' : Loader φ α}
    {Q : α → Machine (Watched φ) → Machine φ → Prop}
    (h : Lockstep (Machine.InStep Watched.Of) m m' Q)
    (hQ : ∀ a s t, Q a s t → s.bare = t) (s : Machine (Watched φ)) :
    m' s.bare = ⟨(m s).lines, (m s).value.1, (m s).value.2.bare⟩ := by
  obtain ⟨hlines, hanswer, hleft⟩ := h s s.bare ⟨rfl, rfl, trivial⟩
  rw [hlines, hanswer, hQ _ _ _ hleft]

theorem Machine.InStep.bare_eq {s : Machine (Watched φ)} {t : Machine φ}
    (h : s.InStep Watched.Of t) : s.bare = t := by
  obtain ⟨⟨state, returns⟩, shared⟩ := s
  obtain ⟨rfl, rfl, -⟩ := h
  rfl

section Images

variable (fw : Firmware φ) (s : Machine (Watched φ))

/-- Loading an image does not notice that it is watched. -/
theorem bares_load (data : ByteArray) :
    (LoadedImage.load fw data).run s.bare =
      ⟨((LoadedImage.load fw.watched data).run s).lines,
        ((LoadedImage.load fw.watched data).run s).value.1,
        ((LoadedImage.load fw.watched data).run s).value.2.bare⟩ :=
  Lockstep.bare (fw.keeps_watched.load (fun _ => trivial) data)
    (fun _ _ _ h => h.2.bare_eq) s

/-- Neither does starting one. -/
theorem bares_start (image : LoadedImage) (options : List UInt16) :
    LoadedImage.start fw image options s.bare =
      ⟨(LoadedImage.start fw.watched image options s).lines,
        (LoadedImage.start fw.watched image options s).value.1,
        (LoadedImage.start fw.watched image options s).value.2.bare⟩ :=
  Lockstep.bare (fw.keeps_watched.start fw.starts_watched image options)
    (fun _ _ _ h => h.elim (fun h => h.2.bare_eq) Machine.InStep.bare_eq) s

/-- Neither does unloading one. -/
theorem bares_unload (handle : Handle) :
    LoadedImage.unload fw handle s.bare =
      ⟨(LoadedImage.unload fw.watched handle s).lines,
        (LoadedImage.unload fw.watched handle s).value.1,
        (LoadedImage.unload fw.watched handle s).value.2.bare⟩ :=
  Lockstep.bare (fw.keeps_watched.unload handle) (fun _ _ _ => Machine.InStep.bare_eq) s

/-- Neither does a boot attempt. -/
theorem bares_run [Allocator] [Zstd.Decoder] (o : Options) :
    Boot.run fw o s.bare =
      ⟨(Boot.run fw.watched o s).lines, (Boot.run fw.watched o s).value.1,
        (Boot.run fw.watched o s).value.2.bare⟩ :=
  Lockstep.bare
    (fw.keeps_watched.run (fun _ => fw.keeps_watched) fw.starts_watched fw.opens_watched
      (fun _ => trivial) o)
    (fun _ _ _ h => h.elim (fun h => h.2.bare_eq) Machine.InStep.bare_eq) s

end Images

end EfiLoader
