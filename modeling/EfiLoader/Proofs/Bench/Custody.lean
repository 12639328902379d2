import EfiLoader.Proofs.Bench.Loading

/-!
# EfiLoader.Proofs.Bench.Custody

Everything on the bench belongs to a live image.  An image is live from the
call that has loaded it to the one that has unloaded it.  Whatever the loader
is asked to do, in whatever order, and whatever fails:

* `accounted_play` — pages and handles are those of the live images, nothing is
  in use, pages that are given back had been in use, and a live image can be
  unloaded.
-/

namespace EfiLoader.Bench

open Log

/-! ## calls -/

/-- What the loader can be asked to do with images. -/
inductive Call where
  | load (data : ByteArray)
  | start (image : LoadedImage) (options : List UInt16)
  | unload (handle : Handle)

/-- A machine, and the images that have been loaded and not been unloaded. -/
structure Custody (φ : Type) where
  machine : Machine φ
  live : List LoadedImage := []

namespace Custody

variable {φ : Type}

/-- Answer a call. -/
def perform (fw : Firmware φ) (c : Custody φ) : Call → Custody φ
  | .load data =>
    match ((LoadedImage.load fw data).run c.machine).value with
    | (.ok image, machine) => ⟨machine, c.live ++ [image]⟩
    | (.error _, machine) => ⟨machine, c.live⟩
  | .start image options => ⟨(LoadedImage.start fw image options c.machine).value.2, c.live⟩
  | .unload handle =>
    match (LoadedImage.unload fw handle c.machine).value with
    | (status, machine) =>
      ⟨machine, if status = Status.success then c.live.filter (·.handle != handle) else c.live⟩

/-- Set the firmware up anew. -/
def prepare (f : φ → φ) (c : Custody φ) : Custody φ :=
  { c with machine := { c.machine with firmware := f c.machine.firmware } }

/-- Answer calls, each with settings of its own. -/
def run (fw : Firmware φ) (set : BenchSettings → φ → φ) (c : Custody φ)
    (xs : List (BenchSettings × Call)) : Custody φ :=
  xs.foldl (fun c x => (c.prepare (set x.1)).perform fw x.2) c

/-- The custody of a watched machine without what was given back. -/
def bare (c : Custody (Watched φ)) : Custody φ := ⟨c.machine.bare, c.live⟩

/-- Watching does not change how a call is answered. -/
theorem bare_perform (fw : Firmware φ) (c : Custody (Watched φ)) (x : Call) :
    (c.perform fw.watched x).bare = c.bare.perform fw x := by
  cases x with
  | load data =>
      have hbare : (LoadedImage.load fw data).run c.machine.bare = _ := bares_load fw c.machine data
      simp only [perform, bare, hbare]
      split
      · next heq => rw [heq]
      · next heq => rw [heq]
  | start image options =>
      have hbare := bares_start fw c.machine image options
      simp only [perform, bare, hbare]
  | unload handle =>
      have hbare := bares_unload fw c.machine handle
      simp only [perform, bare, hbare]

/-- Nor does it change how calls are answered. -/
theorem bare_run (fw : Firmware φ) (set : BenchSettings → φ → φ) (c : Custody (Watched φ))
    (xs : List (BenchSettings × Call)) :
    (c.run fw.watched (fun settings => Watched.inside (set settings)) xs).bare =
      c.bare.run fw set xs := by
  induction xs generalizing c with
  | nil => rfl
  | cons x rest ih =>
      simp only [run, List.foldl_cons] at ih ⊢
      rw [ih, bare_perform]
      rfl

end Custody

/-! ## runs on the bench -/

/-- Change what fails, where pages come from, and how images end. -/
def setUp (settings : BenchSettings) (b : Bench) : Bench := { b with settings }

/-- What is left on a bench that has not been used after calls, each with
settings of its own. -/
def play (e : Equipment) (settings : BenchSettings) (shared : Shared)
    (xs : List (BenchSettings × Call)) : Custody Bench :=
  Custody.run (firmware e) setUp ⟨⟨fresh settings, shared⟩, []⟩ xs

/-- The same on a bench that is watched. -/
def playWatched (e : Equipment) (settings : BenchSettings) (shared : Shared)
    (xs : List (BenchSettings × Call)) : Custody (Watched Bench) :=
  Custody.run (firmware e).watched (fun settings => Watched.inside (setUp settings))
    ⟨⟨⟨fresh settings, []⟩, shared⟩, []⟩ xs

variable {e : Equipment}

theorem bare_playWatched (settings : BenchSettings) (shared : Shared)
    (xs : List (BenchSettings × Call)) :
    (playWatched e settings shared xs).bare = play e settings shared xs :=
  Custody.bare_run _ _ _ _

/-! ## the invariant -/

/-- Everything on the bench belongs to the live images. -/
def Custody.Kept (c : Custody (Watched Bench)) : Prop :=
  ∃ owned : List OwnedImage, owned.map OwnedImage.image = c.live ∧
    Books { initrd := c.machine.shared.initrd } owned [] [] c.machine

namespace Custody.Kept

variable {c : Custody (Watched Bench)}

/-- Settings are not on the books. -/
theorem prepare (h : c.Kept) (settings : BenchSettings) :
    (c.prepare (Watched.inside (setUp settings))).Kept := by
  obtain ⟨owned, hlive, hbooks⟩ := h
  have hregistered := hbooks.registered
  exact ⟨owned, hlive, { hregistered with fresh := .inl rfl, sound := { hregistered.sound with } },
    hbooks.described, rfl⟩

/-- A call keeps everything with the live images. -/
theorem perform (h : c.Kept) (x : Call) : (c.perform (firmware e).watched x).Kept := by
  obtain ⟨owned, hlive, hbooks⟩ := h
  cases x with
  | load data =>
      have hload := ensures_load (e := e) data c.machine hbooks
      simp only [Custody.perform]
      generalize ((LoadedImage.load (firmware e).watched data).run c.machine).value = answer
        at hload ⊢
      obtain ⟨r, m⟩ := answer
      cases r with
      | error status => exact ⟨owned, hlive, hload.self⟩
      | ok image =>
          obtain ⟨o, ho, hnew⟩ := hload
          refine ⟨owned ++ [o], ?_, hnew.self⟩
          rw [List.map_append, hlive, List.map_singleton, ho]
  | start image options =>
      exact ⟨owned, hlive, (ensures_start image options c.machine hbooks).self⟩
  | unload handle =>
      by_cases hmem : handle ∈ owned.map OwnedImage.handle
      · obtain ⟨o, ho, rfl⟩ := List.mem_map.mp hmem
        obtain ⟨hstatus, hleft⟩ := ensures_unload_of_mem (e := e) ho c.machine hbooks
        refine ⟨without owned o.handle, ?_, hleft.self⟩
        simp only [Custody.perform, hstatus, if_true, without]
        rw [← hlive, List.filter_map]
        rfl
      · obtain ⟨hstatus, hleft⟩ :=
          ensures_unload_of_not_mem (e := e) (by simp) hmem c.machine hbooks
        refine ⟨owned, ?_, hleft.self⟩
        simp only [Custody.perform, hstatus]
        rw [if_neg (by decide), hlive]

/-- So do calls. -/
theorem run (h : c.Kept) (xs : List (BenchSettings × Call)) :
    (c.run (firmware e).watched (fun settings => Watched.inside (setUp settings)) xs).Kept := by
  induction xs generalizing c with
  | nil => exact h
  | cons x rest ih => exact ih ((h.prepare x.1).perform x.2)

end Custody.Kept

/-- A bench that has not been used has nothing on its books. -/
theorem kept_fresh (settings : BenchSettings) (shared : Shared) :
    Custody.Kept ⟨⟨⟨fresh settings, []⟩, shared⟩, []⟩ := by
  refine ⟨[], rfl, ?_, Described.nil _, rfl⟩
  exact
    { inUse := ⟨[], rfl, List.Perm.refl _⟩
      apart := by simp
      fresh := .inl rfl
      sound := Sound.fresh settings
      entries := rfl
      loaded_eq := rfl
      opened_eq := rfl
      returns := by simp
      separate := by simp
      nodup := List.nodup_nil
      countable := by simp }

/-- Whatever has happened, everything belongs to the live images. -/
theorem kept_playWatched (settings : BenchSettings) (shared : Shared)
    (xs : List (BenchSettings × Call)) : (playWatched e settings shared xs).Kept :=
  (kept_fresh settings shared).run xs

/-! ## what is on the bench -/

/-- The pages in use are those of the live images; the handles are one for
each live image, with a record and a device path; nothing is in exclusive
use. -/
structure Custody.Accounted (c : Custody Bench) : Prop where
  pages : c.machine.firmware.pages.inUse.Perm (c.live.map (·.allocation.extent))
  handles : c.machine.firmware.handles.entries.map (fun x => (x.1, x.2.map (·.1))) =
    c.live.map fun image => (image.handle, [.loadedImage, .loadedImageDevicePath])
  handles_nodup : (c.live.map (·.handle)).Nodup
  opened : c.machine.firmware.opened = []

/-- Everything is accounted for if it belongs to the live images. -/
theorem Custody.Kept.accounted {c : Custody (Watched Bench)} (h : c.Kept) : c.bare.Accounted := by
  obtain ⟨owned, hlive, hbooks⟩ := h
  have hregistered := hbooks.registered
  have hmap : ∀ {α : Type} (f : LoadedImage → α),
      c.live.map f = owned.map fun o => f o.image := by
    intro α f
    rw [← hlive, List.map_map]
    rfl
  constructor
  · show c.machine.firmware.state.pages.inUse.Perm (c.live.map _)
    rw [hmap, ← List.append_nil (owned.map _)]
    exact hregistered.perm_inUse
  · show c.machine.firmware.state.handles.entries.map _ = c.live.map _
    rw [hmap, hregistered.entries, List.nil_append, List.map_map]
    rfl
  · show (c.live.map _).Nodup
    rw [hmap]
    exact hregistered.nodup
  · exact hregistered.opened_eq

/-- Loading that fails leaves pages and handles as they were. -/
theorem Custody.Kept.load_error {c : Custody (Watched Bench)} (h : c.Kept) {data : ByteArray}
    {status : Status} {m : Machine Bench}
    (hload : ((LoadedImage.load (firmware e) data).run c.bare.machine).value = (.error status, m)) :
    m.firmware.pages.inUse.Perm c.bare.machine.firmware.pages.inUse ∧
      m.firmware.handles.entries = c.bare.machine.firmware.handles.entries := by
  obtain ⟨owned, hlive, hbooks⟩ := h
  have hensures := ensures_load (e := e) data c.machine hbooks
  have hbare : (LoadedImage.load (firmware e) data).run c.bare.machine = _ :=
    bares_load (firmware e) c.machine data
  rw [hbare] at hload
  generalize ((LoadedImage.load (firmware e).watched data).run c.machine).value = answer
    at hload hensures
  obtain ⟨r, w⟩ := answer
  cases hload
  exact ⟨hensures.registered.perm_inUse.trans hbooks.registered.perm_inUse.symm,
    hensures.registered.entries.trans hbooks.registered.entries.symm⟩

/-- A live image can be unloaded, which gives back its pages. -/
theorem Custody.Kept.unload_live {c : Custody (Watched Bench)} (h : c.Kept) {image : LoadedImage}
    (himage : image ∈ c.live) :
    ∃ m, (LoadedImage.unload (firmware e) image.handle c.bare.machine).value =
        (Status.success, m) ∧
      c.bare.machine.firmware.pages.inUse.Perm
        (image.allocation.extent :: m.firmware.pages.inUse) := by
  obtain ⟨owned, hlive, hbooks⟩ := h
  rw [← hlive] at himage
  obtain ⟨o, ho, rfl⟩ := List.mem_map.mp himage
  obtain ⟨hstatus, hleft⟩ := ensures_unload_of_mem (e := e) ho c.machine hbooks
  have hbare : LoadedImage.unload (firmware e) o.image.handle c.bare.machine = _ :=
    bares_unload (firmware e) c.machine o.handle
  refine ⟨_, by rw [hbare, hstatus], ?_⟩
  have hperm := (perm_cons_without hbooks.registered.nodup ho).map OwnedImage.extent
  have hbefore := hbooks.registered.perm_inUse
  have hafter := hleft.registered.perm_inUse
  rw [List.append_nil] at hbefore hafter
  exact hbefore.trans (hperm.trans (hafter.symm.cons _))

/-- **Custody of images**: whatever the loader is asked to do with images, and
whatever fails, pages and handles are those of the live images, and no pages
are given back that are not in use.  A call that fails to load an image leaves
everything as it was, and a live image can always be unloaded, which gives
back its pages and no others. -/
theorem accounted_play (e : Equipment) (settings : BenchSettings) (shared : Shared)
    (xs : List (BenchSettings × Call)) :
    let c := play e settings shared xs
    c.Accounted ∧
      (∀ r ∈ (playWatched e settings shared xs).machine.firmware.returns,
        r.status = Status.success) ∧
      ∀ next : BenchSettings,
        let c' := c.prepare (setUp next)
        (∀ data status m,
          ((LoadedImage.load (firmware e) data).run c'.machine).value = (.error status, m) →
            m.firmware.pages.inUse.Perm c.machine.firmware.pages.inUse ∧
              m.firmware.handles.entries = c.machine.firmware.handles.entries) ∧
        ∀ image ∈ c.live, ∃ m,
          (LoadedImage.unload (firmware e) image.handle c'.machine).value =
            (Status.success, m) ∧
          c.machine.firmware.pages.inUse.Perm
            (image.allocation.extent :: m.firmware.pages.inUse) := by
  have hkept := kept_playWatched (e := e) settings shared xs
  have hbare := bare_playWatched (e := e) settings shared xs
  refine ⟨hbare ▸ hkept.accounted, ?_, fun next => ⟨?_, ?_⟩⟩
  · obtain ⟨owned, hlive, hbooks⟩ := hkept
    exact hbooks.registered.returns
  · intro data status m hload
    rw [← hbare] at hload ⊢
    exact (hkept.prepare next).load_error hload
  · intro image himage
    rw [← hbare] at himage ⊢
    exact (hkept.prepare next).unload_live himage

end EfiLoader.Bench
