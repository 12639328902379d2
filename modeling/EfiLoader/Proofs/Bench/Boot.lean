import EfiLoader.Proofs.Bench.Loading
import EfiLoader.Proofs.Bench.Transfers
import EfiLoader.Zstd.Blocks

/-!
# EfiLoader.Proofs.Bench.Boot

What a boot attempt leaves on the bench.  An attempt reads files, offers an
initrd and runs an image, and each of these is undone on every way out:

* `ensures_read` — reading leaves the books as they are;
* `ensures_register`, `ensures_deregister` — the handle of the initrd is there
  besides the others until the initrd is withdrawn;
* `ensures_runImage` — so is that of an image, with either loader;
* `restored_run` — an attempt leaves the bench as it was, ready for another
  one, and control has gone to at most one image.
-/

namespace EfiLoader.Bench

open Log Pe Boot

variable {others others' : Others} {owned : List OwnedImage} {held : List (Nat × Nat)}
  {opened : List (Handle × Protocol)} {e : Equipment}

/-! ## reading -/

/-- Both are one bench with its books. -/
def SameBooks (others : Others) (owned : List OwnedImage) (held : List (Nat × Nat))
    (opened : List (Handle × Protocol)) (w w' : Watched Bench) : Prop :=
  w = w' ∧ Registered others owned held opened w

/-- Open files are not on the books. -/
theorem Registered.setFiles {w : Watched Bench} (h : Registered others owned held opened w)
    (files : List (Nat × Supply)) (nextFile : Nat) :
    Registered others owned held opened
      { w with state := { w.state with files, nextFile } } :=
  { h with sound := { h.sound with } }

/-- A file of the bench is read without touching the books. -/
theorem keeps_readFile (size id : Nat) :
    (Watched.passFile ⟨⟨size, readFile id⟩, closeFile id⟩).source.Keeps
      (SameBooks others owned held opened) (fun _ => True)
      (Watched.passFile ⟨⟨size, readFile id⟩, closeFile id⟩).source := by
  refine Source.keeps_self fun n w h => ⟨fun _ _ => trivial, ?_⟩
  show Registered others owned held opened
    { w with state := (readFile id n w.state).2 }
  unfold readFile
  cases w.state.files.lookup id with
  | none => exact h
  | some s => exact h.setFiles _ _

/-- Neither does opening one. -/
theorem opens_registered (e : Equipment) :
    (firmware e).watched.Opens (SameBooks others owned held opened) (fun _ => True)
      (firmware e).watched := by
  rintro path w _ ⟨rfl, h⟩
  refine ⟨rfl, ?_⟩
  simp only [Firmware.watched, firmware, openFile]
  cases e.files.lookup path with
  | none => exact ⟨.error _ trivial, rfl, h⟩
  | some data =>
      refine ⟨.ok _ _ (keeps_readFile _ _) ?_, rfl, h.setFiles _ _⟩
      rintro w _ ⟨rfl, h⟩
      exact ⟨rfl, trivial, rfl, h.setFiles _ _⟩

/-- What reads in lockstep with itself leaves the books as they are. -/
theorem ensures_read {α : Type} {m : Attempt (Watched Bench) α}
    (h : ∀ F, Maintains (Machine.Framed (SameBooks others owned held opened) F) (fun _ => True)
      m m) :
    Attempt.Ensures (Books others owned held opened) m (fun _ => Books others owned held opened)
      (Books others owned held opened) := by
  intro s hs
  obtain ⟨-, -, -, ⟨-, hregistered⟩, -, hdescribed, hinitrd⟩ :=
    h (fun shared => Described (owned.map OwnedImage.description) shared.objects ∧
      shared.initrd = others.initrd) s s ⟨⟨rfl, hs.registered⟩, rfl, hs.described, hs.initrd_eq⟩
  have hleft : Books others owned held opened (m.run s).value.2 :=
    ⟨hregistered, hdescribed, hinitrd⟩
  split
  · exact hleft
  · exact hleft

theorem ensures_embedded {φ : Type} {P : Machine φ → Prop} (fw : Firmware φ) :
    Loader.Ensures P (embedded fw) fun _ => P := by
  unfold embedded
  refine Loader.Ensures.bind (R := fun _ => P) (Loader.Ensures.logged fun s hs => hs)
    fun found => ?_
  refine Loader.Ensures.bind (R := fun _ => P) (Loader.Ensures.logged fun s hs => hs)
    fun answer => ?_
  cases answer with
  | ok found => exact Loader.Ensures.pure fun s hs => hs
  | error status => exact Loader.Ensures.note_bind (Loader.Ensures.pure fun s hs => hs)

/-! ## handles besides those of images -/

/-- The others with one more handle. -/
def Others.adding (others : Others) (h : Handle) (is : Interfaces) : Others :=
  { others with entries := others.entries ++ [(h, is)] }

namespace Registered

variable {w : Watched Bench}

/-- A new handle is none of the others. -/
theorem next_not_mem_entries (h : Registered others [] held opened w) :
    (⟨w.state.handles.next⟩ : Handle) ∉ others.entries.map (·.1) := by
  have hnext := h.next_not_mem
  rwa [List.map_nil, List.append_nil] at hnext

/-- A new handle that belongs to no image. -/
theorem addHandle (h : Registered others [] held opened w) (is : Interfaces) :
    Registered (others.adding ⟨w.state.handles.next⟩ is) [] held opened
      { w with state := { w.state with handles := (w.state.handles.add is).2 } } := by
  refine { h with entries := ?_, sound := h.sound.addHandle is, separate := by simp }
  show w.state.handles.entries ++ [(⟨w.state.handles.next⟩, is)] = _
  rw [h.entries, List.map_nil, List.append_nil]
  exact (List.append_nil _).symm

/-- It carries what it was made with. -/
theorem interfaces?_adding {k : Handle} {is : Interfaces}
    (h : Registered (others.adding k is) [] held opened w) (hk : k ∉ others.entries.map (·.1)) :
    w.state.handles.interfaces? k = some is := by
  have hentries : w.state.handles.entries = others.entries ++ [(k, is)] := by
    rw [h.entries, List.map_nil, List.append_nil]
    rfl
  exact HandleDatabase.interfaces?_eq_some hentries hk (by simp) (List.mem_singleton.mpr rfl)

/-- It can be removed. -/
theorem removeHandle {k : Handle} {is : Interfaces}
    (h : Registered (others.adding k is) [] held opened w) (hk : k ∉ others.entries.map (·.1)) :
    Registered others [] held opened
      { w with state := { w.state with handles := w.state.handles.remove k } } := by
  have hentries : w.state.handles.entries = others.entries ++ [(k, is)] := by
    rw [h.entries, List.map_nil, List.append_nil]
    rfl
  refine { h with entries := ?_, sound := h.sound.remove k, separate := by simp }
  show w.state.handles.entries.filter (fun x => x.1 != k) = _
  rw [hentries, List.filter_append, HandleDatabase.filter_ne_of_not_mem hk,
    List.filter_cons_of_neg (by simp)]
  rfl

end Registered

/-! ## the initrd -/

/-- The others with an initrd on offer. -/
def Others.offering (others : Others) (offer : OfferedInitrd) : Others :=
  { others.adding offer.handle (Initrd.interfaces offer.service) with initrd := some offer }

/-- The others as they were, or with an initrd on offer whose handle is none
of theirs. -/
inductive Others.Offers (others : Others) : Others → Prop
  | nothing : Offers others others
  | initrd (offer : OfferedInitrd) (hfresh : offer.handle ∉ others.entries.map (·.1)) :
      Offers others (others.offering offer)

/-- A handle for the initrd is made, or there is none. -/
theorem ensures_install_initrd (service : Interface) :
    Attempt.Ensures (Books others [] held [])
      (Attempt.ofLoader (Loader.call ((firmware e).watched.install Handle.null
        (Initrd.interfaces service))))
      (fun handle s => handle ∉ others.entries.map (·.1) ∧
        Books (others.adding handle (Initrd.interfaces service)) [] held [] s)
      (Books others [] held []) := by
  refine Attempt.Ensures.ofLoader (Loader.Ensures.call fun s hs => ?_)
  simp only [Firmware.watched, firmware, Watched.pass]
  obtain ⟨status, hb⟩ | hb := install_null_cases s.firmware.state (Initrd.interfaces service)
  · rw [hb]
    exact hs
  · rw [hb]
    exact ⟨hs.registered.next_not_mem_entries, hs.registered.addHandle _, hs.described,
      hs.initrd_eq⟩

/-- An initrd gets a handle, or everything is as before. -/
theorem ensures_register (data : Buffer) :
    Attempt.Ensures (Books others [] held []) (Initrd.register (firmware e).watched data)
      (fun _ s => ∃ others', others.Offers others' ∧ Books others' [] held [] s)
      (Books others [] held []) := by
  unfold Initrd.register
  dsimp only
  split
  · exact Attempt.Ensures.note_bind (Attempt.Ensures.pure fun s hs => ⟨others, .nothing, hs⟩)
  refine Attempt.Ensures.bind (R := fun _ => Books others [] held [])
    (Attempt.Ensures.lift (Loader.Ensures.shared fun s hs => hs)) fun shared => ?_
  split
  · exact Attempt.Ensures.note_bind (Attempt.Ensures.throw fun s hs => hs)
  refine Attempt.Ensures.bind (R := fun _ => Books others [] held [])
    (Attempt.Ensures.lift (Loader.Ensures.callSharing fun s hs =>
      ⟨hs.registered.locate e _ _ _, hs.described, hs.initrd_eq⟩)) fun answer => ?_
  have hoffer : Attempt.Ensures (Books others [] held [])
      (do
        let id ← (Loader.modifyObjects Objects.fresh : Loader (Watched Bench) Nat)
        let service := Interface.loadFile id
        let handle ← (Attempt.ofLoader (Loader.call
          ((firmware e).watched.install Handle.null (Initrd.interfaces service)))).noting
            fun status => Component.initrd.error
              s!"Failed to install initrd protocols: {status.text}"
        note (Component.initrd.info s!"Registered {data.remaining.size} byte initrd")
        (Loader.modifyShared fun s => { s with initrd := some ⟨data, handle, service⟩ } :
          Loader (Watched Bench) Unit))
      (fun _ s => ∃ others', others.Offers others' ∧ Books others' [] held [] s)
      (Books others [] held []) := by
    refine Attempt.Ensures.bind (R := fun _ => Books others [] held []) ?_ fun id => ?_
    · exact Attempt.Ensures.lift
        (Loader.Ensures.modifyObjects fun s hs => ⟨hs.registered, Described.nil _, hs.initrd_eq⟩)
    · refine Attempt.Ensures.bind
        (Attempt.Ensures.noting (ensures_install_initrd (.loadFile id))) fun handle => ?_
      refine Attempt.Ensures.of_and fun hfresh => Attempt.Ensures.note_bind ?_
      refine Attempt.Ensures.lift (Loader.Ensures.modifyShared fun s hs => ?_)
      exact ⟨_, .initrd ⟨data, handle, .loadFile id⟩ hfresh, { hs.registered with },
        Described.nil _, rfl⟩
  cases answer with
  | ok other => exact Attempt.Ensures.note_bind hoffer
  | error status => exact hoffer

/-- The initrd is withdrawn, if there is one, and its handle goes. -/
theorem ensures_deregister (hinitrd : others.initrd = none) (hoffers : others.Offers others') :
    Loader.Ensures (Books others' [] held []) (Initrd.deregister (firmware e).watched)
      fun _ => Books others [] held [] := by
  unfold Initrd.deregister
  refine Loader.Ensures.bind (R := fun shared s =>
    shared.initrd = others'.initrd ∧ Books others' [] held [] s)
    (Loader.Ensures.shared fun s hs => ⟨hs.initrd_eq, hs⟩) fun shared => ?_
  refine Loader.Ensures.of_and fun hshared => ?_
  rw [hshared]
  cases hoffers with
  | nothing =>
      rw [hinitrd]
      exact Loader.Ensures.pure fun s hs => hs
  | initrd offer hfresh =>
      refine Loader.Ensures.bind (R := fun status s => status = Status.success ∧
        Registered others [] held [] s.firmware) ?_ fun status => ?_
      · refine Loader.Ensures.call fun s hs => ?_
        have hregistered : Registered (others.adding offer.handle _) [] held [] s.firmware :=
          { hs.registered with }
        simp only [Firmware.watched, firmware, Watched.pass,
          uninstall_of_interfaces? hregistered.opened_eq (hregistered.interfaces?_adding hfresh)]
        exact ⟨trivial, hregistered.removeHandle hfresh⟩
      · refine Loader.Ensures.of_and fun hstatus => ?_
        subst hstatus
        refine Loader.Ensures.bind (R := fun _ => Books others [] held []) ?_ fun _ => ?_
        · exact Loader.Ensures.modifyShared fun s hs => ⟨hs, Described.nil _, hinitrd.symm⟩
        · exact Loader.Ensures.pure fun s hs => hs

theorem ensures_offerInitrd [Allocator] (o : Options) (embedded : Option ByteArray) :
    Attempt.Ensures (Books others [] held []) (offerInitrd (firmware e).watched o embedded)
      (fun _ s => ∃ others', others.Offers others' ∧ Books others' [] held [] s)
      (Books others [] held []) := by
  unfold offerInitrd
  refine Attempt.Ensures.bind (R := fun _ => Books others [] held [])
    (Attempt.Ensures.noting (ensures_read fun F =>
      (opens_registered e).obtainInitrd (fun _ => trivial) o embedded)) fun initrd => ?_
  cases initrd with
  | none => exact Attempt.Ensures.pure fun s hs => ⟨others, .nothing, hs⟩
  | some data => exact ensures_register data

/-! ## images -/

/-- The built-in loader leaves the books as they are. -/
theorem ensures_runBuiltin (data : ByteArray) (options : List UInt16) :
    Loader.Ensures (Books others [] held []) (runBuiltin (firmware e).watched data options)
      fun _ => Books others [] held [] := by
  unfold runBuiltin
  refine Loader.Ensures.bind (ensures_load data) fun answer => ?_
  cases answer with
  | error status => exact Loader.Ensures.note_bind (Loader.Ensures.pure fun s hs => hs)
  | ok image =>
      refine Loader.Ensures.of_exists fun o => Loader.Ensures.of_and fun ho => ?_
      subst ho
      refine Loader.Ensures.bind (ensures_start o.image options) fun status => ?_
      refine Loader.Ensures.bind (R := fun _ => Books others [] held []) ?_ fun unloaded => ?_
      · have ho : o ∈ [] ++ [o] := List.mem_singleton.mpr rfl
        refine (ensures_unload_of_mem ho).mono (fun s hs => hs) ?_
        rintro status s ⟨-, hs⟩
        simpa [without] using hs
      · exact Loader.Ensures.note_if_bind (Loader.Ensures.pure fun s hs => hs)

/-- The others with an image of the firmware's loader. -/
def Others.loading (others : Others) (h : Handle) (id : Nat) : Others :=
  { others.adding h [(.loadedImage, .image id)] with loaded := others.loaded ++ [h] }

/-- An image of the firmware's loader gets a handle, or everything is as
before. -/
theorem ensures_loadWithFirmware (data : ByteArray) :
    Loader.Ensures (Books others [] held []) (loadWithFirmware (firmware e).watched data)
      fun r s => match r with
        | .ok h => ∃ id, (h ∉ others.entries.map (·.1) ∧ h ∉ others.loaded) ∧
            Books (others.loading h id) [] held [] s
        | .error _ => Books others [] held [] s := by
  unfold loadWithFirmware
  refine Loader.Ensures.bind (R := fun _ => Books others [] held []) ?_ fun id => ?_
  · exact Loader.Ensures.modifyObjects fun s hs => ⟨hs.registered, Described.nil _, hs.initrd_eq⟩
  refine Loader.Ensures.bind (R := fun answer s => match answer.1 with
    | .ok h => ∃ id, (h ∉ others.entries.map (·.1) ∧ h ∉ others.loaded) ∧
        Books (others.loading h id) [] held [] s
    | .error _ => Books others [] held [] s) ?_ fun answer => ?_
  · refine Loader.Ensures.call fun s hs => ?_
    simp only [Firmware.watched, firmware, Watched.pass]
    obtain ⟨status, hb⟩ | ⟨record, hb⟩ := loadImage_cases s.firmware.state id
    · rw [hb]
      exact hs
    · rw [hb]
      have hregistered := hs.registered
      have hadded := hregistered.addHandle [(.loadedImage, .image id)]
      have hloaded : (⟨s.firmware.state.handles.next⟩ : Handle) ∉ others.loaded := by
        rw [← hregistered.loaded_eq]
        exact fun hmem => Nat.lt_irrefl _ (hregistered.sound.loaded_numbered _ hmem)
      refine ⟨id, ⟨hregistered.next_not_mem_entries, hloaded⟩, ?_, Described.nil _, hs.initrd_eq⟩
      refine { hadded with loaded_eq := ?_, sound := hregistered.sound.loading _ }
      show s.firmware.state.loaded ++ _ = others.loaded ++ _
      rw [hregistered.loaded_eq]
  · obtain ⟨r, record?⟩ := answer
    cases record? with
    | none => exact Loader.Ensures.pure fun s hs => hs
    | some record =>
        refine Loader.Ensures.bind ?_ fun _ => Loader.Ensures.pure fun s hs => hs
        refine Loader.Ensures.modifyObjects fun s hs => ?_
        cases r with
        | error status => exact ⟨hs.registered, Described.nil _, hs.initrd_eq⟩
        | ok h =>
            obtain ⟨id, hfresh, hs⟩ := hs
            exact ⟨id, hfresh, hs.registered, Described.nil _, hs.initrd_eq⟩

/-- It can be started. -/
theorem ensures_startImage (h : Handle) :
    Loader.Ensures (Books others owned held opened)
      (Loader.hand ((firmware e).watched.startImage h)) fun _ => Books others owned held opened :=
  Loader.Ensures.hand fun _ hs => ⟨hs.registered.transfer e h 0 _, hs.described, hs.initrd_eq⟩

/-- It can be unloaded. -/
theorem ensures_unloadImage {h : Handle} {id : Nat} (hentries : h ∉ others.entries.map (·.1))
    (hloaded : h ∉ others.loaded) :
    Loader.Ensures (Books (others.loading h id) [] held [])
      (Loader.call ((firmware e).watched.unloadImage h)) fun _ => Books others [] held [] := by
  refine Loader.Ensures.call fun s hs => ?_
  have hregistered := hs.registered
  have hmem : h ∈ s.firmware.state.loaded := by
    rw [hregistered.loaded_eq]
    exact List.mem_append_right _ (List.mem_singleton.mpr rfl)
  have hadded : Registered (others.adding h [(.loadedImage, .image id)]) [] held []
      { s.firmware with
        state := { s.firmware.state with loaded := s.firmware.state.loaded.erase h } } := by
    refine { hregistered with loaded_eq := ?_, sound := hregistered.sound.unload h }
    show s.firmware.state.loaded.erase h = others.loaded
    rw [hregistered.loaded_eq]
    show (others.loaded ++ [h]).erase h = others.loaded
    rw [List.erase_append_right _ hloaded, List.erase_cons_head, List.append_nil]
  simp only [Firmware.watched, firmware, Watched.pass, unloadImage_of_mem hmem]
  exact ⟨hadded.removeHandle hentries, Described.nil _, hs.initrd_eq⟩

/-- The firmware's loader leaves the books as they are. -/
theorem ensures_runThroughFirmware (data : ByteArray) (options : List UInt16) :
    Loader.Ensures (Books others [] held [])
      (runThroughFirmware (firmware e).watched data options) fun _ => Books others [] held [] := by
  unfold runThroughFirmware
  refine Loader.Ensures.bind (ensures_loadWithFirmware data) fun answer => ?_
  cases answer with
  | error status => exact Loader.Ensures.note_bind (Loader.Ensures.pure fun s hs => hs)
  | ok h =>
      refine Loader.Ensures.of_exists fun id => Loader.Ensures.of_and fun hfresh => ?_
      have hunload : ∀ status : Status, Loader.Ensures (Books (others.loading h id) [] held [])
          (do
            let unloaded ← Loader.call ((firmware e).watched.unloadImage h)
            if unloaded.isError then
              note (Component.boot.warn s!"Firmware failed to unload image: {unloaded.text}")
            return status)
          fun _ => Books others [] held [] := by
        intro status
        refine Loader.Ensures.bind (ensures_unloadImage hfresh.1 hfresh.2) fun unloaded => ?_
        exact Loader.Ensures.note_if_bind (Loader.Ensures.pure fun s hs => hs)
      refine Loader.Ensures.bind (R := fun _ => Books (others.loading h id) [] held []) ?_
        fun record => ?_
      · exact Loader.Ensures.call fun s hs =>
          ⟨hs.registered.interface e _ _, hs.described, hs.initrd_eq⟩
      cases record with
      | error status =>
          refine Loader.Ensures.note_bind ?_
          refine Loader.Ensures.bind (ensures_startImage h) fun status => ?_
          exact Loader.Ensures.note_bind (hunload status)
      | ok record =>
          refine Loader.Ensures.bind (ensures_setLoadOptions record options) fun _ => ?_
          refine Loader.Ensures.note_bind ?_
          refine Loader.Ensures.bind (ensures_startImage h) fun status => ?_
          refine Loader.Ensures.note_bind ?_
          refine Loader.Ensures.bind (ensures_setLoadOptions record []) fun _ => ?_
          exact hunload status

theorem ensures_runImage (mode : LoaderChoice) (data : ByteArray) (options : List UInt16) :
    Loader.Ensures (Books others [] held [])
      (runImage (firmware e).watched mode data options) fun _ => Books others [] held [] := by
  unfold runImage
  cases mode with
  | firmware => exact ensures_runThroughFirmware data options
  | builtin =>
      refine Loader.Ensures.bind (R := fun _ => Books others [] held [])
        (Loader.Ensures.logged fun s hs => hs) fun parsed => ?_
      refine Loader.Ensures.bind (R := fun _ => Books others [] held [])
        (Loader.Ensures.logged fun s hs => hs) fun answer => ?_
      cases answer with
      | ok h => exact ensures_runBuiltin data options
      | error status =>
          dsimp only
          split
          · exact Loader.Ensures.note_bind (ensures_runThroughFirmware data options)
          · exact Loader.Ensures.note_bind (Loader.Ensures.pure fun s hs => hs)

/-! ## the attempt -/

/-- A payload is run, and the initrd is withdrawn. -/
theorem ensures_launch (hinitrd : others.initrd = none) (hoffers : others.Offers others')
    (o : Options) (payload : Buffer) (cmdline : Option ByteArray) :
    Loader.Ensures (Books others' [] held []) (launch (firmware e).watched o payload cmdline)
      fun _ => Books others [] held [] := by
  unfold launch
  refine Loader.Ensures.bind (R := fun _ => Books others' [] held [])
    (Loader.Ensures.logged fun s hs => hs) fun options => ?_
  refine Loader.Ensures.bind (ensures_runImage o.mode payload.committed options) fun status => ?_
  refine Loader.Ensures.bind (ensures_deregister hinitrd hoffers) fun withdrawn => ?_
  exact Loader.Ensures.note_if_bind (Loader.Ensures.pure fun s hs => hs)

/-- On every way out, an attempt leaves the books as they are. -/
theorem ensures_run [Allocator] [Zstd.Decoder] (hinitrd : others.initrd = none) (o : Options) :
    Loader.Ensures (Books others [] held []) (run (firmware e).watched o)
      fun _ => Books others [] held [] := by
  unfold run
  refine Loader.Ensures.bind (ensures_embedded _) fun found => ?_
  refine Loader.Ensures.bind (Attempt.Ensures.noting (ensures_read fun F =>
    (opens_registered e).obtainPayload (fun _ => trivial) o found.linux)) fun payload => ?_
  cases payload with
  | error status => exact Loader.Ensures.pure fun s hs => hs
  | ok payload =>
      refine Loader.Ensures.bind (ensures_offerInitrd o found.initrd) fun offered => ?_
      cases offered with
      | error status => exact Loader.Ensures.pure fun s hs => hs
      | ok _ =>
          refine Loader.Ensures.of_exists fun others' => Loader.Ensures.of_and fun hoffers => ?_
          exact ensures_launch hinitrd hoffers o payload found.cmdline

/-! ## the bench before and after -/

/-- An attempt can be made: nothing is in exclusive use, and no initrd is on
offer.  A bench that has been reached by using it is sound. -/
structure Ready (m : Machine Bench) : Prop where
  opened : m.firmware.opened = []
  initrd : m.shared.initrd = none
  sound : m.firmware.Sound

/-- Pages, handles, images of the firmware's loader and exclusive uses are as
on the machine `m`, no initrd is on offer, and control has gone to one more
image at most.  Pages come back in another order only if some are handed out
twice. -/
structure Restored (m m' : Machine Bench) : Prop where
  pages_perm : m'.firmware.pages.inUse.Perm m.firmware.pages.inUse
  pages : m.firmware.settings.host.Fresh → m'.firmware.pages.inUse = m.firmware.pages.inUse
  handles : m'.firmware.handles.entries = m.firmware.handles.entries
  loaded : m'.firmware.loaded = m.firmware.loaded
  opened : m'.firmware.opened = m.firmware.opened
  initrd : m'.shared.initrd = none
  transfers : m'.firmware.transfers = m.firmware.transfers ∨
    ∃ x, m'.firmware.transfers = m.firmware.transfers ++ [x]

variable {m : Machine Bench}

/-- What is there before an attempt belongs to others; pages may also be held by
the computation. -/
theorem Ready.books (h : Ready m) {pages held : List (Nat × Nat)}
    (hinUse : m.firmware.pages.inUse = pages ++ held) (hapart : ∀ x ∈ held, x ∉ pages)
    (hfresh : pages = [] ∨ m.firmware.settings.host.Fresh) :
    Books { pages, entries := m.firmware.handles.entries, loaded := m.firmware.loaded } [] held []
      ⟨⟨m.firmware, []⟩, m.shared⟩ where
  registered :=
    { inUse := ⟨held, hinUse, List.Perm.refl _⟩
      apart := hapart
      fresh := hfresh
      sound := h.sound
      entries := (List.append_nil _).symm
      loaded_eq := rfl
      opened_eq := h.opened
      returns := by simp
      separate := by simp
      nodup := List.nodup_nil
      countable := by simp }
  described := Described.nil _
  initrd_eq := h.initrd

/-- After an attempt the books are as before, whichever pages are on them. -/
theorem Ready.books_run [Allocator] [Zstd.Decoder] (h : Ready m) (e : Equipment) (o : Options)
    {pages held : List (Nat × Nat)} (hinUse : m.firmware.pages.inUse = pages ++ held)
    (hapart : ∀ x ∈ held, x ∉ pages) (hfresh : pages = [] ∨ m.firmware.settings.host.Fresh) :
    let m' := (run (firmware e) o m).value.2
    ∃ returns, Books { pages, entries := m.firmware.handles.entries, loaded := m.firmware.loaded }
      [] held [] ⟨⟨m'.firmware, returns⟩, m'.shared⟩ := by
  intro m'
  have hbooks := ensures_run (e := e) rfl o _ (h.books hinUse hapart hfresh)
  have hbare : run (firmware e) o m = _ := bares_run (firmware e) ⟨⟨m.firmware, []⟩, m.shared⟩ o
  have hm' : m' = Machine.bare _ := congrArg (·.value.2) hbare
  rw [hm']
  exact ⟨_, hbooks⟩

/-- **Boot attempts leave nothing behind**: whatever fails, and whichever way
an attempt ends, the bench is as it was, and ready for another one. -/
theorem restored_run [Allocator] [Zstd.Decoder] (e : Equipment) (o : Options) (h : Ready m) :
    let m' := (run (firmware e) o m).value.2
    Ready m' ∧ Restored m m' := by
  intro m'
  -- a host may hand out pages twice: then those in use are held by the computation
  have hheld : m.firmware.pages.inUse = [] ++ m.firmware.pages.inUse := (List.nil_append _).symm
  obtain ⟨returns, hregistered, -, hinitrd⟩ := h.books_run e o hheld (by simp) (.inl rfl)
  have hentries : m'.firmware.handles.entries = m.firmware.handles.entries := by
    rw [hregistered.entries, List.map_nil, List.append_nil]
  have hpages : m.firmware.settings.host.Fresh →
      m'.firmware.pages.inUse = m.firmware.pages.inUse := by
    -- pages that are on the books as those of others keep their order as well
    intro hfresh
    have hothers : m.firmware.pages.inUse = m.firmware.pages.inUse ++ [] :=
      (List.append_nil _).symm
    obtain ⟨_, hregistered, -, -⟩ := h.books_run e o hothers (by simp) (.inr hfresh)
    obtain ⟨rest, hinUse, hrest⟩ := hregistered.inUse
    rw [List.map_nil, List.append_nil, List.perm_nil] at hrest
    rw [hinUse, hrest, List.append_nil]
  constructor
  · exact
      { opened := hregistered.opened_eq
        initrd := hinitrd
        sound := hregistered.sound }
  · exact
      { pages_perm := hregistered.perm_inUse
        pages := hpages
        handles := hentries
        loaded := hregistered.loaded_eq
        opened := hregistered.opened_eq.trans h.opened.symm
        initrd := hinitrd
        transfers := transfers_run e o m }

/-- A bench with pages in use, and with an image of the firmware's loader. -/
def occupied : Machine Bench where
  firmware := { fresh {} with
    pages := ⟨[(firstPage, 1)], firstPage + pageSize⟩
    handles := ⟨[(⟨firstHandle⟩, [(.loadedImage, .image 0)])], firstHandle + HandleDatabase.spacing⟩
    loaded := [⟨firstHandle⟩] }
  shared := { memory := Memory.filled 0 }

/-- Its pages are in use after an attempt, and no others. -/
theorem restored_run_occupied :
    let _ := Allocator.unlimited
    let _ := Zstd.Blocks.decoder
    let e : Equipment := { files := [(Options.defaultImage, smallestImage)] }
    let m' := (run (firmware e) {} occupied).value.2
    Ready occupied ∧ Ready m' ∧ Restored occupied m' ∧
      m'.firmware.pages.inUse = [(firstPage, 1)] := by
  intro _ _ e m'
  have hready : Ready occupied :=
    { opened := rfl
      initrd := rfl
      sound :=
        { numbered := by decide
          loaded_numbered := by decide
          below := by
            intro p hp
            rw [List.mem_singleton.mp hp]
            decide } }
  obtain ⟨hready', hrestored⟩ : Ready m' ∧ Restored occupied m' := restored_run e _ hready
  have hfresh : occupied.firmware.settings.host.Fresh := Host.fresh_upward
  exact ⟨hready, hready', hrestored, hrestored.pages hfresh⟩

end EfiLoader.Bench
