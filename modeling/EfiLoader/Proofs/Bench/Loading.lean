import EfiLoader.Proofs.Bench.Books
import EfiLoader.Proofs.Bench.Described
import EfiLoader.Proofs.Loader.Ensures
import EfiLoader.Proofs.Loader.Image

/-!
# EfiLoader.Proofs.Bench.Loading

Who has the pages of an image while it is loaded, started and unloaded.  The
pages are held by the computation that has asked for them until they go to a
handle, and on every other way out they are given back:

* `ensures_load` — an image gets a handle, or everything is as before;
* `ensures_start` — running an image leaves the books as they are;
* `ensures_unload_of_mem` — an image that has a handle goes, with its pages;
* `ensures_unload_of_not_mem` — any other handle is refused.
-/

namespace EfiLoader.Bench

open Log Pe

/-! ## the books -/

/-- The objects of an image that has a handle. -/
def OwnedImage.description (o : OwnedImage) : Description :=
  ⟨o.image.allocation, o.record, o.path⟩

/-- The bench has written down, and the loader shares, what belongs to the
images `owned`; besides, the pages `held` and the uses `opened` are those of
the computation that is running. -/
structure Books (others : Others) (owned : List OwnedImage) (held : List (Nat × Nat))
    (opened : List (Handle × Protocol)) (m : Machine (Watched Bench)) : Prop where
  registered : Registered others owned held opened m.firmware
  described : Described (owned.map OwnedImage.description) m.shared.objects
  initrd_eq : m.shared.initrd = others.initrd

variable {others : Others} {owned : List OwnedImage} {held : List (Nat × Nat)}
  {opened : List (Handle × Protocol)} {e : Equipment}

/-- The initrd on the books is the one on offer. -/
theorem Books.self {initrd : Option OfferedInitrd} {m : Machine (Watched Bench)}
    (h : Books { initrd } owned held opened m) :
    Books { initrd := m.shared.initrd } owned held opened m := by
  rw [h.initrd_eq]
  exact h

/-! ## memory -/

/-- Pages that are asked for are held if they are had. -/
theorem ensures_allocatePages (memoryType : UInt32) (n : Nat) :
    Attempt.Ensures (Books others owned held opened)
      (Attempt.ofLoader (Loader.call ((firmware e).watched.allocatePages memoryType n)))
      (fun address s => PageAllocation.Countable ⟨address, n, memoryType⟩ ∧
        Books others owned ((address, n) :: held) opened s)
      (Books others owned held opened) := by
  refine Attempt.Ensures.ofLoader (Loader.Ensures.call fun s hs => ?_)
  have hpages := hs.registered.allocatePages e memoryType n
  generalize (firmware e).watched.allocatePages memoryType n s.firmware = answer at hpages ⊢
  obtain ⟨r, w⟩ := answer
  cases r with
  | error status => exact ⟨hpages, hs.described, hs.initrd_eq⟩
  | ok address => exact ⟨hpages.1, hpages.2, hs.described, hs.initrd_eq⟩

/-- Memory that is given back is no longer held. -/
theorem ensures_release (b : PageBuffer) :
    Loader.Ensures (Books others owned (b.allocation.extent :: held) opened)
      (b.release (firmware e).watched) fun _ => Books others owned held opened := by
  unfold PageBuffer.release
  refine Loader.Ensures.bind (R := fun _ => Books others owned held opened) ?_ fun status => ?_
  · exact Loader.Ensures.call fun s hs =>
      ⟨(hs.registered.freePages e).2, hs.described, hs.initrd_eq⟩
  · split
    · exact Loader.Ensures.logged fun s hs => hs
    · exact Loader.Ensures.pure fun s hs => hs

/-- Memory is made from pages that are held, or the pages are given back. -/
theorem ensures_carve (a : PageAllocation) (size alignment : Nat) :
    Attempt.Ensures (Books others owned (a.extent :: held) opened)
      (PageBuffer.carve (firmware e).watched a size alignment)
      (fun b s => b.allocation = a ∧ Books others owned (a.extent :: held) opened s)
      (Books others owned held opened) := by
  unfold PageBuffer.carve
  split
  · refine Attempt.Ensures.bind (R := fun _ => Books others owned held opened) ?_ fun _ => ?_
    · exact Attempt.Ensures.lift (ensures_release ⟨a, a.address, size⟩)
    · exact Attempt.Ensures.throw fun s hs => hs
  · refine Attempt.Ensures.note_bind ?_
    refine Attempt.Ensures.bind (R := fun _ => Books others owned (a.extent :: held) opened) ?_
      fun _ => ?_
    · exact Attempt.Ensures.lift
        (Loader.Ensures.modifyShared fun s hs => ⟨hs.registered, hs.described, hs.initrd_eq⟩)
    · exact Attempt.Ensures.pure fun s hs => ⟨rfl, hs⟩

/-- Memory that is asked for is held if it is had. -/
theorem ensures_allocate (size alignment : Nat) (memoryType : UInt32) :
    Attempt.Ensures (Books others owned held opened)
      (PageBuffer.allocate (firmware e).watched size alignment memoryType)
      (fun b s => b.allocation.Countable ∧
        Books others owned (b.allocation.extent :: held) opened s)
      (Books others owned held opened) := by
  unfold PageBuffer.allocate
  dsimp only
  split
  · exact Attempt.Ensures.throw fun s hs => hs
  · split
    · exact Attempt.Ensures.throw fun s hs => hs
    · next n _ =>
      refine Attempt.Ensures.bind (R := fun address s =>
        PageAllocation.Countable ⟨address, n, memoryType⟩ ∧
          Books others owned ((address, n) :: held) opened s) ?_ fun address => ?_
      · exact Attempt.Ensures.noting (ensures_allocatePages memoryType n)
      · refine Attempt.Ensures.of_and fun hcountable => ?_
        refine (ensures_carve ⟨address, n, memoryType⟩ size alignment).mono ?_
        rintro b s ⟨hb, hs⟩
        rw [hb]
        exact ⟨hcountable, hs⟩

/-- Changing the fields of an image needs neither the firmware nor what is
shared. -/
theorem ensures_rebase {φ : Type} {P : Machine φ → Prop} (h : Headers) (source : ByteArray)
    (section? : Option RelocationSection) (base : Nat) (region : ByteArray) :
    Attempt.Ensures P (rebase h source section? base region) (fun _ s => P s) P := by
  unfold rebase
  split
  · refine Attempt.Ensures.bind (R := fun _ s => P s) (Attempt.Ensures.logged fun s hs => hs)
      fun answer => ?_
    refine Attempt.Ensures.bind (R := fun _ s => P s) ?_ fun _ => ?_
    · exact Attempt.Ensures.noting
        (Attempt.Ensures.settle (fun _ s _ hs => hs) fun s hs => hs)
    · exact Attempt.Ensures.pure fun s hs => hs
  · exact Attempt.Ensures.note_bind (Attempt.Ensures.pure fun s hs => hs)
  · dsimp only
    split
    · exact Attempt.Ensures.note_bind (Attempt.Ensures.pure fun s hs => hs)
    · exact Attempt.Ensures.pure fun s hs => hs

/-- Neither does making the memory of an image. -/
theorem ensures_imageMemory {φ : Type} {P : Machine φ → Prop} (h : Headers) (source : ByteArray)
    (base : Nat) :
    Attempt.Ensures P (imageMemory h source base) (fun _ s => P s) P := by
  unfold imageMemory
  dsimp only
  split
  · exact Attempt.Ensures.note_bind (Attempt.Ensures.throw fun s hs => hs)
  · refine Attempt.Ensures.bind (R := fun _ s => P s) (Attempt.Ensures.logged fun s hs => hs)
      fun answer => ?_
    refine Attempt.Ensures.bind (R := fun _ s => P s) ?_ fun section? => ?_
    · exact Attempt.Ensures.settle (fun _ s _ hs => hs) fun s hs => hs
    · exact ensures_rebase h source section? base answer.2

/-- An image that is placed holds its pages; one that is not has given them
back. -/
theorem ensures_placeImage (h : Headers) (source : ByteArray) :
    Attempt.Ensures (Books others owned held opened) (placeImage (firmware e).watched h source)
      (fun b s => b.allocation.Countable ∧
        Books others owned (b.allocation.extent :: held) opened s)
      (Books others owned held opened) := by
  unfold placeImage
  refine Attempt.Ensures.bind (ensures_allocate h.imageSize h.sectionAlignment loaderCode)
    fun b => Attempt.Ensures.of_and fun hcountable => ?_
  refine Attempt.Ensures.bind
    (R := fun _ => Books others owned (b.allocation.extent :: held) opened) ?_ fun region => ?_
  · exact Attempt.Ensures.orElseDo (ensures_imageMemory h source b.base) (ensures_release b)
  · refine Attempt.Ensures.bind
      (R := fun _ => Books others owned (b.allocation.extent :: held) opened) ?_ fun _ => ?_
    · exact Attempt.Ensures.lift
        (Loader.Ensures.modifyShared fun s hs => ⟨hs.registered, hs.described, hs.initrd_eq⟩)
    · exact Attempt.Ensures.pure fun s hs => ⟨hcountable, hs⟩

/-! ## handles -/

/-- The record of an image of this loader says so. -/
theorem isOwn_recordOf {φ : Type} (fw : Firmware φ) (b : PageBuffer) (h : Headers)
    (path : Interface) : LoadedImage.isOwn (LoadedImage.recordOf fw b h path) path = true := by
  simp [LoadedImage.isOwn, LoadedImage.recordOf]

/-- The bench has written down, and the loader shares, what belongs to the
images `owned`; the objects of one more image in the pages `a`, which are
held, have been made. -/
structure Drafted (others : Others) (owned : List OwnedImage) (a : PageAllocation)
    (held : List (Nat × Nat)) (opened : List (Handle × Protocol)) (record path : Nat)
    (m : Machine (Watched Bench)) : Prop where
  registered : Registered others owned (a.extent :: held) opened m.firmware
  described : Described (⟨a, record, path⟩ :: owned.map OwnedImage.description) m.shared.objects
  initrd_eq : m.shared.initrd = others.initrd

/-- The objects of an image are made. -/
theorem ensures_describe (b : PageBuffer) (h : Headers) :
    Loader.Ensures (Books others owned (b.allocation.extent :: held) opened)
      (LoadedImage.describe (firmware e).watched b h) fun is s =>
        ∃ record path, is = (.image record, .path path) ∧
          Drafted others owned b.allocation held opened record path s := by
  intro s hs
  refine ⟨s.shared.objects.next + 1, s.shared.objects.next, rfl, hs.registered, ?_, hs.initrd_eq⟩
  have hown := isOwn_recordOf (firmware e).watched b h (.path s.shared.objects.next)
  have hdraft := hs.described.draft (a := b.allocation) hown
  rwa [Described.drafted, ← ImageRecord.value_noted (LoadedImage.recordOf _ _ _ _)] at hdraft

/-- A handle for an image gets its pages. -/
theorem ensures_install_null (a : PageAllocation) (record path : Nat) (hcountable : a.Countable) :
    Loader.Ensures (Drafted others owned a held opened record path)
      (Loader.call ((firmware e).watched.install Handle.null
        (LoadedImage.interfaces (.image record) (.path path))))
      fun r s =>
        (∀ status, r = .error status → Drafted others owned a held opened record path s) ∧
        ∀ image : LoadedImage, r = .ok image.handle → image.allocation = a →
          Books others (owned ++ [⟨image, record, path⟩]) held opened s := by
  refine Loader.Ensures.call fun s hs => ?_
  have hinstall := hs.registered.install e record path
  generalize (firmware e).watched.install Handle.null
    (LoadedImage.interfaces (.image record) (.path path)) s.firmware = answer at hinstall ⊢
  obtain ⟨r, w⟩ := answer
  cases r with
  | error status =>
      refine ⟨fun _ _ => ⟨hinstall, hs.described, hs.initrd_eq⟩, fun image himage => ?_⟩
      cases himage
  | ok handle =>
      refine ⟨fun status hstatus => (by cases hstatus), fun image himage ha => ?_⟩
      subst ha
      cases himage
      refine ⟨hinstall image rfl rfl rfl hcountable, hs.described.perm ?_, hs.initrd_eq⟩
      rw [List.map_append]
      exact (List.perm_append_singleton _ _).symm

/-- An image in memory gets a handle, to which the pages go, or the pages are
given back. -/
theorem ensures_install (b : PageBuffer) (h : Headers) (hcountable : b.allocation.Countable) :
    Attempt.Ensures (Books others owned (b.allocation.extent :: held) opened)
      (LoadedImage.install (firmware e).watched b h)
      (fun image s => ∃ o : OwnedImage, o.image = image ∧ Books others (owned ++ [o]) held opened s)
      (Books others owned held opened) := by
  unfold LoadedImage.install
  refine Attempt.Ensures.bind (Attempt.Ensures.lift (ensures_describe b h)) fun is => ?_
  refine Attempt.Ensures.of_exists fun record => Attempt.Ensures.of_exists fun path => ?_
  refine Attempt.Ensures.of_and fun his => ?_
  subst his
  refine Attempt.Ensures.bind
    (Attempt.Ensures.lift (ensures_install_null b.allocation record path hcountable)) fun r => ?_
  cases r with
  | ok handle =>
      refine Attempt.Ensures.note_bind (Attempt.Ensures.pure fun s hs => ?_)
      exact ⟨⟨_, record, path⟩, rfl, hs.2 _ rfl rfl⟩
  | error status =>
      refine Attempt.Ensures.note_bind ?_
      refine Attempt.Ensures.bind
        (R := fun _ => Books others owned (b.allocation.extent :: held) opened) ?_ fun _ => ?_
      · refine Attempt.Ensures.lift (Loader.Ensures.modifyObjects fun s hs => ?_)
        have hdrafted := hs.1 status rfl
        exact ⟨hdrafted.registered, hdrafted.described.remove, hdrafted.initrd_eq⟩
      · refine Attempt.Ensures.bind (R := fun _ => Books others owned held opened) ?_ fun _ => ?_
        · exact Attempt.Ensures.lift (ensures_release b)
        · exact Attempt.Ensures.throw fun s hs => hs

/-- An image gets a handle, or everything is as before. -/
theorem ensures_load (data : ByteArray) :
    Attempt.Ensures (Books others owned held opened) (LoadedImage.load (firmware e).watched data)
      (fun image s => ∃ o : OwnedImage, o.image = image ∧ Books others (owned ++ [o]) held opened s)
      (Books others owned held opened) := by
  unfold LoadedImage.load LoadedImage.loadFor
  dsimp only
  split
  · exact Attempt.Ensures.note_bind (Attempt.Ensures.throw fun s hs => hs)
  · refine Attempt.Ensures.bind (R := fun _ => Books others owned held opened)
      (Attempt.Ensures.logged fun s hs => hs) fun answer => ?_
    refine Attempt.Ensures.bind (R := fun _ => Books others owned held opened)
      (Attempt.Ensures.settle (fun _ s _ hs => hs) fun s hs => hs) fun h => ?_
    refine Attempt.Ensures.bind (ensures_placeImage h data) fun b => ?_
    refine Attempt.Ensures.of_and fun hcountable => ?_
    refine Attempt.Ensures.bind (ensures_install b h hcountable) fun image => ?_
    exact Attempt.Ensures.note_bind (Attempt.Ensures.pure fun s hs => hs)

/-! ## running -/

/-- Changing the load options of a record leaves the books as they are. -/
theorem ensures_setLoadOptions (record : Interface) (units : List UInt16) :
    Loader.Ensures (Books others owned held opened) (LoadedImage.setLoadOptions record units)
      fun _ => Books others owned held opened := by
  refine Loader.Ensures.modifyObjects fun s hs => ⟨hs.registered, ?_, hs.initrd_eq⟩
  refine hs.described.updateImage record fun r path => ?_
  unfold ImageRecord.setLoadOptions
  split
  · rfl
  · rfl

/-- So does running an image, whatever its handle carries. -/
theorem ensures_start (image : LoadedImage) (options : List UInt16) :
    Loader.Ensures (Books others owned held opened)
      (LoadedImage.start (firmware e).watched image options)
      fun _ => Books others owned held opened := by
  unfold LoadedImage.start
  refine Loader.Ensures.bind (R := fun _ => Books others owned held opened) ?_ fun answer => ?_
  · exact Loader.Ensures.call fun s hs =>
      ⟨hs.registered.interface e _ _, hs.described, hs.initrd_eq⟩
  · cases answer with
    | error status => exact Loader.Ensures.note_bind (Loader.Ensures.pure fun s hs => hs)
    | ok record =>
        refine Loader.Ensures.bind (ensures_setLoadOptions record options) fun _ => ?_
        refine Loader.Ensures.note_bind ?_
        refine Loader.Ensures.bind (R := fun _ => Books others owned held opened) ?_
          fun status => ?_
        · exact Loader.Ensures.hand fun s hs =>
            ⟨hs.registered.transfer e _ _ _, hs.described, hs.initrd_eq⟩
        · refine Loader.Ensures.note_bind ?_
          refine Loader.Ensures.bind (ensures_setLoadOptions record []) fun _ => ?_
          exact Loader.Ensures.pure fun s hs => hs

/-! ## unloading -/

/-- The handle of an image goes, and its pages with it. -/
theorem ensures_discard {o : OwnedImage} (ho : o ∈ owned) :
    Loader.Ensures (Books others owned held [])
      (LoadedImage.discard (firmware e).watched o.handle (.image o.record) (.path o.path)
        ⟨o.image.allocation.memoryType, UInt64.ofNat o.image.allocation.address,
          UInt64.ofNat o.image.allocation.last⟩ o.image.allocation.pages)
      fun status s => status = Status.success ∧
        Books others (without owned o.handle) held [] s := by
  unfold LoadedImage.discard
  -- while the pages are on their way back, the objects are still there
  let Removed (held : List (Nat × Nat)) (s : Machine (Watched Bench)) : Prop :=
    Registered others (without owned o.handle) held [] s.firmware ∧
      Described (o.description :: (without owned o.handle).map OwnedImage.description)
        s.shared.objects ∧
      s.shared.initrd = others.initrd
  refine Loader.Ensures.bind (R := fun status s => status = Status.success ∧
    o.image.allocation.Countable ∧ Removed (o.extent :: held) s) ?_ fun status => ?_
  · refine Loader.Ensures.call fun s hs => ?_
    have huninstall := hs.registered.uninstall e ho
    have hperm := (perm_cons_without hs.registered.nodup ho).map OwnedImage.description
    exact ⟨huninstall.1, hs.registered.countable o ho, huninstall.2, hs.described.perm hperm,
      hs.initrd_eq⟩
  · refine Loader.Ensures.of_and fun hstatus => Loader.Ensures.of_and fun hcountable => ?_
    rw [if_neg (not_not_intro hstatus), LoadedImage.toNat_address hcountable]
    refine Loader.Ensures.bind (R := fun freed s => freed = Status.success ∧ Removed held s) ?_
      fun freed => ?_
    · refine Loader.Ensures.call fun s hs => ?_
      have hfree := hs.1.freePages e
      exact ⟨hfree.1, hfree.2, hs.2⟩
    · refine Loader.Ensures.of_and fun hfreed => ?_
      rw [if_neg (not_not_intro hfreed)]
      refine Loader.Ensures.bind (R := fun _ => Books others (without owned o.handle) held []) ?_
        fun _ => ?_
      · exact Loader.Ensures.modifyObjects fun s hs => ⟨hs.1, hs.2.1.remove, hs.2.2⟩
      · exact Loader.Ensures.note_bind (Loader.Ensures.pure fun s hs => ⟨hfreed, hs⟩)

/-- What the handle of an image carries is given out for exclusive use. -/
theorem ensures_openExclusive {o : OwnedImage} (ho : o ∈ owned) {p : Protocol} {i : Interface}
    (hi : (p, i) ∈ o.interfaces) (hopened : (o.handle, p) ∉ opened) :
    Loader.Ensures (Books others owned held opened)
      (Loader.call ((firmware e).watched.openExclusive o.handle p))
      fun answer s => answer = .ok i ∧ Books others owned held (opened ++ [(o.handle, p)]) s := by
  refine Loader.Ensures.call fun s hs => ?_
  have hopen := hs.registered.openExclusive e ho hi hopened
  exact ⟨hopen.1, hopen.2, hs.described, hs.initrd_eq⟩

/-- The last use ends. -/
theorem ensures_close (opened : List (Handle × Protocol)) {k : Handle} {p : Protocol}
    (hk : (k, p) ∉ opened) :
    Loader.Ensures (Books others owned held (opened ++ [(k, p)]))
      (Loader.call ((firmware e).watched.close k p)) fun _ => Books others owned held opened :=
  Loader.Ensures.call fun _ hs => ⟨hs.registered.close e hk, hs.described, hs.initrd_eq⟩

/-- An image that has a handle goes, with its pages. -/
theorem ensures_unload_of_mem {o : OwnedImage} (ho : o ∈ owned) :
    Loader.Ensures (Books others owned held [])
      (LoadedImage.unload (firmware e).watched o.handle)
      fun status s => status = Status.success ∧
        Books others (without owned o.handle) held [] s := by
  unfold LoadedImage.unload
  have hpath : (.loadedImageDevicePath, .path o.path) ∈ o.interfaces := by
    simp [OwnedImage.interfaces, LoadedImage.interfaces]
  have hrecord : (.loadedImage, .image o.record) ∈ o.interfaces := by
    simp [OwnedImage.interfaces, LoadedImage.interfaces]
  have hdescription : o.description ∈ owned.map OwnedImage.description := List.mem_map_of_mem ho
  refine Loader.Ensures.bind (ensures_openExclusive ho hpath (by simp)) fun answer => ?_
  refine Loader.Ensures.of_and fun hanswer => ?_
  subst hanswer
  dsimp only
  -- the path names the pages of the image
  refine Loader.Ensures.bind (R := fun shared s =>
    shared.objects.path? (.path o.path) = some (LoadedImage.pathOf o.image.allocation) ∧
      Books others owned held [(o.handle, .loadedImageDevicePath)] s) ?_ fun shared => ?_
  · exact Loader.Ensures.shared fun s hs => ⟨hs.described.path_eq _ hdescription, hs⟩
  refine Loader.Ensures.of_and fun hnode => ?_
  rw [hnode, Option.bind_some, LoadedImage.read?_pathOf]
  dsimp only
  refine Loader.Ensures.bind (ensures_openExclusive ho hrecord (by simp)) fun answer => ?_
  refine Loader.Ensures.of_and fun hanswer => ?_
  subst hanswer
  dsimp only
  -- the record points back at the path
  refine Loader.Ensures.bind (R := fun shared s =>
    ((shared.objects.image? (.image o.record)).any
        fun r => LoadedImage.isOwn r (.path o.path)) = true ∧
      o.image.allocation.Countable ∧
      Books others owned held
        [(o.handle, .loadedImageDevicePath), (o.handle, .loadedImage)] s) ?_ fun shared => ?_
  · refine Loader.Ensures.shared fun s hs => ?_
    obtain ⟨r, hr, hown⟩ := hs.described.own _ hdescription
    refine ⟨?_, hs.registered.countable o ho, hs⟩
    show (s.shared.objects.images o.record).any _ = true
    rw [show s.shared.objects.images o.record = some r from hr]
    exact hown
  refine Loader.Ensures.of_and fun hown => Loader.Ensures.of_and fun hcountable => ?_
  rw [hown, LoadedImage.pagesBetween?_eq_some hcountable]
  rw [if_neg (by simp)]
  refine Loader.Ensures.bind (R := fun _ => Books others owned held []) ?_
    fun _ => ensures_discard ho
  refine Loader.Ensures.bind (ensures_close [(o.handle, .loadedImageDevicePath)] (by simp))
    fun _ => ?_
  refine Loader.Ensures.bind (ensures_close [] (by simp)) fun _ => ?_
  exact Loader.Ensures.pure fun s hs => hs

/-- Any other handle is refused. -/
theorem ensures_unload_of_not_mem {k : Handle} (hothers : k ∉ others.entries.map (·.1))
    (hk : k ∉ owned.map OwnedImage.handle) :
    Loader.Ensures (Books others owned held opened) (LoadedImage.unload (firmware e).watched k)
      fun status s => status = Status.unsupported ∧ Books others owned held opened s := by
  unfold LoadedImage.unload
  refine Loader.Ensures.bind (R := fun answer s => answer = .error Status.unsupported ∧
    Books others owned held opened s) ?_ fun answer => ?_
  · refine Loader.Ensures.call fun s hs => ?_
    rw [hs.registered.openExclusive_of_not_mem e hothers hk]
    exact ⟨rfl, hs⟩
  · refine Loader.Ensures.of_and fun hanswer => ?_
    subst hanswer
    exact Loader.Ensures.pure fun s hs => ⟨rfl, hs⟩

end EfiLoader.Bench
