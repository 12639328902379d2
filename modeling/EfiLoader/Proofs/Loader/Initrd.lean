import EfiLoader.Loader.Initrd
import EfiLoader.Proofs.Bench.Handles
import EfiLoader.Proofs.Firmware.LoadFile
import EfiLoader.Proofs.Loader.Ends

/-!
# EfiLoader.Proofs.Loader.Initrd

The registered initrd and the handle that offers it, on firmware that adds or
removes all interfaces of a list or none.  Whatever is registered, withdrawn and
requested, in whatever order:

* `Consistent` — the loader and the firmware agree on what is on offer, which
  every call preserves;
* `offered_after` — so an initrd is registered exactly while one handle offers
  it, calls that fail change nothing, and requests get what has been registered.
-/

namespace EfiLoader.Initrd

open Log

variable {φ : Type} {fw : Firmware φ} {m m' : Machine φ}

/-! ## calls -/

/-- Answer a request to a file service. -/
def request (this : Interface) (r : LoadFile.Request) : Loader φ LoadFile.Reply := do
  (← Loader.shared).loadFile this r

/-- What the loader can be asked to do with initrds. -/
inductive Call where
  | register (data : Buffer)
  | deregister
  | request (this : Interface) (r : LoadFile.Request)

/-- The machine after a call. -/
def perform (fw : Firmware φ) (m : Machine φ) : Call → Machine φ
  | .register data => (Attempt.ends (register fw data) m).2
  | .deregister => (Loader.ends (deregister fw) m).2
  | .request this r => (Loader.ends (request this r) m).2

/-- The machine after calls, one after the other. -/
def after (fw : Firmware φ) (m : Machine φ) (calls : List Call) : Machine φ :=
  calls.foldl (perform fw) m

theorem ends_request (this : Interface) (r : LoadFile.Request) (m : Machine φ) :
    Loader.ends (request this r) m = ((m.shared.loadFile this r).value, m) := rfl

/-! ## where they end -/

theorem ends_register_of_empty {data : Buffer} (h : data.remaining.size = 0) :
    Attempt.ends (register fw data) m = (.ok (), m) := by
  rw [register, if_pos h]
  rfl

theorem ends_register_of_some {data : Buffer} {offer : OfferedInitrd}
    (h : data.remaining.size ≠ 0) (hoffer : m.shared.initrd = some offer) :
    Attempt.ends (register fw data) m = (.error Status.alreadyStarted, m) := by
  have hhas : m.shared.hasInitrd = true := by rw [Shared.hasInitrd, hoffer]; rfl
  rw [register, if_neg h]
  simp only [Attempt.ends_bind, Attempt.ends_lift, Loader.ends_shared, if_pos hhas,
    Attempt.ends_logged, Attempt.ends_throw]

/-- The first initrd gets a new service, and is registered if the firmware has
a handle for it. -/
theorem ends_register_of_none {data : Buffer} (h : data.remaining.size ≠ 0)
    (hnone : m.shared.initrd = none) :
    Attempt.ends (register fw data) m =
      match fw.install Handle.null (interfaces (.loadFile m.shared.objects.next))
        (fw.locate .loadFile2 .initrdPath m.shared m.firmware).2 with
      | (.error status, f) =>
        (.error status, ⟨f, { m.shared with objects := m.shared.objects.fresh.2 }⟩)
      | (.ok handle, f) =>
        (.ok (), ⟨f, { m.shared with
          objects := m.shared.objects.fresh.2
          initrd := some ⟨data, handle, .loadFile m.shared.objects.next⟩ }⟩) := by
  have hhas : ¬m.shared.hasInitrd = true := by rw [Shared.hasInitrd, hnone]; simp
  rw [register, if_neg h]
  rcases hlocate : fw.locate .loadFile2 .initrdPath m.shared m.firmware with ⟨status | other, f⟩
  -- whether the path is on another handle shows in a line only
  all_goals
    simp only [Attempt.ends_bind, Attempt.ends_lift, Loader.ends_shared, if_neg hhas,
      Attempt.ends_lift', Loader.ends_callSharing, hlocate, Attempt.ends_logged,
      Attempt.ends_noting, Attempt.ends_ofLoader, Loader.ends_call, Loader.ends_modifyObjects,
      Loader.ends_modifyShared, Objects.fresh]
    rcases fw.install Handle.null (interfaces (.loadFile m.shared.objects.next)) f
      with ⟨status | handle, f'⟩
    · rfl
    · rfl

theorem ends_deregister_of_none (hnone : m.shared.initrd = none) :
    Loader.ends (deregister fw) m = (Status.success, m) := by
  simp only [deregister, Loader.ends_bind, Loader.ends_shared, hnone, Loader.ends_pure]

/-- A registered initrd is withdrawn if the firmware takes its interfaces off
their handle. -/
theorem ends_deregister_of_some {offer : OfferedInitrd} (hoffer : m.shared.initrd = some offer) :
    Loader.ends (deregister fw) m =
      match fw.uninstall offer.handle (interfaces offer.service) m.firmware with
      | (status, f) =>
        if status.isError then (status, ⟨f, m.shared⟩)
        else (Status.success, ⟨f, { m.shared with initrd := none }⟩) := by
  rcases hcall : fw.uninstall offer.handle (interfaces offer.service) m.firmware with ⟨status, f⟩
  simp only [deregister, Loader.ends_bind, Loader.ends_shared, hoffer, Loader.ends_call, hcall]
  by_cases herror : status.isError
  · simp only [if_pos herror]
    rfl
  · simp only [if_neg herror]
    rfl

/-! ## the invariant -/

/-- A handle carries the path on which kernels look for their initrd, and a file
service that has been made since `first`. -/
def Offers (held : Holdings) (first : Nat) (h : Handle) : Prop :=
  (h, .devicePath, .initrdPath) ∈ held ∧
    ∃ id, first ≤ id ∧ (h, .loadFile2, .loadFile id) ∈ held

/-- The loader and the firmware agree: of the file services that have been made
since `first` only that of the registered initrd is on a handle, which carries
the path of the initrd too. -/
structure Consistent (v : HandleView φ) (first : Nat) (m : Machine φ) : Prop where
  valid : v.Valid m.firmware
  first_le : first ≤ m.shared.objects.next
  offered (h : Handle) (p : Protocol) (id : Nat) : first ≤ id →
    ((h, p, .loadFile id) ∈ v.held m.firmware ↔ p = .loadFile2 ∧
      ∃ offer, m.shared.initrd = some offer ∧ offer.handle = h ∧ offer.service = .loadFile id)
  path (offer : OfferedInitrd) : m.shared.initrd = some offer →
    (offer.handle, .devicePath, .initrdPath) ∈ v.held m.firmware
  service (offer : OfferedInitrd) : m.shared.initrd = some offer →
    ∃ id, first ≤ id ∧ id < m.shared.objects.next ∧ offer.service = .loadFile id
  nonempty (offer : OfferedInitrd) : m.shared.initrd = some offer →
    offer.data.remaining.size ≠ 0

/-- Registration, handles and replies are as they were. -/
structure Untouched (v : HandleView φ) (m m' : Machine φ) : Prop where
  initrd : m'.shared.initrd = m.shared.initrd
  held : v.held m'.firmware = v.held m.firmware
  replies : m'.shared.loadFile = m.shared.loadFile

variable {v : HandleView φ} {first : Nat}

theorem Untouched.refl (v : HandleView φ) (m : Machine φ) : Untouched v m m := ⟨rfl, rfl, rfl⟩

theorem Untouched.of_initrd (hinitrd : m'.shared.initrd = m.shared.initrd)
    (hheld : v.held m'.firmware = v.held m.firmware) : Untouched v m m' :=
  ⟨hinitrd, hheld, Shared.loadFile_congr hinitrd⟩

namespace Consistent

/-- Nothing is on offer if no service has been made. -/
theorem start (hvalid : v.Valid m.firmware) (hnone : m.shared.initrd = none)
    (hmade : ∀ h p id, (h, p, .loadFile id) ∈ v.held m.firmware → id < m.shared.objects.next) :
    Consistent v m.shared.objects.next m where
  valid := hvalid
  first_le := Nat.le_refl _
  offered h p id hid := by
    refine ⟨fun hheld => absurd (hmade h p id hheld) (Nat.not_lt.mpr hid), ?_⟩
    rintro ⟨-, offer, hoffer, -⟩
    cases hnone.symm.trans hoffer
  path offer hoffer := by cases hnone.symm.trans hoffer
  service offer hoffer := by cases hnone.symm.trans hoffer
  nonempty offer hoffer := by cases hnone.symm.trans hoffer

/-- Machines that differ in nothing that matters agree alike. -/
theorem of_untouched (hc : Consistent v first m) (h : Untouched v m m')
    (hvalid : v.Valid m'.firmware) (hnext : m.shared.objects.next ≤ m'.shared.objects.next) :
    Consistent v first m' where
  valid := hvalid
  first_le := Nat.le_trans hc.first_le hnext
  offered := by
    rw [h.held, h.initrd]
    exact hc.offered
  path := by
    rw [h.held, h.initrd]
    exact hc.path
  service := by
    rw [h.initrd]
    intro offer hoffer
    obtain ⟨id, hfirst, hlt, hservice⟩ := hc.service offer hoffer
    exact ⟨id, hfirst, Nat.lt_of_lt_of_le hlt hnext, hservice⟩
  nonempty := by
    rw [h.initrd]
    exact hc.nonempty

/-- A new handle offers what has been registered. -/
theorem registered (hc : Consistent v first m) (hnone : m.shared.initrd = none) {data : Buffer}
    (hdata : data.remaining.size ≠ 0) {f : φ} {handle : Handle} (hvalid : v.Valid f)
    (hheld : v.held f = v.held m.firmware ∪
      Holdings.on handle (interfaces (.loadFile m.shared.objects.next))) :
    Consistent v first ⟨f, { m.shared with
      objects := m.shared.objects.fresh.2
      initrd := some ⟨data, handle, .loadFile m.shared.objects.next⟩ }⟩ where
  valid := hvalid
  first_le := Nat.le_succ_of_le hc.first_le
  offered h p id hid := by
    have hbefore : (h, p, .loadFile id) ∉ v.held m.firmware := by
      rw [hc.offered h p id hid, hnone]
      simp
    simp only [hheld, Set.mem_union, hbefore, false_or, Holdings.mem_on, interfaces,
      List.mem_cons, Prod.mk.injEq, reduceCtorEq, and_false, List.not_mem_nil, or_false,
      Interface.loadFile.injEq, Option.some.injEq, exists_eq_left']
    constructor
    · intro hheld
      obtain ⟨hh, hp, hid⟩ := hheld
      exact ⟨hp, hh.symm, hid.symm⟩
    · intro hoffer
      obtain ⟨hp, hh, hid⟩ := hoffer
      exact ⟨hh.symm, hp, hid.symm⟩
  path := by
    rintro _ ⟨⟩
    rw [hheld]
    exact .inr ⟨rfl, List.mem_cons_self⟩
  service := by
    rintro _ ⟨⟩
    exact ⟨m.shared.objects.next, hc.first_le, Nat.lt_succ_self _, rfl⟩
  nonempty := by
    rintro _ ⟨⟩
    exact hdata

/-- Without its interfaces a handle offers nothing. -/
theorem withdrawn (hc : Consistent v first m) {offer : OfferedInitrd}
    (hoffer : m.shared.initrd = some offer) {f : φ} (hvalid : v.Valid f)
    (hheld : v.held f = v.held m.firmware \
      Holdings.on offer.handle (interfaces offer.service)) :
    Consistent v first ⟨f, { m.shared with initrd := none }⟩ where
  valid := hvalid
  first_le := hc.first_le
  offered h p id hid := by
    have hgone : (h, p, .loadFile id) ∉ v.held f := by
      rw [hheld]
      rintro ⟨hold, hleft⟩
      obtain ⟨rfl, offer', hoffer', rfl, hservice⟩ := (hc.offered h p id hid).mp hold
      cases hoffer.symm.trans hoffer'
      exact hleft ⟨rfl, by simp [interfaces, hservice]⟩
    refine ⟨fun h' => absurd h' hgone, ?_⟩
    rintro ⟨-, offer, hnone, -⟩
    cases hnone
  path offer hnone := by cases hnone
  service offer hnone := by cases hnone
  nonempty offer hnone := by cases hnone

/-! ## steps -/

/-- What registering leads to: it fails and changes nothing, there is nothing to
register, or the first initrd is registered. -/
theorem register (hc : Consistent v first m) (all : fw.AllOrNothing v) (data : Buffer)
    {r : Except Status Unit} (hends : Attempt.ends (register fw data) m = (r, m')) :
    Consistent v first m' ∧
      ((∃ status, r = .error status ∧ Untouched v m m') ∨
        (r = .ok () ∧ data.remaining.size = 0 ∧ m' = m) ∨
        r = .ok () ∧ data.remaining.size ≠ 0 ∧ m.shared.initrd = none ∧
          ∃ offer, m'.shared.initrd = some offer ∧ offer.data = data) := by
  by_cases hdata : data.remaining.size = 0
  · cases (ends_register_of_empty hdata).symm.trans hends
    exact ⟨hc, .inr (.inl ⟨rfl, hdata, rfl⟩)⟩
  · cases hinitrd : m.shared.initrd with
    | some offer =>
        cases (ends_register_of_some hdata hinitrd).symm.trans hends
        exact ⟨hc, .inl ⟨_, rfl, .refl v m⟩⟩
    | none =>
        rw [ends_register_of_none hdata hinitrd] at hends
        obtain ⟨hlocated, hsame⟩ := all.locate m.firmware .loadFile2 .initrdPath m.shared hc.valid
        rcases hinstall : fw.install Handle.null (interfaces (.loadFile m.shared.objects.next))
          (fw.locate .loadFile2 .initrdPath m.shared m.firmware).2 with ⟨status | handle, f⟩
        · rw [hinstall] at hends
          cases hends
          obtain ⟨hvalid, hheld⟩ := all.install_error hlocated hinstall
          have huntouched : Untouched v m
              ⟨f, { m.shared with objects := m.shared.objects.fresh.2 }⟩ :=
            .of_initrd rfl (hheld.trans hsame)
          exact ⟨hc.of_untouched huntouched hvalid (Nat.le_succ _), .inl ⟨status, rfl, huntouched⟩⟩
        · rw [hinstall] at hends
          cases hends
          obtain ⟨hvalid, -, hheld⟩ := all.install_ok hlocated hinstall
          rw [hsame] at hheld
          exact ⟨hc.registered hinitrd hdata hvalid hheld,
            .inr (.inr ⟨rfl, hdata, rfl, _, rfl, rfl⟩)⟩

/-- What withdrawing leads to: it fails and changes nothing, or nothing is
registered any more. -/
theorem deregister (hc : Consistent v first m) (all : fw.AllOrNothing v) {status : Status}
    (hends : Loader.ends (deregister fw) m = (status, m')) :
    Consistent v first m' ∧
      (status.isError = true ∧ Untouched v m m' ∨
        status = Status.success ∧ m'.shared.initrd = none) := by
  cases hinitrd : m.shared.initrd with
  | none =>
      cases (ends_deregister_of_none hinitrd).symm.trans hends
      exact ⟨hc, .inr ⟨rfl, hinitrd⟩⟩
  | some offer =>
      rw [ends_deregister_of_some hinitrd] at hends
      rcases huninstall : fw.uninstall offer.handle (interfaces offer.service) m.firmware
        with ⟨answer, f⟩
      rw [huninstall] at hends
      cases herror : answer.isError with
      | true =>
          simp only [herror, if_true] at hends
          cases hends
          obtain ⟨hvalid, hheld⟩ := all.uninstall_error hc.valid huninstall herror
          have huntouched : Untouched v m ⟨f, m.shared⟩ := .of_initrd rfl hheld
          exact ⟨hc.of_untouched huntouched hvalid (Nat.le_refl _), .inl ⟨herror, huntouched⟩⟩
      | false =>
          simp only [herror, Bool.false_eq_true, if_false] at hends
          cases hends
          obtain ⟨hvalid, hheld⟩ := all.uninstall_ok hc.valid huninstall herror
          exact ⟨hc.withdrawn hinitrd hvalid hheld, .inr ⟨rfl, rfl⟩⟩

/-- Every call preserves the invariant. -/
theorem perform (hc : Consistent v first m) (all : fw.AllOrNothing v) (call : Call) :
    Consistent v first (perform fw m call) := by
  cases call with
  | register data => exact (hc.register all data rfl).1
  | deregister => exact (hc.deregister all rfl).1
  | request this r => exact hc

/-- So do calls. -/
theorem after (hc : Consistent v first m) (all : fw.AllOrNothing v) (calls : List Call) :
    Consistent v first (after fw m calls) := by
  induction calls generalizing m with
  | nil => exact hc
  | cons call rest ih => exact ih (hc.perform all call)

/-! ## what it says -/

theorem offers_iff (hc : Consistent v first m) (h : Handle) :
    Offers (v.held m.firmware) first h ↔
      ∃ offer, m.shared.initrd = some offer ∧ offer.handle = h := by
  constructor
  · rintro ⟨-, id, hid, hservice⟩
    obtain ⟨-, offer, hoffer, hhandle, -⟩ := (hc.offered h .loadFile2 id hid).mp hservice
    exact ⟨offer, hoffer, hhandle⟩
  · rintro ⟨offer, hoffer, rfl⟩
    obtain ⟨id, hid, -, hservice⟩ := hc.service offer hoffer
    exact ⟨hc.path offer hoffer, id, hid,
      (hc.offered _ _ id hid).mpr ⟨rfl, offer, hoffer, rfl, hservice⟩⟩

/-- An initrd is registered while one handle offers it. -/
theorem hasInitrd_iff (hc : Consistent v first m) :
    m.shared.hasInitrd = true ↔ ∃! h, Offers (v.held m.firmware) first h := by
  simp only [hc.offers_iff]
  rw [Shared.hasInitrd, Option.isSome_iff_exists]
  constructor
  · rintro ⟨offer, hoffer⟩
    refine ⟨offer.handle, ⟨offer, hoffer, rfl⟩, ?_⟩
    rintro h ⟨offer', hoffer', rfl⟩
    cases hoffer.symm.trans hoffer'
    rfl
  · rintro ⟨h, ⟨offer, hoffer, -⟩, -⟩
    exact ⟨offer, hoffer⟩

/-- Its path and its service are on that handle and on no other. -/
theorem carries_iff (hc : Consistent v first m) {offer : OfferedInitrd}
    (hoffer : m.shared.initrd = some offer) (h : Handle) :
    ((h, .devicePath, .initrdPath) ∈ v.held m.firmware ∧
      (h, .loadFile2, offer.service) ∈ v.held m.firmware) ↔ h = offer.handle := by
  obtain ⟨id, hid, -, hservice⟩ := hc.service offer hoffer
  rw [hservice, hc.offered h .loadFile2 id hid]
  constructor
  · rintro ⟨-, -, offer', hoffer', rfl, -⟩
    cases hoffer.symm.trans hoffer'
    rfl
  · rintro rfl
    exact ⟨hc.path offer hoffer, rfl, offer, hoffer, rfl, hservice⟩

/-- Proper requests to its service get it. -/
theorem value_loadFile (hc : Consistent v first m) {offer : OfferedInitrd}
    (hoffer : m.shared.initrd = some offer) (r : LoadFile.Request) :
    (m.shared.loadFile offer.service r).value = LoadFile.reply offer.data.remaining r := by
  obtain ⟨id, -, -, hservice⟩ := hc.service offer hoffer
  exact Shared.value_loadFile_of_service hoffer (by rw [hservice]; simp [Interface.null]) r

end Consistent

/-- **The initrd on offer**: whatever is registered, withdrawn and requested on
firmware that adds or removes all interfaces of a list or none, an initrd is
registered exactly while one handle carries its path and a service of the
loader, namely its own service.  A call that fails changes neither what is
registered nor what handles carry nor what is handed out, and nothing is
registered without bytes.  A proper request to the registered service gets the
registered bytes, or their number if there is no room for them; any other
request is refused and leaves size and buffer alone. -/
theorem offered_after (all : fw.AllOrNothing v) (hvalid : v.Valid m.firmware)
    (hnone : m.shared.initrd = none)
    (hmade : ∀ h p id, (h, p, .loadFile id) ∈ v.held m.firmware → id < m.shared.objects.next)
    (calls : List Call) :
    let now := after fw m calls
    (now.shared.hasInitrd = true ↔
      ∃! h, Offers (v.held now.firmware) m.shared.objects.next h) ∧
    (∀ offer, now.shared.initrd = some offer → ∀ h,
      ((h, .devicePath, .initrdPath) ∈ v.held now.firmware ∧
        (h, .loadFile2, offer.service) ∈ v.held now.firmware) ↔ h = offer.handle) ∧
    (∀ data r m', Attempt.ends (register fw data) now = (r, m') →
      (data.remaining.size = 0 → r = .ok () ∧ m' = now) ∧
      (data.remaining.size ≠ 0 → now.shared.hasInitrd = true →
        r = .error Status.alreadyStarted ∧ m' = now) ∧
      (∀ status, r = .error status → Untouched v now m') ∧
      (data.remaining.size ≠ 0 → r = .ok () →
        ∃ offer, m'.shared.initrd = some offer ∧ offer.data = data)) ∧
    (∀ status m', Loader.ends (deregister fw) now = (status, m') →
      (status.isError = true → Untouched v now m') ∧
      (status.isError = false → m'.shared.initrd = none)) ∧
    ∀ this r reply m', Loader.ends (request this r) now = (reply, m') →
      m' = now ∧
      (∀ offer size, now.shared.initrd = some offer → offer.service = this → r.Proper →
        r.size = some size →
        let data := offer.data.remaining
        (r.buffer = none ∨ size < data.size →
          reply = ⟨Status.bufferTooSmall, some data.size, r.buffer⟩) ∧
        ∀ buffer, r.buffer = some buffer → data.size ≤ size → ∃ out,
          reply = ⟨Status.success, some data.size, some out⟩ ∧ out.size = buffer.size ∧
          ∀ i < buffer.size,
            Bytes.byte out i = if i < data.size then Bytes.byte data i else Bytes.byte buffer i) ∧
      (¬(r.Proper ∧ ∃ offer, now.shared.initrd = some offer ∧ offer.service = this) →
        ∃ status ∈ LoadFile.refusals, reply = r.refused status) := by
  intro now
  have hc := (Consistent.start hvalid hnone hmade).after all calls
  refine ⟨hc.hasInitrd_iff, fun offer hoffer => hc.carries_iff hoffer, ?_, ?_, ?_⟩
  · intro data r m' hends
    refine ⟨fun hdata => ?_, fun hdata hhas => ?_, ?_, fun hdata hok => ?_⟩
    · cases (ends_register_of_empty hdata).symm.trans hends
      exact ⟨rfl, rfl⟩
    · obtain ⟨offer, hoffer⟩ := Option.isSome_iff_exists.mp hhas
      cases (ends_register_of_some hdata hoffer).symm.trans hends
      exact ⟨rfl, rfl⟩
    · rintro status rfl
      rcases (hc.register all data hends).2 with ⟨_, -, huntouched⟩ | ⟨hok, -⟩ | ⟨hok, -⟩
      · exact huntouched
      · cases hok
      · cases hok
    · rcases (hc.register all data hends).2 with ⟨_, herror, -⟩ | ⟨-, hempty, -⟩ | ⟨-, -, -, hnew⟩
      · cases hok.symm.trans herror
      · exact absurd hempty hdata
      · exact hnew
  · intro status m' hends
    rcases (hc.deregister all hends).2 with ⟨herror, huntouched⟩ | ⟨rfl, hgone⟩
    · exact ⟨fun _ => huntouched, fun hok => absurd herror (by simp [hok])⟩
    · exact ⟨fun herror => absurd herror (by decide), fun _ => hgone⟩
  · intro this r reply m' hends
    rw [ends_request] at hends
    cases hends
    refine ⟨rfl, ?_, fun hother => ?_⟩
    · rintro offer size hoffer rfl hr hsize
      have hdata := hc.nonempty offer hoffer
      rw [hc.value_loadFile hoffer]
      refine ⟨LoadFile.reply_of_small hdata hr hsize, fun buffer hbuffer hle => ?_⟩
      exact ⟨_, LoadFile.reply_of_enough hdata hr hsize hbuffer hle, Bytes.size_overwrite _ _ _,
        fun i hi => Bytes.byte_overwrite_zero hi⟩
    · by_cases hservice : ∃ offer, now.shared.initrd = some offer ∧ offer.service = this
      · obtain ⟨offer, hoffer, rfl⟩ := hservice
        rw [hc.value_loadFile hoffer]
        exact LoadFile.reply_of_not_proper _ fun hr => hother ⟨hr, offer, hoffer, rfl⟩
      · exact Shared.value_loadFile_of_ne
          (fun offer hoffer heq => hservice ⟨offer, hoffer, heq⟩) r

/-- A bench on which three bytes have been registered. -/
def supplied : Machine Bench :=
  after (Bench.firmware {}) ⟨Bench.fresh {}, { memory := Memory.filled 0 }⟩
    [.register (Buffer.ofBytes [1, 2, 3].toByteArray)]

/-- There one handle offers the bytes, a second initrd is refused, and a buffer
with room for them gets them. -/
theorem offered_after_supplied :
    let r : LoadFile.Request :=
      { path := some DevicePath.endNode, size := some 4, buffer := some [9, 9, 9, 9].toByteArray }
    (∃! h, Offers (Bench.view.held supplied.firmware) 0 h) ∧
      (∀ data : Buffer, data.remaining.size ≠ 0 →
        (Attempt.ends (register (Bench.firmware {}) data) supplied).1 =
          .error Status.alreadyStarted) ∧
      ∃ out, (supplied.shared.loadFile (.loadFile 0) r).value =
          ⟨Status.success, some 3, some out⟩ ∧
        Bytes.byte out 2 = 3 ∧ Bytes.byte out 3 = 9 := by
  intro r
  have hmade : ∀ h p id, (h, p, .loadFile id) ∈ Bench.view.held (Bench.fresh {}) → id < 0 := by
    rintro h p id ⟨is, hmem, -⟩
    cases hmem
  have hoffer : supplied.shared.initrd =
      some ⟨Buffer.ofBytes [1, 2, 3].toByteArray, ⟨Bench.firstHandle⟩, .loadFile 0⟩ := rfl
  have hall := offered_after (m := ⟨Bench.fresh {}, { memory := Memory.filled 0 }⟩)
    (Bench.allOrNothing_firmware {}) (Bench.valid_fresh {}) rfl hmade
    [.register (Buffer.ofBytes [1, 2, 3].toByteArray)]
  rw [← supplied] at hall
  generalize supplied = now at hall hoffer ⊢
  obtain ⟨hhas, -, hregister, -, hrequest⟩ := hall
  have hregistered : now.shared.hasInitrd = true := by rw [Shared.hasInitrd, hoffer]; rfl
  refine ⟨hhas.mp hregistered, fun data hdata => ?_, ?_⟩
  · exact ((hregister data _ _ rfl).2.1 hdata hregistered).1
  · have hproper : r.Proper := ⟨⟨_, rfl, rfl⟩, rfl, rfl⟩
    obtain ⟨-, hserved, -⟩ := hrequest (.loadFile 0) r _ _ rfl
    obtain ⟨out, hout, -, hbytes⟩ := (hserved _ 4 hoffer rfl hproper rfl).2 _ rfl (by decide)
    exact ⟨out, hout, hbytes 2 (by decide), hbytes 3 (by decide)⟩

end EfiLoader.Initrd
