import EfiLoader.Uefi.Firmware

/-!
# EfiLoader.Proofs.Uefi.FileCalls

The calls that are made on volumes and files, and what is open because of them:

* `FileCall` — a call, what it hands out and what it closes;
* `FileCall.after` — what is open after it;
* `Kept` — calls after which everything is closed but what is open still;
* `Kept.step` — whoever calls only on what is open keeps to this;
* `Stopped` — calls that end where the loader stops with a file open;
* `BootServices.booked` — boot services that keep a list of these calls.

A firmware may hand out the same number again.  `Kept` counts, so it says of
every time that a number is handed out that it is closed once.  Where the
loader stops is in the list of calls too, and no call behind it is made.
-/

namespace EfiLoader.Uefi

/-! ## calls -/

/-- A call for a volume or a file, with what has been answered if it opens one. -/
inductive FileCall where
  | openVolume (status : Status) (volume? : Option FileId)
  | openFile (volume : FileId) (status : Status) (file? : Option FileId)
  | close (id : FileId)
  | info (id : FileId)
  | read (id : FileId)
  /-- No call: here the loader stops, for want of so many bytes. -/
  | stop (bytes : Nat)

/-- What a call that opens something hands out: nothing unless it succeeds. -/
def handedOut (status : Status) (id? : Option FileId) : Option FileId :=
  if status.isError then none else id?

namespace FileCall

/-- The volume or file that is opened. -/
def opens : FileCall → Option FileId
  | openVolume status volume? => handedOut status volume?
  | openFile _ status file? => handedOut status file?
  | _ => none

/-- The volume or file that is closed. -/
def closes : FileCall → Option FileId
  | close id => some id
  | _ => none

/-- The volume or file that is called on. -/
def target : FileCall → Option FileId
  | openVolume _ _ | stop _ => none
  | openFile volume _ _ => some volume
  | close id | info id | read id => some id

/-- What is open after a call, if it was `held` before. -/
def after (held : List FileId) : FileCall → List FileId
  | close id => held.erase id
  | c => c.opens.toList ++ held

/-- The call is made, and on something that is open, or on nothing. -/
def On (held : List FileId) : FileCall → Prop
  | stop _ => False
  | c => ∀ id, c.target = some id → id ∈ held

theorem mem_of_on {held : List FileId} {c : FileCall} {id : FileId} (hc : c.On held)
    (h : c.target = some id) : id ∈ held := by
  cases c with
  | stop bytes => exact hc.elim
  | _ => exact hc id h

theorem on_of_target {held : List FileId} {c : FileCall} {id : FileId} (h : c.target = some id)
    (hid : id ∈ held) : c.On held := by
  cases c with
  | stop bytes => cases h
  | _ =>
    intro other hother
    cases h.symm.trans hother
    exact hid

end FileCall

/-! ## lists of calls -/

/-- How often `id` has been handed out. -/
def openings (id : FileId) (calls : List FileCall) : Nat := calls.countP (·.opens = some id)

/-- How often it has been closed. -/
def closings (id : FileId) (calls : List FileCall) : Nat := calls.countP (·.closes = some id)

variable {calls rest : List FileCall} {held : List FileId} {c : FileCall} {id : FileId}

/-- The loader has not stopped, whatever has been handed out has been closed
once, but for what is `held` still, and every call was on something that was
open at the time. -/
structure Kept (calls : List FileCall) (held : List FileId) : Prop where
  going : ∀ bytes, FileCall.stop bytes ∉ calls
  balance : ∀ id, openings id calls = closings id calls + held.count id
  live : ∀ before c rest, calls = before ++ c :: rest → ∀ id, c.target = some id →
    closings id before < openings id before

namespace Kept

theorem nil : Kept [] [] where
  going _ := List.not_mem_nil
  balance _ := rfl
  live _ _ _ h := absurd h.symm (List.append_ne_nil_of_right_ne_nil _ (List.cons_ne_nil _ _))

/-- What is open has been handed out more often than it has been closed. -/
theorem closings_lt (h : Kept calls held) (hid : id ∈ held) :
    closings id calls < openings id calls := by
  have hcount := List.count_pos_iff.mpr hid
  have hbalance := h.balance id
  omega

/-- A call is counted as what it does to what is open. -/
theorem count_after (hc : c.On held) (id : FileId) :
    (if c.opens = some id then 1 else 0) + held.count id =
      (if c.closes = some id then 1 else 0) + (c.after held).count id := by
  have hopen : ∀ opened : Option FileId, (if opened = some id then 1 else 0) + held.count id =
      0 + (opened.toList ++ held).count id := by
    intro opened
    rw [List.count_append, Nat.zero_add]
    cases opened with
    | none => rfl
    | some other => by_cases hsame : other = id <;> simp [hsame]
  cases c with
  | close other =>
    have hheld : 0 < held.count other := List.count_pos_iff.mpr (FileCall.mem_of_on hc rfl)
    simp only [FileCall.opens, FileCall.closes, FileCall.after, List.count_erase, reduceCtorEq,
      if_false, Option.some.injEq]
    by_cases hsame : other = id
    · subst hsame
      simp only [if_true, beq_self_eq_true]
      omega
    · have hother : (other == id) = false := beq_eq_false_iff_ne.mpr hsame
      simp only [hsame, if_false, hother, Bool.false_eq_true]
      omega
  | openVolume status volume? => exact hopen _
  | openFile volume status file? => exact hopen _
  | info other => exact hopen none
  | read other => exact hopen none
  | stop bytes => exact hopen none

/-- One more call on what is open. -/
theorem step (h : Kept calls held) (hc : c.On held) : Kept (calls ++ [c]) (c.after held) where
  going bytes hstop := by
    obtain hbefore | hlast := List.mem_append.mp hstop
    · exact h.going bytes hbefore
    · cases List.mem_singleton.mp hlast
      exact hc
  balance id := by
    have hbefore := h.balance id
    have hcall := count_after hc id
    simp only [openings, closings, List.countP_append, List.countP_singleton,
      decide_eq_true_eq] at hbefore ⊢
    omega
  live before c' rest heq id htarget := by
    obtain rfl | ⟨rest', last, rfl⟩ := List.eq_nil_or_concat rest
    · obtain ⟨rfl, hlast⟩ := List.append_inj' heq rfl
      cases hlast
      exact h.closings_lt (FileCall.mem_of_on hc htarget)
    · rw [List.concat_eq_append, ← List.cons_append, ← List.append_assoc] at heq
      exact h.live before c' rest' (List.append_inj' heq rfl).1 id htarget

/-- What is handed out once, and is not open any more, has been closed once,
and nobody has called on it since. -/
theorem once (h : Kept calls held) (hopened : openings id calls = 1) (hid : id ∉ held) :
    closings id calls = 1 ∧ ∀ before rest, calls = before ++ FileCall.close id :: rest →
      ∀ c ∈ rest, c.target ≠ some id := by
  have hnone : held.count id = 0 := List.count_eq_zero.mpr hid
  have hbalance := h.balance id
  refine ⟨by omega, ?_⟩
  intro before rest heq c hc htarget
  obtain ⟨between, later, rfl⟩ := List.append_of_mem hc
  have hclosed : 0 < closings id (before ++ FileCall.close id :: between) :=
    List.countP_pos_iff.mpr ⟨FileCall.close id, by simp, by simp [FileCall.closes]⟩
  have hlive := h.live (before ++ FileCall.close id :: between) c later
    (by rw [heq, List.append_assoc, List.cons_append]) id htarget
  have hmost : openings id (before ++ FileCall.close id :: between) ≤ openings id calls := by
    rw [heq]
    refine List.Sublist.countP_le ?_
    simp
  omega

end Kept

/-- The loader has stopped: it could not have the bytes that are known of a
file.  By then everything else has been closed, and the file has not. -/
inductive Stopped [Allocator] : List FileCall → Prop
  | intro {before : List FileCall} {file : FileId} {bytes : Nat} (later : List FileCall) :
    Kept before [file] → Allocator.grants bytes = false →
    Stopped (before ++ FileCall.stop bytes :: later)

/-- Whatever comes behind it. -/
theorem Stopped.append [Allocator] (h : Stopped calls) : Stopped (calls ++ rest) := by
  obtain ⟨later, hbefore, hrefused⟩ := h
  rw [List.append_assoc, List.cons_append]
  exact .intro _ hbefore hrefused

/-! ## a list of calls -/

/-- A state of boot services, and the calls for volumes and files that have
been made, the oldest first. -/
structure Booked (β : Type) where
  state : β
  calls : List FileCall := []

namespace Booked

variable {β α : Type}

/-- A call that is not written down. -/
def pass (m : StateM β α) : StateM (Booked β) α := fun w =>
  ((m w.state).1, { w with state := (m w.state).2 })

/-- Neither is one with log lines. -/
def passNoted (m : StateT β Logged α) : StateT (Booked β) Logged α := fun w =>
  ⟨(m w.state).lines, (m w.state).value.1, { w with state := (m w.state).value.2 }⟩

/-- A call is written down when it has been answered. -/
def book (c : α → FileCall) (m : StateM β α) : StateM (Booked β) α := fun w =>
  ((m w.state).1, ⟨(m w.state).2, w.calls ++ [c (m w.state).1]⟩)

end Booked

open Booked in
/-- Boot services with a list of the calls for volumes and files. -/
def BootServices.booked {β : Type} (s : BootServices β) : BootServices (Booked β) where
  allocatePages memoryType pages := pass (s.allocatePages memoryType pages)
  freePages address pages := pass (s.freePages address pages)
  installProtocol h p i := pass (s.installProtocol h p i)
  uninstallProtocol h p i := pass (s.uninstallProtocol h p i)
  openProtocol h p agent attributes := pass (s.openProtocol h p agent attributes)
  closeProtocol h p agent := pass (s.closeProtocol h p agent)
  handleProtocol h p := pass (s.handleProtocol h p)
  locateDevicePath p path shared := pass (s.locateDevicePath p path shared)
  loadImage parent data id := pass (s.loadImage parent data id)
  startImage h shared := passNoted (s.startImage h shared)
  unloadImage h := pass (s.unloadImage h)
  enter h entryPoint shared := passNoted (s.enter h entryPoint shared)
  openVolume fileSystem := book (fun a => .openVolume a.1 a.2) (s.openVolume fileSystem)
  openFile volume path mode attributes :=
    book (fun a => .openFile volume a.1 a.2) (s.openFile volume path mode attributes)
  closeFile id := book (fun _ => .close id) (s.closeFile id)
  fileInfo id size buffer := book (fun _ => .info id) (s.fileInfo id size buffer)
  readFile id size := book (fun _ => .read id) (s.readFile id size)
  stop bytes := book (fun _ => .stop bytes) (s.stop bytes)

end EfiLoader.Uefi
