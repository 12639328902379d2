import EfiLoader.Proofs.Loader.LoadOptions
import EfiLoader.Proofs.Recorded
import EfiLoader.Proofs.Uefi.FileCalls

/-!
# EfiLoader.Proofs.Uefi.FilesClosed

The loader closes the volumes and files that it opens, unless it stops.  It
calls only on what is open, so that whatever such calls keep (`Tracks`) holds of
a run, with what is open on every way out:

* `lockstep_openPath` — opening a file leaves the file open or nothing;
* `alike_read`, `closed_closeFile` — reading leaves it open, closing does not;
* `ensures_withFile` — so nothing is open once a file has been used;
* `ensures_holding_run` — nor after a boot attempt;
* `files_closed` — which is all of it, of the calls as they are `Kept`.

The loader stops (`Stopped`) where it cannot have room for what is known of a
file.  How much that is, is for the firmware to say, and it can say more than
anybody has: `openPath_oversized` is such a file, which is never closed.
-/

namespace EfiLoader.Uefi

open Log

variable {β α γ : Type} {s : BootServices β}

/-! ## what calls keep -/

/-- `L`, of calls and what is open after them, is kept by calls on what is open,
and `D` holds once the loader has stopped for want of room, with a file open. -/
structure Tracks [Allocator] (L : List FileCall → List FileId → Prop)
    (D : List FileCall → Prop) : Prop where
  call : ∀ calls held c, FileCall.On held c → L calls held → L (calls ++ [c]) (c.after held)
  stop : ∀ calls file bytes, Allocator.grants bytes = false → L calls [file] →
    D (calls ++ [.stop bytes])
  stopped : ∀ calls c, D calls → D (calls ++ [c])

theorem tracks_kept [Allocator] : Tracks Kept Stopped where
  call _ _ _ hc h := h.step hc
  stop _ _ _ hrefused h := .intro [] h hrefused
  stopped _ _ h := h.append

/-- A run that goes on after a part of it may have come to the stop. -/
theorem tracks_kept_or_stopped [Allocator] :
    Tracks (fun calls held => Kept calls held ∨ Stopped calls) Stopped where
  call _ _ _ hc h := h.imp (·.step hc) (·.append)
  stop _ _ _ hrefused h := h.elim (fun hkept => .intro [] hkept hrefused) (·.append)
  stopped _ _ h := h.append

theorem tracks_true [Allocator] : Tracks (fun _ _ => True) fun _ => True where
  call _ _ _ _ _ := trivial
  stop _ _ _ _ _ := trivial
  stopped _ _ _ := trivial

namespace Booked

/-- The boot services are in the state `b`, and `L` holds of the list. -/
def Of (L : List FileCall → Prop) (w : Booked β) (b : β) : Prop := w.state = b ∧ L w.calls

variable {L : List FileCall → Prop}

theorem alike_pass (m : StateM β α) : Alike (Of L) (fun _ => True) (pass m) m := by
  rintro w _ ⟨rfl, hL⟩
  exact ⟨rfl, trivial, rfl, hL⟩

theorem lockstep_passNoted (m : StateT β Logged α) :
    Lockstep (Of L) (passNoted m) m fun _ => Of L := by
  rintro w _ ⟨rfl, hL⟩
  exact ⟨rfl, rfl, rfl, hL⟩

end Booked

open Booked

variable {L : List FileCall → List FileId → Prop} {D : List FileCall → Prop}
  {held : List FileId} {c : α → FileCall} {Q : Except Status γ → Booked β → β → Prop}

/-- What is written down is one call more. -/
theorem lockstep_booked_bind {K : List FileCall → Prop} {J : α → List FileCall → Prop}
    (hK : ∀ a calls, K calls → J a (calls ++ [c a])) (m : StateM β α)
    {f : α → Call (Booked β) γ} {f' : α → Call β γ}
    (hf : ∀ a, Lockstep (Of (J a)) (f a).run (f' a).run Q) :
    Lockstep (Of K) (service (book c m) >>= f).run (service m >>= f').run Q := by
  have hcall : Lockstep (Of K) (service (book c m)).run (service m).run
      fun r w b => ∃ a, r = .ok a ∧ Of (J a) w b := by
    rintro w _ ⟨rfl, hw⟩
    exact ⟨rfl, rfl, _, rfl, rfl, hK _ _ hw⟩
  refine Lockstep.bind hcall fun r => ?_
  rintro w b ⟨a, rfl, hw⟩
  exact hf a w b hw

/-- A call that is written down is made on what is open. -/
theorem lockstep_book_bind [Allocator] (hL : Tracks L D) (hc : ∀ a, (c a).On held)
    (m : StateM β α) {f : α → Call (Booked β) γ} {f' : α → Call β γ}
    (hf : ∀ a, Lockstep (Of (L · ((c a).after held))) (f a).run (f' a).run Q) :
    Lockstep (Of (L · held)) (service (book c m) >>= f).run (service m >>= f').run Q :=
  lockstep_booked_bind (J := fun a => (L · ((c a).after held)))
    (fun a calls => hL.call calls held (c a) (hc a)) m hf

/-- The loader stops with a file open. -/
theorem lockstep_stop_bind [Allocator] (hL : Tracks L D) {file : FileId} {bytes : Nat}
    (hrefused : Allocator.grants bytes = false) {f : Unit → Call (Booked β) γ}
    {f' : Unit → Call β γ} (hf : Lockstep (Of D) (f ()).run (f' ()).run Q) :
    Lockstep (Of (L · [file])) (service (s.booked.stop bytes) >>= f).run
      (service (s.stop bytes) >>= f').run Q :=
  lockstep_booked_bind (J := fun _ => D)
    (fun _ calls => hL.stop calls file bytes hrefused) (s.stop bytes) fun _ => hf

section Calls

variable {P : Booked β → β → Prop}

/-- A call that is not written down. -/
theorem lockstep_service_bind {A : α → Prop} {m : StateM (Booked β) α} {m' : StateM β α}
    {f : α → Call (Booked β) γ} {f' : α → Call β γ} (hm : Alike P A m m')
    (hf : ∀ a, Lockstep P (f a).run (f' a).run Q) :
    Lockstep P (service m >>= f).run (service m' >>= f').run Q := by
  have hcall : Lockstep P (service m).run (service m').run
      fun r w b => (∃ a, r = .ok a) ∧ P w b := by
    intro w b hw
    obtain ⟨hanswer, -, hleft⟩ := hm w b hw
    exact ⟨rfl, congrArg Except.ok hanswer, ⟨_, rfl⟩, hleft⟩
  refine Lockstep.bind hcall fun r => Lockstep.of_and fun hr => ?_
  obtain ⟨a, rfl⟩ := hr
  exact hf a

/-- The second call is made if the first one answers. -/
theorem lockstep_call_bind {M : Except Status α → Booked β → β → Prop} {m : Call (Booked β) α}
    {m' : Call β α} {f : α → Call (Booked β) γ} {f' : α → Call β γ}
    (hm : Lockstep P m.run m'.run M)
    (hok : ∀ a, Lockstep (M (.ok a)) (f a).run (f' a).run Q)
    (herror : ∀ e w b, M (.error e) w b → Q (.error e) w b) :
    Lockstep P (m >>= f).run (m' >>= f').run Q := by
  refine Lockstep.bind hm fun r => ?_
  cases r with
  | ok a => exact hok a
  | error e => exact Lockstep.pure fun w b hw => herror e w b hw

theorem lockstep_return {a : γ} (h : ∀ w b, P w b → Q (.ok a) w b) :
    Lockstep P (pure a : Call (Booked β) γ).run (pure a : Call β γ).run Q := Lockstep.pure h

theorem lockstep_throw {status : Status} (h : ∀ w b, P w b → Q (.error status) w b) :
    Lockstep P (throw status : Call (Booked β) γ).run (throw status : Call β γ).run Q :=
  Lockstep.pure h

theorem lockstep_note_bind {e : Entry} {m : Call (Booked β) γ} {m' : Call β γ}
    (h : Lockstep P m.run m'.run Q) :
    Lockstep P ((liftM (note e) : Call (Booked β) Unit) >>= fun _ => m).run
      ((liftM (note e) : Call β Unit) >>= fun _ => m').run Q := by
  refine Lockstep.bind (M := fun r w b => r = .ok () ∧ P w b)
    (fun _ _ hw => ⟨rfl, rfl, rfl, hw⟩) fun r => Lockstep.of_and fun hr => ?_
  subst hr
  exact h

end Calls

/-! ## opening -/

namespace File

/-- What is open after a file or volume has been opened, or has not. -/
def opened : Except Status FileId → List FileId
  | .ok id => [id]
  | .error _ => []

/-- What holds of the calls after a file has been opened, or has not, or the
loader has stopped. -/
def Ended (L : List FileCall → List FileId → Prop) (D : List FileCall → Prop) :
    Except Status FileId → List FileCall → Prop
  | .ok id, calls => L calls [id]
  | .error _, calls => L calls [] ∨ D calls

theorem ended_of_opened {r : Except Status FileId} {w : Booked β} {b : β}
    (hw : Of (L · (opened r)) w b) : Of (Ended L D r) w b := by
  cases r with
  | ok id => exact hw
  | error status => exact ⟨hw.1, .inl hw.2⟩

/-- What is handed out is open, in front of what was. -/
theorem after_openVolume (status : Status) (volume? : Option FileId) :
    (FileCall.openVolume status volume?).after [] = (handedOut status volume?).toList :=
  List.append_nil _

/-- A volume is closed once a file of it has been opened. -/
theorem after_close_openFile (volume : FileId) (status : Status) (file? : Option FileId) :
    (FileCall.close volume).after ((FileCall.openFile volume status file?).after [volume]) =
      (handedOut status file?).toList := by
  show ((handedOut status file?).toList ++ [volume]).erase volume = (handedOut status file?).toList
  cases handedOut status file? with
  | none => simp
  | some file => by_cases hsame : file = volume <;> simp [hsame]

/-- How the call ends that has opened something, or has not. -/
def handOver (status otherwise : Status) (e : Entry) : Option FileId → Call β FileId
  | some id => do
    if status.isError then
      note e
      throw status
    return id
  | none => do
    note e
    throw otherwise

theorem lockstep_handOver (status otherwise : Status) (e : Entry) (id? : Option FileId) :
    Lockstep (Of (L · (handedOut status id?).toList))
      (handOver status otherwise e id? : Call (Booked β) FileId).run
      (handOver status otherwise e id? : Call β FileId).run fun r => Of (L · (opened r)) := by
  unfold handOver handedOut
  cases id? with
  | none =>
    rw [ite_self]
    exact lockstep_note_bind (lockstep_throw fun _ _ hw => hw)
  | some id =>
    dsimp only
    split
    · exact lockstep_note_bind (lockstep_throw fun _ _ hw => hw)
    · exact lockstep_return fun _ _ hw => hw

variable [Allocator] (hL : Tracks L D)

include hL

theorem lockstep_openVolume (fileSystem : Interface) :
    Lockstep (Of (L · [])) (openVolume s.booked fileSystem).run (openVolume s fileSystem).run
      fun r => Of (L · (opened r)) := by
  unfold openVolume
  refine lockstep_book_bind hL ?_ _ fun answer => ?_
  · rintro answer id ⟨⟩
  rw [after_openVolume]
  exact lockstep_handOver _ _ _ _

theorem lockstep_openOn (volume : FileId) (path : String) (units : List UInt16) :
    Lockstep (Of (L · [volume])) (openOn s.booked volume path units).run
      (openOn s volume path units).run fun r => Of (L · (opened r)) := by
  unfold openOn
  have hvolume : volume ∈ [volume] := List.mem_singleton_self volume
  refine lockstep_book_bind hL (fun _ => FileCall.on_of_target rfl hvolume) _ fun answer => ?_
  have hstill : volume ∈ (FileCall.openFile volume answer.1 answer.2).after [volume] :=
    List.mem_append_right _ hvolume
  refine lockstep_book_bind hL (fun _ => FileCall.on_of_target rfl hstill) _ fun _ => ?_
  rw [after_close_openFile]
  exact lockstep_handOver _ _ _ _

/-- Asking for the size of a file leaves it open, but may be what the loader
stops at. -/
theorem lockstep_size (file : FileId) :
    Lockstep (Of (L · [file])) (size s.booked file).run (size s file).run
      fun r => Of fun calls => L calls [file] ∨ (∃ status, r = .error status) ∧ D calls := by
  have hleft : ∀ r : Except Status Nat, ∀ w (b : β), Of (L · [file]) w b →
      Of (fun calls => L calls [file] ∨ (∃ status, r = .error status) ∧ D calls) w b :=
    fun _ _ _ hw => ⟨hw.1, .inl hw.2⟩
  have hon : FileCall.On [file] (.info file) :=
    FileCall.on_of_target rfl (List.mem_singleton_self file)
  unfold size
  refine lockstep_book_bind hL (fun _ => hon) _ fun answer => ?_
  obtain ⟨status, needed, _⟩ := answer
  dsimp only
  split
  · exact lockstep_note_bind (lockstep_throw (hleft _))
  split
  · exact lockstep_throw (hleft _)
  split
  · next hrefused =>
    rw [Bool.not_eq_true'] at hrefused
    refine lockstep_stop_bind hL hrefused (lockstep_throw fun _ _ hw => ?_)
    exact ⟨hw.1, .inr ⟨⟨_, rfl⟩, hw.2⟩⟩
  refine lockstep_book_bind hL (fun _ => hon) _ fun answer => ?_
  obtain ⟨status, _, info⟩ := answer
  dsimp only
  split
  · exact lockstep_note_bind (lockstep_throw (hleft _))
  · exact lockstep_return (hleft _)

/-- Closing a file leaves nothing open. -/
theorem closed_closeFile (file : FileId) {w : Booked β} {b : β} (hw : Of (L · [file]) w b) :
    Of (L · []) (s.booked.closeFile file w).2 (s.closeFile file b).2 := by
  obtain ⟨rfl, hw⟩ := hw
  have hon : FileCall.On [file] (.close file) :=
    FileCall.on_of_target rfl (List.mem_singleton_self file)
  have hclosed : (FileCall.close file).after [file] = [] := List.erase_cons_head _ _
  have hstep := hL.call w.calls [file] (.close file) hon hw
  rw [hclosed] at hstep
  exact ⟨rfl, hstep⟩

theorem lockstep_sizeOrClose (file : FileId) :
    Lockstep (Of (L · [file])) (sizeOrClose s.booked file).run (sizeOrClose s file).run
      fun r => Of (Ended L D (r.map fun _ => file)) := by
  unfold sizeOrClose
  refine Lockstep.bind (lockstep_size hL file) fun r => ?_
  cases r with
  | ok size =>
    refine Lockstep.pure fun w b hw => ⟨hw.1, hw.2.resolve_right ?_⟩
    rintro ⟨⟨status, hstatus⟩, -⟩
    cases hstatus
  | error status =>
    refine Lockstep.bind (M := fun _ => Of fun calls => L calls [] ∨ D calls) ?_
      fun _ => Lockstep.pure fun _ _ hw => hw
    rintro w _ ⟨rfl, hopen | ⟨-, hstopped⟩⟩
    · exact ⟨rfl, rfl, rfl, .inl (closed_closeFile (s := s) hL file ⟨rfl, hopen⟩).2⟩
    · exact ⟨rfl, rfl, rfl, .inr (hL.stopped w.calls (.close file) hstopped)⟩

/-- Opening a file leaves the file open, or nothing, unless the loader stops. -/
theorem lockstep_openPath (fileSystem : Interface) (path : String) :
    Lockstep (Of (L · [])) (openPath s.booked fileSystem path).run
      (openPath s fileSystem path).run fun r => Of (Ended L D (r.map Prod.fst)) := by
  unfold openPath
  cases FilePath.encode? path with
  | none => exact lockstep_throw fun _ _ hw => ⟨hw.1, .inl hw.2⟩
  | some units =>
    refine lockstep_call_bind (lockstep_openVolume hL fileSystem) (fun volume => ?_)
      fun _ _ _ => ended_of_opened
    refine lockstep_call_bind (lockstep_openOn hL volume path units) (fun file => ?_)
      fun _ _ _ => ended_of_opened
    refine lockstep_call_bind (lockstep_sizeOrClose hL file) (fun size => ?_) fun _ _ _ hw => hw
    exact lockstep_note_bind (lockstep_return fun _ _ hw => hw)

/-! ## reading -/

omit [Allocator] hL in
theorem read_eq (file : FileId) (asked : Nat) (b : β) :
    read s file asked b =
      if (s.readFile file asked b).1.1.isError then
        (.error { status := (s.readFile file asked b).1.1
                  report := [failure s!"File read failed: {(s.readFile file asked b).1.1.text}"] },
          (s.readFile file asked b).2)
      else
        (.ok ⟨(s.readFile file asked b).1.2.2, min (s.readFile file asked b).1.2.1 asked⟩,
          (s.readFile file asked b).2) := rfl

omit [Allocator] hL in
/-- A read reports no more bytes than it was asked for. -/
theorem count_le_of_read {file : FileId} {asked : Nat} {b : β} {r : ReadResult}
    (h : (read s file asked b).1 = .ok r) : r.count ≤ asked := by
  rw [read_eq] at h
  split at h
  · cases h
  · cases h
    exact Nat.min_le_right _ _

omit [Allocator] hL in
theorem read_booked (file : FileId) (asked : Nat) (w : Booked β) :
    read s.booked file asked w =
      ((read s file asked w.state).1,
        ⟨(read s file asked w.state).2, w.calls ++ [.read file]⟩) := by
  have hcall : s.booked.readFile file asked w =
      ((s.readFile file asked w.state).1,
        ⟨(s.readFile file asked w.state).2, w.calls ++ [.read file]⟩) := rfl
  rw [read_eq, read_eq, hcall]
  dsimp only
  split
  · rfl
  · rfl

/-- A read leaves its file open. -/
theorem alike_read (file : FileId) (asked : Nat) :
    Alike (Of (L · [file])) (fun r => ∀ x, r = .ok x → x.count ≤ asked)
      (read s.booked file asked) (read s file asked) := by
  rintro w _ ⟨rfl, hw⟩
  have hon : FileCall.On [file] (.read file) :=
    FileCall.on_of_target rfl (List.mem_singleton_self file)
  rw [read_booked]
  exact ⟨rfl, fun _ => count_le_of_read, rfl, hL.call w.calls [file] (.read file) hon hw⟩

/-- So does reading it as a source. -/
theorem keeps_source (file : FileId) (size : Nat) :
    (source s.booked file size).Keeps (Of (L · [file])) (fun _ => True) (source s file size) where
  size_eq := rfl
  read n := (alike_read hL file n).mono fun _ _ _ _ => trivial

omit [Allocator] hL in
/-- Read a file as often as there are numbers, each time at most so many bytes. -/
def reads (s : BootServices β) (file : FileId) : List Nat → StateM β (List ReadCall)
  | [] => return []
  | asked :: rest => do
    let answer ← (read s file asked : StateM β _)
    let later ← reads s file rest
    return ⟨asked, answer⟩ :: later

/-- As many reads as there are leave it open. -/
theorem alike_reads (file : FileId) (asks : List Nat) :
    Alike (Of (L · [file]))
      (fun answers => ∀ c ∈ answers, ∀ r, c.answer = .ok r → r.count ≤ c.asked)
      (reads s.booked file asks) (reads s file asks) := by
  induction asks with
  | nil => exact Alike.pure fun c hc => nomatch hc
  | cons asked rest ih =>
    refine Alike.bind (alike_read hL file asked) fun answer hanswer => ?_
    refine Alike.bind ih fun later hlater => Alike.pure fun c hc => ?_
    cases hc with
    | head => exact hanswer
    | tail _ hc => exact hlater c hc

end File

/-! ## the firmware -/

section Firmware

variable {K : List FileCall → Prop} {self : Handle} {record : ImageRecord} {image : ByteArray}

namespace BootServices

theorem alike_removeEach (h : Handle) (is : Interfaces) :
    Alike (Of K) (fun _ => True) (s.booked.removeEach h is) (s.removeEach h is) := by
  induction is with
  | nil => exact Alike.pure trivial
  | cons i rest ih => exact Alike.bind (alike_pass _) fun _ _ => ih

theorem alike_addEach (h : Handle) (is : Interfaces) :
    Alike (Of K) (fun _ => True) (s.booked.addEach h is) (s.addEach h is) := by
  induction is generalizing h with
  | nil => exact Alike.pure trivial
  | cons i rest ih => exact Alike.bind (alike_pass _) fun answer _ => ih answer.2

theorem alike_installFrom_booked (done is : Interfaces) (h : Handle) :
    Alike (Of K) (OnlyFails fun _ => True) (s.booked.installFrom done h is)
      (s.installFrom done h is) := by
  induction is generalizing done h with
  | nil => exact Alike.pure fun _ _ => trivial
  | cons i rest ih =>
    unfold installFrom
    refine Alike.bind (alike_pass _) fun answer _ => ?_
    dsimp only
    split
    · exact Alike.bind (alike_removeEach _ _) fun _ _ => Alike.pure fun _ _ => trivial
    · exact ih _ _

theorem alike_uninstallFrom (done is : Interfaces) (h : Handle) :
    Alike (Of K) (fun _ => True) (s.booked.uninstallFrom done h is)
      (s.uninstallFrom done h is) := by
  induction is generalizing done with
  | nil => exact Alike.pure trivial
  | cons i rest ih =>
    unfold uninstallFrom
    refine Alike.bind (alike_pass _) fun status _ => ?_
    split
    · exact Alike.bind (alike_addEach _ _) fun _ _ => Alike.pure trivial
    · exact ih _

theorem alike_interface_booked (h : Handle) (p : Protocol) :
    Alike (Of K) (OnlyFails fun _ => True) (s.booked.interface h p) (s.interface h p) := by
  unfold interface
  refine Alike.bind (alike_pass _) fun answer _ => ?_
  cases written answer with
  | error status => exact Alike.pure fun _ _ => trivial
  | ok interface => exact Alike.pure fun _ _ => trivial

end BootServices

/-- What is no call for a file is not written down. -/
theorem keeps_booked [Allocator] :
    (firmware s.booked self record image).Keeps (Of K) (fun _ => True)
      (firmware s self record image) := by
  have hwritten {α : Type} (m : StateM β (Status × α)) :
      Alike (Of K) (OnlyFails fun _ => True) (BootServices.written <$> pass m)
        (BootServices.written <$> m) := by
    rintro w _ ⟨rfl, hw⟩
    exact ⟨rfl, fun _ _ => trivial, rfl, hw⟩
  exact
    { allocatePages := fun _ _ => hwritten _
      freePages := fun _ _ => alike_pass _
      install := fun h is => BootServices.alike_installFrom_booked [] is h
      uninstall := fun h is => BootServices.alike_uninstallFrom [] is h
      openExclusive := fun _ _ => hwritten _
      close := fun _ _ => alike_pass _
      interface := BootServices.alike_interface_booked
      locate := fun _ _ _ => hwritten _
      loadImage := fun _ _ => Alike.bind (alike_pass _) fun _ _ => Alike.pure fun _ _ => trivial
      unloadImage := fun _ => alike_pass _
      imageHandle := rfl
      systemTable := rfl
      deviceHandle := rfl
      ownImage := rfl }

theorem starts_booked [Allocator] :
    (firmware s.booked self record image).Starts (Of K) (fun _ => Of K)
      (firmware s self record image) where
  transfer _ _ _ := lockstep_passNoted _
  startImage _ _ := lockstep_passNoted _

/-! ## files of a device -/

namespace BootServices

/-- The file of a device with a path, and its size. -/
def findOnDevice [Allocator] (s : BootServices β) (device : Handle) (path : String) :
    Call β (FileId × Nat) := do
  match ← service (s.interface device .simpleFileSystem) with
  | .error status =>
    note (Component.bootServices.error s!"Boot device has no file system: {status.text}")
    throw status
  | .ok fileSystem => File.openPath s fileSystem path

/-- What the loader gets of an open file. -/
def openFileOf (s : BootServices β) (found : FileId × Nat) : OpenFile β :=
  ⟨File.source s found.1 found.2, s.closeFile found.1⟩

theorem openOnDevice_eq [Allocator] (s : BootServices β) (device : Handle) (path : String) :
    s.openOnDevice device path = s.openFileOf <$> s.findOnDevice device path := by
  unfold openOnDevice findOnDevice
  rw [map_bind]
  congr 1
  funext answer
  cases answer with
  | error status =>
    rw [map_bind]
    rfl
  | ok fileSystem => exact (map_eq_pure_bind _ _).symm

end BootServices

/-- Opening a file is finding it. -/
theorem openFile_eq [Allocator] (path : String) (b : β) :
    (firmware s self record image).openFile path b =
      ⟨((s.findOnDevice record.device path).run b).lines,
        ((s.findOnDevice record.device path).run b).value.1.map s.openFileOf,
        ((s.findOnDevice record.device path).run b).value.2⟩ := by
  show (s.openOnDevice record.device path).run b = _
  rw [BootServices.openOnDevice_eq, ExceptT.run_map]
  exact Logged.ext (List.append_nil _) rfl

/-- A file of a device is left open, or nothing, unless the loader stops. -/
theorem lockstep_findOnDevice [Allocator] (hL : Tracks L D) (device : Handle) (path : String) :
    Lockstep (Of (L · [])) (s.booked.findOnDevice device path).run
      (s.findOnDevice device path).run fun r => Of (File.Ended L D (r.map Prod.fst)) := by
  unfold BootServices.findOnDevice
  refine lockstep_service_bind (BootServices.alike_interface_booked device .simpleFileSystem)
    fun answer => ?_
  cases answer with
  | error status => exact lockstep_note_bind (lockstep_throw fun _ _ hw => ⟨hw.1, .inl hw.2⟩)
  | ok fileSystem => exact File.lockstep_openPath hL fileSystem path

/-- Files are opened and read as without the list. -/
theorem opens_booked [Allocator] :
    (firmware s.booked self record image).Opens (Of fun _ => True) (fun _ => True)
      (firmware s self record image) := by
  intro path w b hw
  obtain ⟨hlines, hanswer, hleft⟩ :=
    lockstep_findOnDevice tracks_true record.device path w b hw
  rw [openFile_eq, openFile_eq]
  refine ⟨hlines, ?_, hleft.1, trivial⟩
  dsimp only
  rw [← hanswer]
  cases ((s.booked.findOnDevice record.device path).run w).value.1 with
  | error status => exact .error status trivial
  | ok found =>
    exact .ok _ _ (File.keeps_source tracks_true found.1 found.2) fun w b hw =>
      ⟨rfl, trivial, File.closed_closeFile tracks_true found.1 hw⟩

/-! ## boot attempts -/

/-- The machine with an empty list. -/
def Booked.ofMachine (m : Machine β) : Machine (Booked β) := ⟨⟨m.firmware, []⟩, m.shared⟩

/-- The machine without its list. -/
def Booked.toMachine (w : Machine (Booked β)) : Machine β := ⟨w.firmware.state, w.shared⟩

/-- `L` holds of the list and of what is open. -/
def Holding (L : List FileCall → List FileId → Prop) (held : List FileId)
    (w : Machine (Booked β)) : Prop :=
  L w.firmware.calls held

/-- What is done in lockstep makes no call that is written down. -/
theorem ensures_holding_of_lockstep {m : Loader (Booked β) α} {m' : Loader β α}
    (h : Lockstep (Machine.InStep (Of (L · held))) m m' fun _ => Machine.InStep (Of (L · held))) :
    Loader.Ensures (Holding L held) m fun _ => Holding L held := by
  intro w hw
  obtain ⟨-, -, hleft⟩ := h w (Booked.toMachine w) ⟨⟨rfl, hw⟩, rfl, trivial⟩
  exact hleft.firmware.2

theorem ensures_holding_of_maintains {m : Attempt (Booked β) α} {m' : Attempt β α}
    (h : Maintains (Machine.InStep (Of (L · held))) (fun _ => True) m m') :
    Attempt.Ensures (Holding L held) m (fun _ => Holding L held) (Holding L held) := by
  intro w hw
  have hleft := ensures_holding_of_lockstep
    (h.mono (fun _ _ hst => hst) fun _ _ _ hst => hst.2) w hw
  split
  · exact hleft
  · exact hleft

/-- Bytes in memory are unpacked without a call. -/
theorem ensures_unpackBytes {P : Machine (Booked β) → Prop} (bytes : ByteArray)
    (m : Payload.Unpack Supply α) :
    Attempt.Ensures P (Boot.unpackBytes bytes m : Attempt (Booked β) α) (fun _ => P) P :=
  Attempt.Ensures.bind (R := fun _ => P) (Attempt.Ensures.logged fun _ hw => hw) fun _ =>
    Attempt.Ensures.settle (fun _ _ _ hw => hw) fun _ hw => hw

section Boot

variable [Allocator] (hL : Tracks L D) (hstopped : ∀ calls, D calls → L calls [])

include hL hstopped

/-- A file that is opened to be used is open while it is used and closed afterwards. -/
theorem ensures_withFile (path : String) {use : Source (Booked β) → Attempt (Booked β) α}
    (huse : ∀ file size, Attempt.Ensures (Holding L [file]) (use (File.source s.booked file size))
      (fun _ => Holding L [file]) (Holding L [file])) :
    Attempt.Ensures (Holding L []) (Boot.withFile (firmware s.booked self record image) path use)
      (fun _ => Holding L []) (Holding L []) := by
  unfold Boot.withFile
  refine Attempt.Ensures.bind
    (R := fun file w => ∃ found, file = s.booked.openFileOf found ∧ Holding L [found.1] w)
    (Attempt.Ensures.ofLoader fun w hw => ?_)
    fun file => Attempt.Ensures.of_exists fun found => Attempt.Ensures.of_and fun hfile => ?_
  · obtain ⟨-, -, -, hopen⟩ := lockstep_findOnDevice (s := s) hL record.device path w.firmware
      w.firmware.state ⟨rfl, hw⟩
    have hcall : (Loader.callNoted ((firmware s.booked self record image).openFile path) w).value =
        (((firmware s.booked self record image).openFile path w.firmware).value.1,
          { w with
            firmware := ((firmware s.booked self record image).openFile path w.firmware).value.2 })
      := rfl
    rw [hcall, openFile_eq]
    generalize ((s.booked.findOnDevice record.device path).run w.firmware).value = found at hopen ⊢
    obtain ⟨answer, left⟩ := found
    cases answer with
    | error status => exact hopen.elim id (hstopped _)
    | ok found => exact ⟨found, rfl, hopen⟩
  · subst hfile
    refine Loader.Ensures.bind (huse found.1 found.2).either fun r => ?_
    refine Loader.Ensures.bind (R := fun _ => Holding L [])
      (Loader.Ensures.call fun w hw => (File.closed_closeFile hL found.1 ⟨rfl, hw⟩).2) fun _ => ?_
    refine Loader.Ensures.pure fun w hw => ?_
    cases r with
    | ok a => exact hw
    | error status => exact hw

/-- The payload is obtained with nothing left open. -/
theorem ensures_obtainPayload [Zstd.Decoder] (o : Options) (linux : Option ByteArray) :
    Attempt.Ensures (Holding L [])
      (Boot.obtainPayload (firmware s.booked self record image) o linux)
      (fun _ => Holding L []) (Holding L []) := by
  have hfile : Attempt.Ensures (Holding L [])
      (Boot.obtainPayload.fromFile (firmware s.booked self record image) o)
      (fun _ => Holding L []) (Holding L []) := by
    unfold Boot.obtainPayload.fromFile
    refine Attempt.Ensures.note_bind (ensures_withFile hL hstopped _ fun file size => ?_)
    exact ensures_holding_of_maintains (Boot.maintains_unpack
      (Payload.maintains_unpackFile (File.keeps_source hL file size) fun _ => trivial))
  unfold Boot.obtainPayload
  cases linux with
  | none => exact hfile
  | some data =>
    dsimp only
    split
    · exact Attempt.Ensures.note_bind (ensures_unpackBytes data _)
    · exact hfile

/-- So is the initrd. -/
theorem ensures_obtainInitrd (o : Options) (embedded : Option ByteArray) :
    Attempt.Ensures (Holding L [])
      (Boot.obtainInitrd (firmware s.booked self record image) o embedded)
      (fun _ => Holding L []) (Holding L []) := by
  unfold Boot.obtainInitrd
  cases o.initrdPath? with
  | some path =>
    refine Attempt.Ensures.note_bind (ensures_withFile hL hstopped _ fun file size => ?_)
    exact ensures_holding_of_maintains (Maintains.map _ (Boot.maintains_unpack
      (Boot.maintains_readWhole (File.keeps_source hL file size) fun _ => trivial)))
  | none =>
    cases embedded with
    | none => exact Attempt.Ensures.pure fun w hw => hw
    | some data =>
      refine Attempt.Ensures.note_bind ?_
      rw [map_eq_pure_bind]
      exact Attempt.Ensures.bind (ensures_unpackBytes data _) fun _ =>
        Attempt.Ensures.pure fun w hw => hw

theorem ensures_offerInitrd (o : Options) (embedded : Option ByteArray) :
    Attempt.Ensures (Holding L [])
      (Boot.offerInitrd (firmware s.booked self record image) o embedded)
      (fun _ => Holding L []) (Holding L []) := by
  unfold Boot.offerInitrd
  refine Attempt.Ensures.bind (Attempt.Ensures.noting (ensures_obtainInitrd hL hstopped o embedded))
    fun initrd => ?_
  cases initrd with
  | none => exact Attempt.Ensures.pure fun w hw => hw
  | some data =>
    exact ensures_holding_of_maintains (keeps_booked.register (fun _ => trivial) data)

/-- A boot attempt leaves nothing open. -/
theorem ensures_holding_run [Zstd.Decoder] (o : Options) :
    Loader.Ensures (Holding L []) (Boot.run (firmware s.booked self record image) o)
      fun _ => Holding L [] := by
  refine Boot.ensures_run_of (fun _ hw => hw)
    (fun linux => ensures_obtainPayload hL hstopped o linux)
    (fun initrd => ensures_offerInitrd hL hstopped o initrd) (fun mode data => ?_)
    (ensures_holding_of_lockstep keeps_booked.deregister)
  refine ensures_holding_of_lockstep ((keeps_booked.runImage (fun _ => keeps_booked) starts_booked
    (fun _ => trivial) mode data _).mono (fun _ _ hst => hst) fun status w m hended => ?_)
  exact hended.elim (fun h => h.2) id

end Boot

/-- In lockstep with a machine without a list. -/
theorem toMachine_eq {K : List FileCall → Prop} {w : Machine (Booked β)} {m : Machine β}
    (h : w.InStep (Of K) m) : Booked.toMachine w = m := by
  obtain ⟨⟨state, calls⟩, shared⟩ := w
  obtain ⟨⟨rfl, -⟩, rfl, -⟩ := h
  rfl

/-- A boot attempt does not notice the list. -/
theorem value_run_booked [Allocator] [Zstd.Decoder] (self : Handle) (record : ImageRecord)
    (image : ByteArray) (o : Options) (m : Machine β) :
    let booked := (Boot.run (firmware s.booked self record image) o (Booked.ofMachine m)).value
    (booked.1, Booked.toMachine booked.2) =
      (Boot.run (firmware s self record image) o m).value := by
  obtain ⟨-, hstatus, hended⟩ := keeps_booked.run (fun _ => keeps_booked) starts_booked opens_booked
    (fun _ => trivial) o (Booked.ofMachine m) m ⟨⟨rfl, trivial⟩, rfl, trivial⟩
  exact Prod.ext hstatus (hended.elim (fun h => toMachine_eq h.2) toMachine_eq)

end Firmware

/-! ## the result -/

/-- **Files are closed**: whatever boot services and files do, opening a file
leaves the file open, or nothing if it fails; reading it any number of times
leaves it open, and closing it leaves nothing.  So everything that is handed
out on the way is closed once, the volume before the file has been opened, and
nobody calls on it afterwards.  No read reports more bytes than it was asked
for, and a boot attempt leaves nothing open, however it ends.  The exception is
an attempt that does not end: where there is no room for what the firmware says
is known of a file, the loader stops with that file, and nothing else, open. -/
theorem files_closed [Allocator] [Zstd.Decoder] (s : BootServices β) :
    (∀ fileSystem path b,
      let opening := ((File.openPath s.booked fileSystem path).run ⟨b, []⟩).value
      (opening.1, opening.2.state) = ((File.openPath s fileSystem path).run b).value ∧
      match opening.1 with
      | .error _ => Kept opening.2.calls [] ∨ Stopped opening.2.calls
      | .ok (file, _) =>
        Kept opening.2.calls [file] ∧
        ∀ asks,
          let reading := File.reads s.booked file asks opening.2
          (reading.1, reading.2.state) = File.reads s file asks opening.2.state ∧
          (∀ c ∈ reading.1, ∀ r, c.answer = .ok r → r.count ≤ c.asked) ∧
          Kept reading.2.calls [file] ∧
          Kept (s.booked.closeFile file reading.2).2.calls []) ∧
    (∀ self record image o m,
      let attempt := (Boot.run (firmware s.booked self record image) o (Booked.ofMachine m)).value
      (attempt.1, Booked.toMachine attempt.2) =
          (Boot.run (firmware s self record image) o m).value ∧
        (Kept attempt.2.firmware.calls [] ∨ Stopped attempt.2.firmware.calls)) := by
  constructor
  · intro fileSystem path b opening
    obtain ⟨-, hanswer, hstate, hended⟩ := File.lockstep_openPath (s := s) tracks_kept
      fileSystem path ⟨b, []⟩ b ⟨rfl, Kept.nil⟩
    refine ⟨Prod.ext hanswer hstate, ?_⟩
    change File.Ended Kept Stopped (opening.1.map Prod.fst) opening.2.calls at hended
    rcases hopening : opening.1 with status | ⟨file, size⟩
    · rw [hopening] at hended
      exact hended
    rw [hopening] at hended
    refine ⟨hended, fun asks => ?_⟩
    obtain ⟨hreads, hcounts, hleft, hheld⟩ := File.alike_reads (s := s) tracks_kept file asks
      opening.2 opening.2.state ⟨rfl, hended⟩
    exact ⟨Prod.ext hreads hleft, hcounts, hheld,
      (File.closed_closeFile tracks_kept file ⟨rfl, hheld⟩).2⟩
  · intro self record image o m
    exact ⟨value_run_booked self record image o m,
      ensures_holding_run tracks_kept_or_stopped (fun _ => .inr) o (Booked.ofMachine m)
        (.inl Kept.nil)⟩

/-- Boot services with a volume and a file on it, of which more is known than
any memory holds. -/
def oversized : BootServices Unit where
  allocatePages _ _ := return (Status.outOfResources, 0)
  freePages _ _ := return Status.notFound
  installProtocol handle _ _ := return (Status.outOfResources, handle)
  uninstallProtocol _ _ _ := return Status.invalidParameter
  openProtocol _ _ _ _ := return (Status.unsupported, Interface.null)
  closeProtocol _ _ _ := return Status.notFound
  handleProtocol _ _ := return (Status.success, .raw 1)
  locateDevicePath _ _ _ := return (Status.notFound, Handle.null)
  loadImage _ _ _ := return (Status.unsupported, Handle.null, none)
  startImage _ _ := return Status.unsupported
  unloadImage _ := return Status.invalidParameter
  enter _ _ _ := return Status.unsupported
  openVolume _ := return (Status.success, some ⟨1⟩)
  openFile _ _ _ _ := return (Status.success, some ⟨2⟩)
  closeFile _ := return
  fileInfo _ _ _ := return (Status.bufferTooSmall, 0x8000000000000000, ByteArray.empty)
  readFile _ _ := return (Status.deviceError, 0, ByteArray.empty)
  stop _ := return

/-- The loader stops whatever memory there is, and has opened the file and not
closed it. -/
theorem openPath_oversized :
    let _ := Allocator.unlimited
    let opening := ((File.openPath oversized.booked (.raw 1) "a").run ⟨(), []⟩).value
    ∃ before later, opening.2.calls = before ++ FileCall.stop 0x8000000000000000 :: later ∧
      openings ⟨2⟩ before = 1 ∧ closings ⟨2⟩ before = 0 ∧ ¬ Kept opening.2.calls [] := by
  intro _ opening
  have hcalls : opening.2.calls =
      [.openVolume Status.success (some ⟨1⟩), .openFile ⟨1⟩ Status.success (some ⟨2⟩),
        .close ⟨1⟩, .info ⟨2⟩] ++ FileCall.stop 0x8000000000000000 :: [.close ⟨2⟩] := rfl
  refine ⟨_, _, hcalls, rfl, rfl, fun hkept => hkept.going 0x8000000000000000 ?_⟩
  rw [hcalls]
  exact List.mem_append_right _ List.mem_cons_self

end EfiLoader.Uefi
