import EfiLoader.Loader.Initrd
import EfiLoader.Proofs.Simulation.Handles

/-!
# EfiLoader.Proofs.Uefi.Interfaces

Lists of interfaces on boot services that handle one at a time.

* `installFrom_cases`, `uninstallFrom_cases` — either every call succeeds, or
  the first that fails is the last one for the list;
* `interfaces_all_or_none` — a list is added or removed as a whole, or what
  handles carry is as it was.
-/

namespace EfiLoader.Uefi

namespace BootServices

variable {β : Type} {s : BootServices β} {v : HandleView β}

/-! ## the loops -/

/-- Either every call succeeds, or one fails after others that succeed, and
what these have done is undone. -/
theorem installFrom_cases (s : BootServices β) (before : Interfaces) (h : Handle)
    (is : Interfaces) (b : β) :
    (∃ h' b', s.installFrom before h is b = (.ok h', b') ∧ Adds s h b is h' b') ∨
      ∃ done failed rest h₁ b₁ status h₂ b₂, is = done ++ failed :: rest ∧ Adds s h b done h₁ b₁ ∧
        s.installProtocol h₁ failed.1 failed.2 b₁ = ((status, h₂), b₂) ∧ status.isError = true ∧
        s.installFrom before h is b =
          (.error status, (s.removeEach h₂ (done.reverse ++ before) b₂).2) := by
  induction is generalizing before h b with
  | nil => exact .inl ⟨h, b, rfl, .nil h b⟩
  | cons x rest ih =>
      obtain ⟨p, i⟩ := x
      rcases hcall : s.installProtocol h p i b with ⟨⟨status, h₁⟩, b₁⟩
      cases hstatus : status.isError with
      | true =>
          refine .inr ⟨[], (p, i), rest, h, b, status, h₁, b₁, rfl, .nil h b, hcall, hstatus, ?_⟩
          simp only [installFrom, StateT.bind, bind, hcall, hstatus]
          rfl
      | false =>
          have hstep : s.installFrom before h ((p, i) :: rest) b =
              s.installFrom ((p, i) :: before) h₁ rest b₁ := by
            simp only [installFrom, StateT.bind, bind, hcall, hstatus]
            rfl
          rw [hstep]
          rcases ih ((p, i) :: before) h₁ b₁ with ⟨h', b', hall, hadds⟩ |
            ⟨done, failed, rest', h₂, b₂, st, h₃, b₃, hsplit, hadds, hfails, herror, hall⟩
          · exact .inl ⟨h', b', hall, .cons hcall hstatus hadds⟩
          · refine .inr ⟨(p, i) :: done, failed, rest', h₂, b₂, st, h₃, b₃, ?_,
              .cons hcall hstatus hadds, hfails, herror, ?_⟩
            · rw [hsplit, List.cons_append]
            · rw [hall, List.reverse_cons, List.append_assoc]
              rfl

/-- Removing goes the same way. -/
theorem uninstallFrom_cases (s : BootServices β) (before : Interfaces) (h : Handle)
    (is : Interfaces) (b : β) :
    (∃ b', s.uninstallFrom before h is b = (Status.success, b') ∧ Removes s h b is b') ∨
      ∃ done failed rest b₁ status b₂, is = done ++ failed :: rest ∧ Removes s h b done b₁ ∧
        s.uninstallProtocol h failed.1 failed.2 b₁ = (status, b₂) ∧ status.isError = true ∧
        s.uninstallFrom before h is b =
          (status, (s.addEach h (done.reverse ++ before) b₂).2) := by
  induction is generalizing before b with
  | nil => exact .inl ⟨b, rfl, .nil b⟩
  | cons x rest ih =>
      obtain ⟨p, i⟩ := x
      rcases hcall : s.uninstallProtocol h p i b with ⟨status, b₁⟩
      cases hstatus : status.isError with
      | true =>
          refine .inr ⟨[], (p, i), rest, b, status, b₁, rfl, .nil b, hcall, hstatus, ?_⟩
          simp only [uninstallFrom, StateT.bind, bind, hcall, hstatus]
          rfl
      | false =>
          have hstep : s.uninstallFrom before h ((p, i) :: rest) b =
              s.uninstallFrom ((p, i) :: before) h rest b₁ := by
            simp only [uninstallFrom, StateT.bind, bind, hcall, hstatus]
            rfl
          rw [hstep]
          rcases ih ((p, i) :: before) b₁ with ⟨b', hall, hremoves⟩ |
            ⟨done, failed, rest', b₂, st, b₃, hsplit, hremoves, hfails, herror, hall⟩
          · exact .inl ⟨b', hall, .cons hcall hstatus hremoves⟩
          · refine .inr ⟨(p, i) :: done, failed, rest', b₂, st, b₃, ?_,
              .cons hcall hstatus hremoves, hfails, herror, ?_⟩
            · rw [hsplit, List.cons_append]
            · rw [hall, List.reverse_cons, List.append_assoc]
              rfl

/-! ## undoing -/

/-- Removing whatever the firmware says does the same, if the firmware never
refuses. -/
theorem Removes.removeEach {h : Handle} {b b' : β} {is : Interfaces}
    (hremoves : Removes s h b is b') : (s.removeEach h is b).2 = b' := by
  induction hremoves with
  | nil b => rfl
  | cons hcall _ _ ih =>
      simp only [BootServices.removeEach, StateT.bind, bind, hcall]
      exact ih

theorem Adds.addEach {h h' : Handle} {b b' : β} {is : Interfaces}
    (hadds : Adds s h b is h' b') : (s.addEach h is b).2 = b' := by
  induction hadds with
  | nil h b => rfl
  | cons hcall _ _ ih =>
      simp only [BootServices.addEach, StateT.bind, bind, hcall]
      exact ih

/-- What has been added and is removed again, after a call that fails, leaves
nothing behind. -/
theorem held_of_removed (exact : s.Exact v) {h h₁ h₂ : Handle} {b b₁ b₂ b' : β}
    {done : Interfaces} {failed : Protocol × Interface} {status : Status} (hb : v.Valid b)
    (hadds : Adds s h b done h₁ b₁)
    (hcall : s.installProtocol h₁ failed.1 failed.2 b₁ = ((status, h₂), b₂))
    (herror : status.isError = true) (hundone : Removes s h₂ b₂ done.reverse b') :
    v.Valid b' ∧ v.held b' = v.held b := by
  have hadded := hadds.result exact hb
  obtain ⟨hb₂, rfl, hsame⟩ := exact.install_error hadded.valid hcall herror
  have hremoved := hundone.result exact hb₂
  refine ⟨hremoved.valid, ?_⟩
  rw [hremoved.held, hsame, hadded.held, Holdings.on_reverse]
  refine Set.union_sdiff_cancel_right fun x hx => ?_
  obtain ⟨hkey, hmem⟩ := hx.2
  exact hadded.unheld x.2 hmem (hkey ▸ hx.1)

/-- What has been removed and is added again, after a call that fails, is all
there. -/
theorem held_of_added (exact : s.Exact v) {h h' : Handle} {b b₁ b₂ b' : β}
    {done : Interfaces} {failed : Protocol × Interface} {status : Status} (hb : v.Valid b)
    (hremoves : Removes s h b done b₁)
    (hcall : s.uninstallProtocol h failed.1 failed.2 b₁ = (status, b₂))
    (herror : status.isError = true) (hundone : Adds s h b₂ done.reverse h' b') :
    v.Valid b' ∧ v.held b' = v.held b := by
  have hremoved := hremoves.result exact hb
  obtain ⟨hb₂, hsame⟩ := exact.uninstall_error hremoved.valid hcall herror
  have hadded := hundone.result exact hb₂
  refine ⟨hadded.valid, ?_⟩
  rw [hadded.held, hsame, hremoved.held, Holdings.on_reverse]
  cases done with
  | nil => simp
  | cons i rest =>
      -- something had been on the handle, so it is not null
      have hmem : (h, i) ∈ v.held b := hremoved.present ⟨rfl, List.mem_cons_self⟩
      have hkept : h' = h := hadded.same fun hnull => exact.null_not_held hb i (hnull ▸ hmem)
      rw [hkept]
      exact Set.sdiff_union_of_subset hremoved.present

end BootServices

/-! ## the firmware of boot services -/

open BootServices

/-- **Interfaces come and go as a whole**: adding a list to a handle, or to a new
one, adds all of it to one handle or nothing, and removing a list removes all
of it or nothing.  The first call that fails ends both with its status and is
the last one for the list; then what has been done is undone, and as long as
that succeeds handles carry what they carried before. -/
theorem interfaces_all_or_none [Allocator] {β : Type} {s : BootServices β} {v : HandleView β}
    (exact : s.Exact v) (self : Handle) (record : ImageRecord) (image : ByteArray)
    (h : Handle) (is : Interfaces) {b : β} (hb : v.Valid b) :
    let fw := firmware s self record image
    ((∃ h' b', fw.install h is b = (.ok h', b') ∧
        Adds s h b is h' b' ∧ v.Valid b' ∧
        (h ≠ Handle.null → h' = h) ∧
        (h = Handle.null → ∀ i, (h', i) ∉ v.held b) ∧
        (∀ i ∈ is, (h', i) ∉ v.held b) ∧
        v.held b' = v.held b ∪ Holdings.on h' is) ∨
      ∃ status b' done failed rest h₁ b₁ b₂, fw.install h is b = (.error status, b') ∧
        is = done ++ failed :: rest ∧
        Adds s h b done h₁ b₁ ∧
        s.installProtocol h₁ failed.1 failed.2 b₁ = ((status, h₁), b₂) ∧
        status.isError = true ∧
        b' = (s.removeEach h₁ done.reverse b₂).2 ∧
        ((∃ b'', Removes s h₁ b₂ done.reverse b'') → v.Valid b' ∧ v.held b' = v.held b)) ∧
    ((∃ b', fw.uninstall h is b = (Status.success, b') ∧
        Removes s h b is b' ∧ v.Valid b' ∧
        Holdings.on h is ⊆ v.held b ∧
        v.held b' = v.held b \ Holdings.on h is) ∨
      ∃ status b' done failed rest b₁ b₂, fw.uninstall h is b = (status, b') ∧
        is = done ++ failed :: rest ∧
        Removes s h b done b₁ ∧
        s.uninstallProtocol h failed.1 failed.2 b₁ = (status, b₂) ∧
        status.isError = true ∧
        b' = (s.addEach h done.reverse b₂).2 ∧
        ((∃ h' b'', Adds s h b₂ done.reverse h' b'') → v.Valid b' ∧ v.held b' = v.held b)) := by
  intro fw
  refine ⟨?_, ?_⟩
  · rcases installFrom_cases s [] h is b with ⟨h', b', hall, hadds⟩ |
      ⟨done, failed, rest, h₁, b₁, status, h₂, b₂, hsplit, hadds, hfails, herror, hall⟩
    · obtain ⟨hvalid, hsame, hnew, hunheld, hheld⟩ := hadds.result exact hb
      exact .inl ⟨h', b', hall, hadds, hvalid, hsame, hnew, hunheld, hheld⟩
    · rw [List.append_nil] at hall
      -- the call that fails leaves the handle that it is given
      obtain ⟨-, rfl, -⟩ := exact.install_error (hadds.result exact hb).valid hfails herror
      refine .inr ⟨status, _, done, failed, rest, h₂, b₁, b₂, hall, hsplit, hadds, hfails, herror,
        rfl, ?_⟩
      rintro ⟨b'', hundone⟩
      rw [hundone.removeEach]
      exact held_of_removed exact hb hadds hfails herror hundone
  · rcases uninstallFrom_cases s [] h is b with ⟨b', hall, hremoves⟩ |
      ⟨done, failed, rest, b₁, status, b₂, hsplit, hremoves, hfails, herror, hall⟩
    · obtain ⟨hvalid, hpresent, hheld⟩ := hremoves.result exact hb
      exact .inl ⟨b', hall, hremoves, hvalid, hpresent, hheld⟩
    · rw [List.append_nil] at hall
      refine .inr ⟨status, _, done, failed, rest, b₁, b₂, hall, hsplit, hremoves, hfails, herror,
        rfl, ?_⟩
      rintro ⟨h', b'', hundone⟩
      rw [hundone.addEach]
      exact held_of_added exact hb hremoves hfails herror hundone

/-- A stage on which the second addition of an interface fails, and which has
one handle with two interfaces, of which the second is in use. -/
def reluctant : Simulation.Stage where
  script := { rules := [⟨.installProtocol, some 2, .status Status.outOfResources⟩] }
  pages := ⟨[], Simulation.Stage.firstPage⟩
  handles := ⟨[(⟨0x1020⟩, [(.devicePath, .initrdPath), (.loadFile2, .loadFile 0)])], 0x1030⟩
  opened := [(⟨0x1020⟩, .loadFile2)]

/-- There a list is not added, and the new handle is gone; nor is a list
removed, and the interface that could be removed is back. -/
theorem interfaces_all_or_none_reluctant :
    let _ := Allocator.unlimited
    let fw := firmware Simulation.Stage.services Simulation.Stage.loaderHandle {} ByteArray.empty
    (∃ s', fw.install Handle.null (Initrd.interfaces (.loadFile 1)) reluctant =
        (.error Status.outOfResources, s') ∧ s'.handles.held = reluctant.handles.held) ∧
      ∃ s', fw.uninstall ⟨0x1020⟩ (Initrd.interfaces (.loadFile 0)) reluctant =
        (Status.accessDenied, s') ∧ s'.handles.held = reluctant.handles.held := by
  intro _ fw
  have hvalid : Simulation.Stage.view.Valid reluctant := by
    refine ⟨?_, ⟨by decide, by decide, by decide⟩, by decide⟩
    intro r hr status hstatus
    rw [List.mem_singleton.mp hr] at hstatus
    cases hstatus
    rfl
  obtain ⟨hinstall, -⟩ := interfaces_all_or_none Simulation.Stage.exact_services
    Simulation.Stage.loaderHandle {} ByteArray.empty Handle.null
    (Initrd.interfaces (.loadFile 1)) hvalid
  obtain ⟨-, huninstall⟩ := interfaces_all_or_none Simulation.Stage.exact_services
    Simulation.Stage.loaderHandle {} ByteArray.empty ⟨0x1020⟩
    (Initrd.interfaces (.loadFile 0)) hvalid
  have hrefused : (fw.install Handle.null (Initrd.interfaces (.loadFile 1)) reluctant).1 =
      .error Status.outOfResources := rfl
  have hdenied : (fw.uninstall ⟨0x1020⟩ (Initrd.interfaces (.loadFile 0)) reluctant).1 =
      Status.accessDenied := rfl
  refine ⟨?_, ?_⟩
  · rcases hinstall with ⟨h', s', hall, -⟩ |
      ⟨status, s', done, failed, rest, h₁, s₁, s₂, hall, hsplit, hadds, hfails, -, -, hundone⟩
    · rw [hall] at hrefused
      cases hrefused
    · rw [hall] at hrefused
      cases hrefused
      refine ⟨s', hall, (hundone ?_).2⟩
      rcases done with _ | ⟨x, _ | ⟨y, done⟩⟩
      · exact ⟨s₂, .nil s₂⟩
      · cases hsplit
        obtain _ | ⟨hcall, -, _ | _⟩ := hadds
        cases hcall
        cases hfails
        exact ⟨_, .cons rfl rfl (.nil _)⟩
      · simp [Initrd.interfaces] at hsplit
  · rcases huninstall with ⟨s', hall, -⟩ |
      ⟨status, s', done, failed, rest, s₁, s₂, hall, hsplit, hremoves, hfails, -, -, hundone⟩
    · rw [hall] at hdenied
      cases hdenied
    · rw [hall] at hdenied
      cases hdenied
      refine ⟨s', hall, (hundone ?_).2⟩
      rcases done with _ | ⟨x, _ | ⟨y, done⟩⟩
      · exact ⟨_, s₂, .nil _ s₂⟩
      · cases hsplit
        obtain _ | ⟨hcall, -, _ | _⟩ := hremoves
        cases hcall
        cases hfails
        exact ⟨_, _, .cons rfl rfl (.nil _ _)⟩
      · simp [Initrd.interfaces] at hsplit

end EfiLoader.Uefi
