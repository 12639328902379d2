import EfiLoader.Proofs.Bench.Services
import EfiLoader.Proofs.Firmware.Holdings

/-!
# EfiLoader.Proofs.Bench.Handles

What the handles of the bench carry.  The bench adds or removes all interfaces
of a list or none:

* `allOrNothing_firmware` — what handles carry after the bench has been asked.
-/

namespace EfiLoader.Bench

/-- What handles carry on a bench. -/
def view : HandleView Bench where
  Valid b := b.handles.WellFormed
  held b := b.handles.held

theorem valid_fresh (settings : BenchSettings) : view.Valid (fresh settings) :=
  ⟨List.nodup_nil, by simp [fresh], by simp [fresh, firstHandle]⟩

/-- A handle loses all of a list, or it is refused and nothing has changed. -/
theorem uninstall_cases (b : Bench) (h : Handle) (is : Interfaces) :
    (∃ status, status.isError = true ∧ uninstall h is b = (status, b)) ∨
      ∃ old, b.handles.interfaces? h = some old ∧
        uninstall h is b = (Status.success, { b with
          handles := b.handles.leave h (old.filter fun i => !is.contains i) }) := by
  rw [uninstall, get_bind_apply]
  by_cases hopened : b.opened.any fun o => o.1 == h
  · rw [if_pos hopened]
    exact .inl ⟨Status.accessDenied, Status.isError_error 15, rfl⟩
  · rw [if_neg hopened]
    cases hold : b.handles.interfaces? h with
    | none => exact .inl ⟨Status.invalidParameter, Status.isError_error 2, rfl⟩
    | some old =>
        by_cases hall : is.all old.contains
        · exact .inr ⟨old, rfl, by simp only [if_pos hall]; rfl⟩
        · exact .inl ⟨Status.notFound, Status.isError_error 14, by simp only [if_neg hall]; rfl⟩

/-- **All or nothing**: the bench adds or removes all interfaces of a list, or
none of them. -/
theorem allOrNothing_firmware (e : Equipment) : (firmware e).AllOrNothing view where
  install_error := by
    intro b b' is status hb hcall
    change install Handle.null is b = _ at hcall
    rcases install_null_cases b is with ⟨_, hinstall⟩ | hinstall
    · cases hinstall.symm.trans hcall
      exact ⟨hb, rfl⟩
    · cases hinstall.symm.trans hcall
  install_ok := by
    intro b b' is h hb hcall
    change install Handle.null is b = _ at hcall
    rcases install_null_cases b is with ⟨_, hinstall⟩ | hinstall
    · cases hinstall.symm.trans hcall
    · cases hinstall.symm.trans hcall
      exact ⟨HandleDatabase.WellFormed.add hb is,
        fun x hx => HandleDatabase.WellFormed.ne_next hb hx, b.handles.held_add is⟩
  uninstall_error := by
    intro b b' h is status hb hcall herror
    change uninstall h is b = _ at hcall
    rcases uninstall_cases b h is with ⟨_, -, huninstall⟩ | ⟨_, -, huninstall⟩
    · cases huninstall.symm.trans hcall
      exact ⟨hb, rfl⟩
    · cases huninstall.symm.trans hcall
      cases herror.symm.trans Status.isError_success
  uninstall_ok := by
    intro b b' h is status hb hcall hok
    change uninstall h is b = _ at hcall
    rcases uninstall_cases b h is with ⟨_, herror, huninstall⟩ | ⟨old, hold, huninstall⟩
    · cases huninstall.symm.trans hcall
      cases hok.symm.trans herror
    · cases huninstall.symm.trans hcall
      refine ⟨HandleDatabase.WellFormed.leave hb h _,
        HandleDatabase.WellFormed.held_leave_of_mem_iff hb hold fun i => ?_⟩
      simp
  locate b p path shared hb := by
    have hsame : ((firmware e).locate p path shared b).2 = b := locate_snd b p path
    rw [hsame]
    exact ⟨hb, rfl⟩

end EfiLoader.Bench
