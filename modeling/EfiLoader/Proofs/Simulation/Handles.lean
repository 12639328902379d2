import EfiLoader.Proofs.Uefi.Exact
import EfiLoader.Simulation.Stage

/-!
# EfiLoader.Proofs.Simulation.Handles

The handles of the simulated boot services.  A call that is interrupted with an
error, or refused, changes nothing that handles carry; any other does what it
is asked for.

* `exact_services` — the simulated services are exact as long as calls are
  interrupted with errors only.
-/

namespace EfiLoader.Simulation

open Uefi

/-! ## interruptions -/

/-- Calls are interrupted with errors only. -/
def Script.Failing (script : Script) : Prop :=
  ∀ r ∈ script.rules, ∀ status, r.interruption = .status status → status.isError = true

/-- A service that always has a result is interrupted with an error, if at all. -/
theorem Script.Failing.interruption {script : Script} (h : script.Failing) {service : Service}
    (hempty : service.canBeEmpty = false) (n : Nat) :
    interruption? script.rules service n = none ∨
      ∃ status, interruption? script.rules service n = some (.status status) ∧
        status.isError = true := by
  unfold interruption?
  split
  · exact .inl rfl
  · next r hfind =>
    have hmem := List.mem_of_find?_eq_some hfind
    cases hr : r.interruption with
    | empty => exact .inl (if_pos (by simp [hempty]))
    | status status => exact .inr ⟨status, if_neg (by simp), h r hmem status hr⟩

namespace Stage

/-- Calls are on record, and nothing else has changed. -/
structure Quiet (s s' : Stage) : Prop where
  script : s'.script = s.script
  handles : s'.handles = s.handles
  opened : s'.opened = s.opened

theorem quiet_count (service : Service) (s : Stage) : s.Quiet (count service s).2 := ⟨rfl, rfl, rfl⟩

theorem quiet_line (text : String) (s : Stage) : s.Quiet (line text s).2 := ⟨rfl, rfl, rfl⟩

theorem Quiet.trans {s s' s'' : Stage} (h : s.Quiet s') (h' : s'.Quiet s'') : s.Quiet s'' :=
  ⟨h'.script.trans h.script, h'.handles.trans h.handles, h'.opened.trans h.opened⟩

variable {s : Stage} {service : Service}

/-- A call with a status is interrupted with an error, or done. -/
theorem statusCall_cases (hempty : service.canBeEmpty = false) (text : String)
    (run : StateM Stage Status) (hs : s.script.Failing) :
    (∃ status s', statusCall service text run s = (status, s') ∧ status.isError = true ∧
        s.Quiet s') ∨
      ∃ s₁ s', statusCall service text run s = ((run s₁).1, s') ∧ s.Quiet s₁ ∧
        (run s₁).2.Quiet s' := by
  have hquiet := quiet_count service s
  rcases hs.interruption hempty (s.counts service + 1) with hnone | ⟨status, hsome, herror⟩
  · rcases hrun : run (count service s).2 with ⟨status, s₂⟩
    refine .inr ⟨_, (line s!"{service.name}({text}) = {label status}" s₂).2, ?_, hquiet, ?_⟩
    · rw [hrun]
      simp only [count] at hrun
      simp only [statusCall, count, bind, StateT.bind, hnone, hrun]
      rfl
    · rw [hrun]
      exact quiet_line _ _
  · refine .inl ⟨status, (line s!"{service.name}({text}) = {label status}" _).2, ?_, herror,
      hquiet.trans (quiet_line _ _)⟩
    simp only [statusCall, count, bind, StateT.bind, hsome]
    rfl

/-- So is a call with a value. -/
theorem valueCall_cases {α : Type} (hempty : service.canBeEmpty = false) (text : String)
    (render : α → String) (blank : α) (run : StateM Stage (Except Status α))
    (hs : s.script.Failing) :
    (∃ status s', valueCall service text render blank run s = ((status, blank), s') ∧
        status.isError = true ∧ s.Quiet s') ∨
      ∃ s₁ s', s.Quiet s₁ ∧ (run s₁).2.Quiet s' ∧
        valueCall service text render blank run s = match (run s₁).1 with
          | .ok value => ((Status.success, value), s')
          | .error status => ((status, blank), s') := by
  have hquiet := quiet_count service s
  rcases hs.interruption hempty (s.counts service + 1) with hnone | ⟨status, hsome, herror⟩
  · rcases hrun : run (count service s).2 with ⟨status | value, s₂⟩
    · refine .inr ⟨_, (line s!"{service.name}({text}) = {label status}" s₂).2, hquiet, ?_, ?_⟩
      · rw [hrun]
        exact quiet_line _ _
      · rw [hrun]
        simp only [count] at hrun
        simp only [valueCall, count, bind, StateT.bind, hnone, hrun]
        rfl
    · refine .inr ⟨_, (line s!"{service.name}({text}) = {render value}" s₂).2, hquiet, ?_, ?_⟩
      · rw [hrun]
        exact quiet_line _ _
      · rw [hrun]
        simp only [count] at hrun
        simp only [valueCall, count, bind, StateT.bind, hnone, hrun]
        rfl
  · refine .inl ⟨status, (line s!"{service.name}({text}) = {label status}" _).2, ?_, herror,
      hquiet.trans (quiet_line _ _)⟩
    simp only [valueCall, count, bind, StateT.bind, hsome]
    rfl

/-! ## handles -/

/-- Handles are as a database keeps them, and no handle carries anything
twice. -/
structure Orderly (d : HandleDatabase) : Prop where
  wellFormed : d.WellFormed
  nodup : ∀ e ∈ d.entries, e.2.Nodup

namespace Orderly

variable {d : HandleDatabase} {h : Handle} {is : Interfaces}

theorem add (hd : Orderly d) (his : is.Nodup) : Orderly (d.add is).2 where
  wellFormed := hd.wellFormed.add is
  nodup := by
    intro e he
    simp only [HandleDatabase.add, HandleDatabase.insert, List.mem_append,
      List.mem_singleton] at he
    rcases he with he | rfl
    · exact hd.nodup e he
    · exact his

theorem replace (hd : Orderly d) (h : Handle) (his : is.Nodup) : Orderly (d.replace h is) where
  wellFormed := hd.wellFormed.replace h is
  nodup := by
    intro e he
    obtain ⟨e', he', rfl⟩ := List.mem_map.mp he
    split
    · exact his
    · exact hd.nodup e' he'

theorem leave (hd : Orderly d) (h : Handle) (his : is.Nodup) : Orderly (d.leave h is) := by
  rw [HandleDatabase.leave]
  split
  · exact ⟨hd.wellFormed.remove h, fun e he => hd.nodup e (List.mem_filter.mp he).1⟩
  · exact hd.replace h his

end Orderly

/-- What handles carry on a stage where calls are interrupted with errors
only. -/
def view : HandleView Stage where
  Valid s := s.script.Failing ∧ Orderly s.handles
  held s := s.handles.held

theorem Quiet.valid {s s' : Stage} (h : s.Quiet s') (hs : view.Valid s) : view.Valid s' := by
  obtain ⟨hscript, hhandles, -⟩ := h
  simp only [view, hscript, hhandles]
  exact hs

theorem Quiet.held {s s' : Stage} (h : s.Quiet s') : view.held s' = view.held s :=
  congrArg HandleDatabase.held h.handles

/-- A service that looks at the stage goes on with what it sees. -/
theorem get_bind_apply {α : Type} (f : Stage → StateM Stage α) (s : Stage) :
    (get >>= f) s = f s s := rfl

/-- An interface is refused, put on a new handle, or put on a handle that has
nothing for its protocol. -/
theorem addInterface_cases (h : Handle) (p : Protocol) (i : Interface) (s : Stage) :
    (∃ status, addInterface h p i s = (.error status, s) ∧ status.isError = true) ∨
      (h = Handle.null ∧ addInterface h p i s =
        (.ok ⟨s.handles.next⟩, { s with handles := (s.handles.add [(p, i)]).2 })) ∨
      ∃ is, h ≠ Handle.null ∧ s.handles.interfaces? h = some is ∧ (p, i) ∉ is ∧
        addInterface h p i s =
          (.ok h, { s with handles := s.handles.replace h (is ++ [(p, i)]) }) := by
  unfold addInterface
  by_cases hnull : h = Handle.null
  · rw [if_pos hnull]
    exact .inr (.inl ⟨hnull, rfl⟩)
  · rw [if_neg hnull, get_bind_apply]
    cases his : s.handles.interfaces? h with
    | none => exact .inl ⟨Status.invalidParameter, rfl, Status.isError_error 2⟩
    | some is =>
        by_cases hany : is.any (fun e => e.1 == p)
        · exact .inl ⟨Status.invalidParameter, by simp only [if_pos hany]; rfl,
            Status.isError_error 2⟩
        · refine .inr (.inr ⟨is, hnull, rfl, ?_, by simp only [if_neg hany]; rfl⟩)
          exact fun hmem => hany (List.any_eq_true.mpr ⟨(p, i), hmem, by simp⟩)

/-- An interface is added, or nothing that handles carry has changed. -/
theorem installProtocol_cases {s : Stage} (hs : view.Valid s) (h : Handle) (p : Protocol)
    (i : Interface) :
    (∃ status s', installProtocol h p i s = ((status, h), s') ∧ status.isError = true ∧
        s.Quiet s') ∨
      ∃ h' s', installProtocol h p i s = ((Status.success, h'), s') ∧ view.Valid s' ∧
        (h ≠ Handle.null → h' = h) ∧ (h = Handle.null → ∀ j, (h', j) ∉ view.held s) ∧
        (h', p, i) ∉ view.held s ∧ view.held s' = view.held s ∪ {(h', p, i)} := by
  have hempty : Service.installProtocol.canBeEmpty = false := rfl
  rcases valueCall_cases hempty s!"{h.text},{p.name}" Handle.text h (addInterface h p i) hs.1
    with hfails | ⟨s₁, s', hbefore, hafter, hcall⟩
  · exact .inl hfails
  · have hs₁ := hbefore.valid hs
    rw [← hbefore.held]
    rcases addInterface_cases h p i s₁ with ⟨status, hadd, herror⟩ | ⟨hnull, hadd⟩ |
      ⟨is, hnull, his, hnew, hadd⟩
    · rw [hadd] at hcall hafter
      exact .inl ⟨status, s', hcall, herror, hbefore.trans hafter⟩
    · rw [hadd] at hcall hafter
      have hunheld : ∀ j, (⟨s₁.handles.next⟩, j) ∉ s₁.handles.held :=
        fun j hj => hs₁.2.wellFormed.ne_next hj rfl
      refine .inr ⟨_, s', hcall, hafter.valid ⟨hs₁.1, hs₁.2.add (List.nodup_singleton _)⟩,
        fun hne => absurd hnull hne, fun _ => hunheld, hunheld _, ?_⟩
      rw [hafter.held, ← Holdings.on_singleton]
      exact s₁.handles.held_add [(p, i)]
    · rw [hadd] at hcall hafter
      have hnodup : (is ++ [(p, i)]).Nodup := by
        refine List.nodup_append.mpr
          ⟨hs₁.2.nodup _ (HandleDatabase.mem_entries_of_interfaces? his),
            List.nodup_singleton _, ?_⟩
        intro j hj k hk heq
        rw [List.mem_singleton] at hk
        exact hnew (hk ▸ heq ▸ hj)
      refine .inr ⟨h, s', hcall, hafter.valid ⟨hs₁.1, hs₁.2.replace h hnodup⟩, fun _ => rfl,
        fun hn => absurd hn hnull,
        fun hheld => hnew ((hs₁.2.wellFormed.mem_held_iff his (p, i)).mp hheld), ?_⟩
      rw [hafter.held, ← Holdings.on_singleton]
      exact hs₁.2.wellFormed.held_replace_append his [(p, i)]

/-- An interface is removed, or nothing that handles carry has changed. -/
theorem uninstallProtocol_cases {s : Stage} (hs : view.Valid s) (h : Handle) (p : Protocol)
    (i : Interface) :
    (∃ status s', uninstallProtocol h p i s = (status, s') ∧ status.isError = true ∧
        s.Quiet s') ∨
      ∃ s', uninstallProtocol h p i s = (Status.success, s') ∧ view.Valid s' ∧
        (h, p, i) ∈ view.held s ∧ view.held s' = view.held s \ {(h, p, i)} := by
  unfold uninstallProtocol
  have hempty : Service.uninstallProtocol.canBeEmpty = false := rfl
  rcases statusCall_cases hempty s!"{h.text},{p.name}" _ hs.1
    with hfails | ⟨s₁, s', hcall, hbefore, hafter⟩
  · exact .inl hfails
  · have hs₁ := hbefore.valid hs
    rw [hcall, ← hbefore.held]
    rw [get_bind_apply] at hafter ⊢
    cases his : s₁.handles.interfaces? h with
    | none =>
        rw [his] at hafter
        exact .inl ⟨_, s', rfl, Status.isError_error 2, hbefore.trans hafter⟩
    | some is =>
        rw [his] at hafter
        by_cases hopened : s₁.opened.contains (h, p)
        · simp only [if_pos hopened] at hafter ⊢
          exact .inl ⟨_, s', rfl, Status.isError_error 15, hbefore.trans hafter⟩
        · simp only [if_neg hopened] at hafter ⊢
          by_cases hmem : is.contains (p, i)
          · simp only [hmem, Bool.not_true, Bool.false_eq_true, if_false] at hafter ⊢
            have hnodup := hs₁.2.nodup _ (HandleDatabase.mem_entries_of_interfaces? his)
            refine .inr ⟨s', rfl, hafter.valid ⟨hs₁.1, hs₁.2.leave h (hnodup.erase _)⟩,
              (hs₁.2.wellFormed.mem_held_iff his _).mpr (List.contains_iff_mem.mp hmem), ?_⟩
            rw [hafter.held, ← Holdings.on_singleton]
            refine hs₁.2.wellFormed.held_leave_of_mem_iff his fun j => ?_
            rw [hnodup.mem_erase_iff, List.mem_singleton, and_comm]
          · simp only [hmem, Bool.not_false, if_true] at hafter ⊢
            exact .inl ⟨_, s', rfl, Status.isError_error 14, hbefore.trans hafter⟩

/-- **The simulated services are exact** as long as calls are interrupted with
errors only. -/
theorem exact_services : services.Exact view where
  null_not_held hs _ hheld := hs.2.wellFormed.ne_null hheld rfl
  install_error := by
    intro s s' h h' p i status hs hcall herror
    rcases installProtocol_cases hs h p i with ⟨status', s'', hcall', -, hquiet⟩ |
      ⟨h'', s'', hcall', -⟩
    · cases hcall.symm.trans hcall'
      exact ⟨hquiet.valid hs, rfl, hquiet.held⟩
    · cases hcall.symm.trans hcall'
      cases herror.symm.trans Status.isError_success
  install_ok := by
    intro s s' h h' p i status hs hcall hok
    rcases installProtocol_cases hs h p i with ⟨status', s'', hcall', herror, -⟩ |
      ⟨h'', s'', hcall', hdone⟩
    · cases hcall.symm.trans hcall'
      cases hok.symm.trans herror
    · cases hcall.symm.trans hcall'
      exact hdone
  uninstall_error := by
    intro s s' h p i status hs hcall herror
    rcases uninstallProtocol_cases hs h p i with ⟨status', s'', hcall', -, hquiet⟩ |
      ⟨s'', hcall', -⟩
    · cases hcall.symm.trans hcall'
      exact ⟨hquiet.valid hs, hquiet.held⟩
    · cases hcall.symm.trans hcall'
      cases herror.symm.trans Status.isError_success
  uninstall_ok := by
    intro s s' h p i status hs hcall hok
    rcases uninstallProtocol_cases hs h p i with ⟨status', s'', hcall', herror, -⟩ |
      ⟨s'', hcall', hdone⟩
    · cases hcall.symm.trans hcall'
      cases hok.symm.trans herror
    · cases hcall.symm.trans hcall'
      exact hdone

end Stage

end EfiLoader.Simulation
