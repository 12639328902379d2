import EfiLoader.Proofs.Firmware.Holdings
import EfiLoader.Uefi.Firmware

/-!
# EfiLoader.Proofs.Uefi.Exact

Boot services that are exact about interfaces: a call that fails changes
nothing that handles carry, and a call that succeeds adds or removes what it is
asked for.

* `Exact` — what exact services do;
* `Adds.result`, `Removes.result` — what handles carry after calls for the
  interfaces of a list that all succeed.
-/

namespace EfiLoader.Uefi

namespace BootServices

variable {β : Type}

/-- A call that fails leaves handles as they are; one that succeeds adds its
interface to a handle that did not carry it, or removes it from the handle that
carries it.  A null handle stands for a new one. -/
structure Exact (s : BootServices β) (v : HandleView β) : Prop where
  null_not_held {b : β} : v.Valid b → ∀ i, (Handle.null, i) ∉ v.held b
  install_error {b b' : β} {h h' : Handle} {p : Protocol} {i : Interface} {status : Status} :
    v.Valid b → s.installProtocol h p i b = ((status, h'), b') → status.isError = true →
    v.Valid b' ∧ h' = h ∧ v.held b' = v.held b
  install_ok {b b' : β} {h h' : Handle} {p : Protocol} {i : Interface} {status : Status} :
    v.Valid b → s.installProtocol h p i b = ((status, h'), b') → status.isError = false →
    v.Valid b' ∧ (h ≠ Handle.null → h' = h) ∧ (h = Handle.null → ∀ j, (h', j) ∉ v.held b) ∧
      (h', p, i) ∉ v.held b ∧ v.held b' = v.held b ∪ {(h', p, i)}
  uninstall_error {b b' : β} {h : Handle} {p : Protocol} {i : Interface} {status : Status} :
    v.Valid b → s.uninstallProtocol h p i b = (status, b') → status.isError = true →
    v.Valid b' ∧ v.held b' = v.held b
  uninstall_ok {b b' : β} {h : Handle} {p : Protocol} {i : Interface} {status : Status} :
    v.Valid b → s.uninstallProtocol h p i b = (status, b') → status.isError = false →
    v.Valid b' ∧ (h, p, i) ∈ v.held b ∧ v.held b' = v.held b \ {(h, p, i)}

/-! ## calls that all succeed -/

/-- The interfaces of a list are added to a handle, one call after the other,
and every call succeeds.  The first call makes the handle if it is null. -/
inductive Adds (s : BootServices β) : Handle → β → Interfaces → Handle → β → Prop
  | nil (h : Handle) (b : β) : Adds s h b [] h b
  | cons {h h₁ h' : Handle} {b b₁ b' : β} {p : Protocol} {i : Interface} {rest : Interfaces}
      {status : Status} : s.installProtocol h p i b = ((status, h₁), b₁) →
      status.isError = false → Adds s h₁ b₁ rest h' b' → Adds s h b ((p, i) :: rest) h' b'

/-- The interfaces of a list are removed from a handle, one call after the
other, and every call succeeds. -/
inductive Removes (s : BootServices β) (h : Handle) : β → Interfaces → β → Prop
  | nil (b : β) : Removes s h b [] b
  | cons {b b₁ b' : β} {p : Protocol} {i : Interface} {rest : Interfaces} {status : Status} :
      s.uninstallProtocol h p i b = (status, b₁) → status.isError = false →
      Removes s h b₁ rest b' → Removes s h b ((p, i) :: rest) b'

variable {s : BootServices β} {v : HandleView β}

/-- After calls that all succeed one handle carries what it was given, which
nobody had carried, and everything else is as it was. -/
structure Adds.Result (v : HandleView β) (h : Handle) (b : β) (is : Interfaces) (h' : Handle)
    (b' : β) : Prop where
  valid : v.Valid b'
  same : h ≠ Handle.null → h' = h
  new : h = Handle.null → ∀ j, (h', j) ∉ v.held b
  unheld : ∀ i ∈ is, (h', i) ∉ v.held b
  held : v.held b' = v.held b ∪ Holdings.on h' is

/-- A handle that was made by the first call is there for the others. -/
theorem Adds.result (exact : s.Exact v) {h h' : Handle} {b b' : β} {is : Interfaces}
    (hadds : Adds s h b is h' b') (hb : v.Valid b) : Adds.Result v h b is h' b' := by
  induction hadds with
  | nil h b =>
      refine ⟨hb, fun _ => rfl, ?_, by simp, by simp⟩
      rintro rfl
      exact exact.null_not_held hb
  | @cons h h₁ h' b b₁ b' p i rest status hcall hstatus hrest ih =>
      obtain ⟨hb₁, hsame, hnew, hunheld, hheld⟩ := exact.install_ok hb hcall hstatus
      have hlater := ih hb₁
      have hmem : (h₁, p, i) ∈ v.held b₁ := hheld ▸ .inr rfl
      have hkept : h' = h₁ := hlater.same fun hnull => exact.null_not_held hb₁ (p, i) (hnull ▸ hmem)
      subst hkept
      refine ⟨hlater.valid, hsame, hnew, ?_, ?_⟩
      · intro j hj
        rcases List.mem_cons.mp hj with rfl | hj
        · exact hunheld
        · exact fun hold => hlater.unheld j hj (hheld ▸ .inl hold)
      · rw [hlater.held, hheld, Holdings.on_cons, Set.union_assoc]

/-- After calls that all succeed a handle has lost what it was to lose, all of
which it had carried. -/
structure Removes.Result (v : HandleView β) (h : Handle) (b : β) (is : Interfaces) (b' : β) :
    Prop where
  valid : v.Valid b'
  present : Holdings.on h is ⊆ v.held b
  held : v.held b' = v.held b \ Holdings.on h is

theorem Removes.result (exact : s.Exact v) {h : Handle} {b b' : β} {is : Interfaces}
    (hremoves : Removes s h b is b') (hb : v.Valid b) : Removes.Result v h b is b' := by
  induction hremoves with
  | nil b => exact ⟨hb, by simp, by simp⟩
  | cons hcall hstatus hrest ih =>
      obtain ⟨hb₁, hmem, hheld⟩ := exact.uninstall_ok hb hcall hstatus
      have hlater := ih hb₁
      have hpresent := hlater.present
      rw [hheld] at hpresent
      refine ⟨hlater.valid, ?_, ?_⟩
      · rw [Holdings.on_cons]
        exact Set.union_subset (Set.singleton_subset_iff.mpr hmem)
          (hpresent.trans Set.sdiff_subset)
      · rw [hlater.held, hheld, Holdings.on_cons, Set.sdiff_sdiff]

end BootServices

end EfiLoader.Uefi
