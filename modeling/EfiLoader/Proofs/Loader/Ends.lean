import EfiLoader.Loader.Basic

/-!
# EfiLoader.Proofs.Loader.Ends

Where computations of the loader end, apart from the lines they write: an
equation for every way in which computations are put together.  A computation
that may fail and has answered can be taken apart with `ends_bind_eq_ok_iff`.
-/

namespace EfiLoader

open Log

variable {φ α β : Type}

/-! ## computations -/

namespace Loader

/-- The answer of a computation that starts from `s`, and the machine it leaves. -/
def ends (m : Loader φ α) (s : Machine φ) : α × Machine φ := (m.run s).value

theorem ends_bind (m : Loader φ α) (k : α → Loader φ β) (s : Machine φ) :
    ends (m >>= k) s = ends (k (ends m s).1) (ends m s).2 := rfl

@[simp] theorem ends_pure (a : α) (s : Machine φ) : ends (pure a) s = (a, s) := rfl

@[simp] theorem ends_call (m : StateM φ α) (s : Machine φ) :
    ends (call m) s = ((m s.firmware).1, { s with firmware := (m s.firmware).2 }) := rfl

@[simp] theorem ends_callSharing (m : Shared → StateM φ α) (s : Machine φ) :
    ends (callSharing m) s =
      ((m s.shared s.firmware).1, { s with firmware := (m s.shared s.firmware).2 }) := rfl

@[simp] theorem ends_hand (m : Shared → StateT φ Logged α) (s : Machine φ) :
    ends (hand m) s = ((m s.shared s.firmware).value.1,
      { s with firmware := (m s.shared s.firmware).value.2 }) := rfl

@[simp] theorem ends_shared (s : Machine φ) : ends shared s = (s.shared, s) := rfl

@[simp] theorem ends_modifyShared (f : Shared → Shared) (s : Machine φ) :
    ends (modifyShared f) s = ((), { s with shared := f s.shared }) := rfl

@[simp] theorem ends_modifyObjects (f : Objects → α × Objects) (s : Machine φ) :
    ends (modifyObjects f) s = ((f s.shared.objects).1,
      { s with shared := { s.shared with objects := (f s.shared.objects).2 } }) := rfl

@[simp] theorem ends_logged (x : Logged α) (s : Machine φ) :
    ends (liftM x : Loader φ α) s = (x.value, s) := rfl

/-- A line may be written or not. -/
theorem ends_note_if {c : Prop} [Decidable c] (e : Entry) (m : Loader φ α) (s : Machine φ) :
    ends (if c then (liftM (note e) : Loader φ Unit) >>= fun _ => m else m) s = ends m s := by
  split
  · rfl
  · rfl

end Loader

/-! ## computations that may fail -/

namespace Attempt

/-- The answer of a computation that starts from `s`, and the machine it leaves. -/
def ends (m : Attempt φ α) (s : Machine φ) : Except Status α × Machine φ := (m.run.run s).value

theorem ends_bind (m : Attempt φ α) (k : α → Attempt φ β) (s : Machine φ) :
    ends (m >>= k) s = match ends m s with
      | (.ok a, s) => ends (k a) s
      | (.error e, s) => (.error e, s) := by
  simp only [ends, ExceptT.run_bind, StateT.run_bind, Logged.value_bind]
  rcases (m.run.run s).value with ⟨_ | _, _⟩
  · rfl
  · rfl

/-- A sequence answers if both parts do. -/
theorem ends_bind_eq_ok_iff {m : Attempt φ α} {k : α → Attempt φ β} {s s' : Machine φ} {b : β} :
    ends (m >>= k) s = (.ok b, s') ↔
      ∃ a s₁, ends m s = (.ok a, s₁) ∧ ends (k a) s₁ = (.ok b, s') := by
  rw [ends_bind]
  rcases ends m s with ⟨e | a, s₁⟩
  · simp
  · constructor
    · intro h
      exact ⟨a, s₁, rfl, h⟩
    · rintro ⟨_, _, ⟨⟩, h⟩
      exact h

/-- It fails with the error of the first part that does. -/
theorem ends_bind_fst_eq_error_iff {m : Attempt φ α} {k : α → Attempt φ β} {s : Machine φ}
    {e : Status} :
    (ends (m >>= k) s).1 = .error e ↔
      (ends m s).1 = .error e ∨ ∃ a s₁, ends m s = (.ok a, s₁) ∧ (ends (k a) s₁).1 = .error e := by
  rw [ends_bind]
  rcases ends m s with ⟨e' | a, s₁⟩
  · simp
  · constructor
    · intro h
      exact .inr ⟨a, s₁, rfl, h⟩
    · rintro (⟨⟨⟩⟩ | ⟨_, _, ⟨⟩, h⟩)
      exact h

@[simp] theorem ends_pure (a : α) (s : Machine φ) : ends (pure a) s = (.ok a, s) := rfl

@[simp] theorem ends_throw (e : Status) (s : Machine φ) :
    ends (throw e : Attempt φ α) s = (.error e, s) := rfl

@[simp] theorem ends_logged (x : Logged α) (s : Machine φ) :
    ends (liftM x : Attempt φ α) s = (.ok x.value, s) := rfl

@[simp] theorem ends_lift (m : Loader φ α) (s : Machine φ) :
    ends (liftM m : Attempt φ α) s = (.ok (Loader.ends m s).1, (Loader.ends m s).2) := rfl

@[simp] theorem ends_lift' (m : Loader φ α) (s : Machine φ) :
    ends (ExceptT.lift m : Attempt φ α) s = (.ok (Loader.ends m s).1, (Loader.ends m s).2) := rfl

@[simp] theorem ends_ofLoader (m : Loader φ (Except Status α)) (s : Machine φ) :
    ends (ofLoader m) s = Loader.ends m s := rfl

@[simp] theorem ends_settle [Fault ε] (r : Except ε α) (s : Machine φ) :
    ends (settle r : Attempt φ α) s = (r.mapError Fault.status, s) := by
  cases r with
  | error e => rfl
  | ok a => rfl

/-- The line that is written of a failure does not change it. -/
@[simp] theorem ends_noting (m : Attempt φ α) (line : Status → Entry) (s : Machine φ) :
    ends (m.noting line) s = ends m s := by
  refine (Loader.ends_bind m.run _ s).trans ?_
  change Loader.ends _ (ends m s).2 = _
  rcases hends : ends m s with ⟨e | a, s'⟩
  · have hfirst : (Loader.ends m.run s) = (.error e, s') := hends
    rw [hfirst]
    rfl
  · have hfirst : (Loader.ends m.run s) = (.ok a, s') := hends
    rw [hfirst]
    rfl

theorem ends_orElseDo (m : Attempt φ α) (cleanUp : Loader φ Unit) (s : Machine φ) :
    ends (m.orElseDo cleanUp) s = match ends m s with
      | (.ok a, s) => (.ok a, s)
      | (.error e, s) => (.error e, (Loader.ends cleanUp s).2) := by
  refine (Loader.ends_bind m.run _ s).trans ?_
  rcases hends : ends m s with ⟨e | a, s'⟩
  · have hfirst : (Loader.ends m.run s) = (.error e, s') := hends
    rw [hfirst]
    rfl
  · have hfirst : (Loader.ends m.run s) = (.ok a, s') := hends
    rw [hfirst]
    rfl

end Attempt

end EfiLoader
