/-!
# EfiLoader.Proofs.Except

Chains of checks.  A function that checks its input is a run of guarded
`throw`s in front of its answer; the lemmas below turn such a run into the
conjunction of its checks, or into the check that failed first.
-/

namespace EfiLoader

@[simp] theorem ok_bind (a : α) (f : α → Except ε β) : (Except.ok a >>= f) = f a := rfl

@[simp] theorem error_bind (e : ε) (f : α → Except ε β) :
    ((Except.error e : Except ε α) >>= f) = .error e := rfl

/-- A sequence succeeds if both parts do. -/
theorem bind_eq_ok_iff {x : Except ε α} {f : α → Except ε β} {b : β} :
    (x >>= f) = .ok b ↔ ∃ a, x = .ok a ∧ f a = .ok b := by
  cases x with
  | error e => simp
  | ok a => simp

/-- A sequence fails if its first part does, or the second after the first. -/
theorem bind_eq_error_iff {x : Except ε α} {f : α → Except ε β} {e : ε} :
    (x >>= f) = .error e ↔ x = .error e ∨ ∃ a, x = .ok a ∧ f a = .error e := by
  cases x with
  | error e => simp
  | ok a => simp

@[simp] theorem mapError_ok (a : α) (f : ε → ε') : (Except.ok a).mapError f = .ok a := rfl

@[simp] theorem mapError_error (e : ε) (f : ε → ε') :
    (Except.error e : Except ε α).mapError f = .error (f e) := rfl

/-- Another error is not a success. -/
@[simp] theorem mapError_eq_ok_iff {x : Except ε α} {f : ε → ε'} {a : α} :
    x.mapError f = .ok a ↔ x = .ok a := by
  cases x with
  | error e => simp
  | ok b => simp

/-- An answer is compared as an option where its errors have no decidable equality. -/
theorem toOption_eq_some_iff {x : Except ε α} {a : α} : x.toOption = some a ↔ x = .ok a := by
  cases x with
  | error e => simp [Except.toOption]
  | ok b => simp [Except.toOption]

/-- A chain of checks succeeds if the first check passes and the others
succeed. -/
theorem ite_throw_eq_ok_iff {c : Prop} [Decidable c] {e : ε} {f : β → Except ε α}
    {m : Except ε α} {a : α} :
    (if c then (throw e : Except ε β) >>= f else m) = .ok a ↔ ¬ c ∧ m = .ok a := by
  by_cases hc : c
  · rw [if_pos hc]
    constructor
    · intro h
      cases h
    · intro h
      exact absurd hc h.1
  · rw [if_neg hc]
    simp [hc]

/-- A chain of checks fails with the error of the first check that fails. -/
theorem ite_throw_eq_error_iff {c : Prop} [Decidable c] {e x : ε} {f : β → Except ε α}
    {m : Except ε α} :
    (if c then (throw e : Except ε β) >>= f else m) = .error x ↔
      c ∧ e = x ∨ ¬ c ∧ m = .error x := by
  by_cases hc : c
  · rw [if_pos hc]
    constructor
    · intro h
      cases h
      exact .inl ⟨hc, rfl⟩
    · rintro (⟨_, rfl⟩ | ⟨hn, _⟩)
      · rfl
      · exact absurd hc hn
  · rw [if_neg hc]
    simp [hc]

end EfiLoader
