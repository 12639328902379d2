import EfiLoader.Proofs.Input

/-!
# EfiLoader.Proofs.Reader

What readers do with inputs whose bytes are known.  `Reader.Meets` speaks of
one run, of what it answers and of what it leaves unread; `Reader.Agree`
compares the runs over two sources that hand out the same bytes.  Both follow
the ways in which readers are put together:

* `Reader.Meets.bytes_bind`, `Reader.Meets.le_bind` — a field is read first;
* `Reader.Agree.bind` — one reader after another, with the bytes that each
  has used.
-/

namespace EfiLoader.Reader

variable {σ ε α β : Type} {src : Source σ} {left : ByteArray}

/-! ## runs -/

theorem bind_of_ok {m : Reader σ ε β} {f : β → Reader σ ε α} {inp inp' : Input σ} {b : β}
    (h : m inp = (.ok b, inp')) : (m >>= f) inp = f b inp' := by
  change (match m inp with | (r, inp') => ExceptT.bindCont f r inp') = f b inp'
  rw [h]
  rfl

theorem bind_of_error {m : Reader σ ε β} {f : β → Reader σ ε α} {inp inp' : Input σ} {e : ε}
    (h : m inp = (.error e, inp')) : (m >>= f) inp = (.error e, inp') := by
  change (match m inp with | (r, inp') => ExceptT.bindCont f r inp') = (.error e, inp')
  rw [h]
  rfl

/-- Nothing is read after a failure. -/
theorem throw_bind (e : ε) (f : β → Reader σ ε α) :
    (throw e : Reader σ ε β) >>= f = throw e := rfl

theorem liftExcept_ok_bind (b : β) (f : β → Reader σ ε α) :
    (liftExcept (.ok b : Except ε β) : Reader σ ε β) >>= f = f b := rfl

theorem liftExcept_error_bind (e : ε) (f : β → Reader σ ε α) :
    (liftExcept (.error e : Except ε β) : Reader σ ε β) >>= f = throw e := rfl

/-- Bytes that are there are read. -/
theorem bytes_of_le {inp : Input σ} (hinp : inp.Reads src left) (wrap : ReadError → ε) {n : Nat}
    (h : n ≤ left.size) :
    ∃ inp', bytes src wrap n inp = (.ok (left.extract 0 n), inp') ∧
      inp'.Reads src (Bytes.drop left n) := by
  obtain ⟨inp', htake, hinp'⟩ := hinp.takeOnto_of_le ByteArray.empty h
  refine ⟨inp', ?_, hinp'⟩
  rw [bytes, Input.take, htake, ByteArray.empty_append]

/-- Bytes that are not all there cannot be read. -/
theorem bytes_of_lt {inp : Input σ} (hinp : inp.Reads src left) (wrap : ReadError → ε) {n : Nat}
    (h : left.size < n) :
    ∃ inp', bytes src wrap n inp = (.error (wrap .exhausted), inp') := by
  have herror := hinp.takeOnto_of_lt ByteArray.empty h
  rcases htake : inp.takeOnto src n ByteArray.empty with ⟨r, taken, inp'⟩
  rw [htake] at herror
  simp only at herror
  refine ⟨inp', ?_⟩
  rw [bytes, Input.take, htake, herror]

/-! ## one run -/

/-- The answer, with the bytes that are left after it, satisfies `Q`. -/
def Ends (src : Source σ) (Q : Except ε (α × ByteArray) → Prop) :
    Except ε α × Input σ → Prop
  | (.ok a, inp) => ∃ rest, inp.Reads src rest ∧ Q (.ok (a, rest))
  | (.error e, _) => Q (.error e)

/-- An answer that does not depend on what is left. -/
theorem Ends.fst_eq {r : Except ε α} {run : Except ε α × Input σ}
    (h : Ends src (fun answer => answer.map Prod.fst = r) run) : run.1 = r := by
  obtain ⟨answer, inp⟩ := run
  cases answer with
  | error e => exact h
  | ok a =>
      obtain ⟨rest, -, hr⟩ := h
      exact hr

/-- On every input with the bytes `left`, the reader ends with `Q`. -/
def Meets (src : Source σ) (m : Reader σ ε α) (left : ByteArray)
    (Q : Except ε (α × ByteArray) → Prop) : Prop :=
  ∀ inp : Input σ, inp.Reads src left → Ends src Q (m inp)

namespace Meets

variable {Q : Except ε (α × ByteArray) → Prop}

protected theorem pure {a : α} (h : Q (.ok (a, left))) : Meets src (pure a) left Q :=
  fun _ hinp => ⟨left, hinp, h⟩

protected theorem throw {e : ε} (h : Q (.error e)) : Meets src (throw e) left Q :=
  fun _ _ => h

/-- What has been decided is not read. -/
protected theorem liftExcept {r : Except ε α} (h : Q (r.map (·, left))) :
    Meets src (liftExcept r) left Q := by
  cases r with
  | error e => exact Meets.throw h
  | ok a => exact Meets.pure h

/-- The second reader goes on with what the first one leaves. -/
protected theorem bind {m : Reader σ ε β} {f : β → Reader σ ε α}
    (h : Meets src m left fun
      | .ok (b, rest) => Meets src (f b) rest Q
      | .error e => Q (.error e)) :
    Meets src (m >>= f) left Q := by
  intro inp hinp
  have hm := h inp hinp
  cases hrun : m inp with
  | mk r inp' =>
    rw [hrun] at hm
    cases r with
    | ok b =>
        obtain ⟨rest, hinp', hf⟩ := hm
        rw [bind_of_ok hrun]
        exact hf inp' hinp'
    | error e =>
        rw [bind_of_error hrun]
        exact hm

/-- A reader may be asked for less. -/
theorem mono {Q' : Except ε (α × ByteArray) → Prop} {m : Reader σ ε α}
    (h : Meets src m left Q) (hQ : ∀ r, Q r → Q' r) : Meets src m left Q' := by
  intro inp hinp
  have hm := h inp hinp
  cases hrun : m inp with
  | mk r inp' =>
    rw [hrun] at hm
    cases r with
    | ok a =>
        obtain ⟨rest, hinp', ha⟩ := hm
        exact ⟨rest, hinp', hQ _ ha⟩
    | error e => exact hQ _ hm

/-- Bytes are read if they are there. -/
protected theorem bytes {wrap : ReadError → ε} {n : Nat}
    {Q : Except ε (ByteArray × ByteArray) → Prop}
    (hok : n ≤ left.size → Q (.ok (left.extract 0 n, Bytes.drop left n)))
    (hend : left.size < n → Q (.error (wrap .exhausted))) :
    Meets src (bytes src wrap n) left Q := by
  intro inp hinp
  by_cases h : n ≤ left.size
  · obtain ⟨inp', hrun, hinp'⟩ := bytes_of_le hinp wrap h
    rw [hrun]
    exact ⟨_, hinp', hok h⟩
  · obtain ⟨inp', hrun⟩ := bytes_of_lt hinp wrap (Nat.not_le.mp h)
    rw [hrun]
    exact hend (Nat.not_le.mp h)

/-- Bytes are read first, if they are there. -/
theorem bytes_bind {wrap : ReadError → ε} {n : Nat} {f : ByteArray → Reader σ ε α}
    (hok : ∀ bs rest : ByteArray, bs.size = n → left = bs ++ rest → Meets src (f bs) rest Q)
    (hend : left.size < n → Q (.error (wrap .exhausted))) :
    Meets src (Reader.bytes src wrap n >>= f) left Q := by
  refine Meets.bind (Meets.bytes (fun h => hok _ _ ?_ ?_) hend)
  · rw [ByteArray.size_extract]
    omega
  · rw [Bytes.extract_append_drop]

/-- Bytes that stand first are read first. -/
theorem bytes_append {wrap : ReadError → ε} {n : Nat} {f : ByteArray → Reader σ ε α}
    {bs rest : ByteArray} (hn : bs.size = n) (h : Meets src (f bs) rest Q) :
    Meets src (Reader.bytes src wrap n >>= f) (bs ++ rest) Q := by
  have hsize : n ≤ (bs ++ rest).size := by
    rw [ByteArray.size_append]
    omega
  refine Meets.bind (Meets.bytes (fun _ => ?_) fun hlt => absurd hsize (Nat.not_le.mpr hlt))
  rw [Bytes.drop_append rest hn.symm, ByteArray.extract_append_eq_left hn.symm]
  exact h

/-- A number is read first, if it is there. -/
theorem le_bind {wrap : ReadError → ε} {n : Nat} {f : Nat → Reader σ ε α}
    (hok : ∀ (v : Nat) (rest : ByteArray), v < 256 ^ n → left = Bytes.le n v ++ rest →
      Meets src (f v) rest Q)
    (hend : left.size < n → Q (.error (wrap .exhausted))) :
    Meets src (Reader.le src wrap n >>= f) left Q := by
  refine Meets.bind (Meets.bytes_bind (fun bs rest hsize hleft => Meets.pure ?_) hend)
  refine hok _ rest (Bytes.leNat_lt bs 0 n) ?_
  rw [hleft, Bytes.le_leNat_self hsize]

/-- A number that stands first is read first. -/
theorem le_append {wrap : ReadError → ε} {n v : Nat} {f : Nat → Reader σ ε α} {rest : ByteArray}
    (hv : v < 256 ^ n) (h : Meets src (f v) rest Q) :
    Meets src (Reader.le src wrap n >>= f) (Bytes.le n v ++ rest) Q := by
  refine Meets.bind (Meets.bytes_append (Bytes.size_le n v) (Meets.pure ?_))
  rw [Bytes.leNat_le hv]
  exact h

/-- Either way is taken. -/
protected theorem ite {c : Prop} [Decidable c] {m k : Reader σ ε α}
    (hm : c → Meets src m left Q) (hk : ¬c → Meets src k left Q) :
    Meets src (if c then m else k) left Q := by
  by_cases h : c
  · rw [if_pos h]
    exact hm h
  · rw [if_neg h]
    exact hk h

theorem check {c : Prop} [Decidable c] {e : ε} {f : PUnit → Reader σ ε α}
    (hfail : c → Q (.error e)) (hpass : ¬c → Meets src (f ⟨⟩) left Q) :
    Meets src (if c then throw e >>= f else f ⟨⟩) left Q :=
  Meets.ite (fun h => Meets.bind (Meets.throw (hfail h))) hpass

/-- The input is looked at first: its budget is at least what is left. -/
theorem get_bind {f : Input σ → Reader σ ε α}
    (h : ∀ inp : Input σ, left.size ≤ inp.budget → Meets src (f inp) left Q) :
    Meets src (get >>= f) left Q :=
  fun inp hinp => h inp hinp.size_le_budget inp hinp

end Meets

/-! ## two runs -/

variable {σ₁ σ₂ : Type} {src₁ : Source σ₁} {src₂ : Source σ₂}

/-- Two runs have ended alike: with the same answer and the same bytes left,
at least `used` fewer than `size`, or with the same error. -/
inductive SameEnd (src₁ : Source σ₁) (src₂ : Source σ₂) (size used : Nat) :
    Except ε α × Input σ₁ → Except ε α × Input σ₂ → Prop
  | ok (a : α) {inp₁ : Input σ₁} {inp₂ : Input σ₂} {rest : ByteArray}
      (left : inp₁.Reads src₁ rest) (right : inp₂.Reads src₂ rest)
      (size_le : rest.size + used ≤ size) : SameEnd src₁ src₂ size used (.ok a, inp₁) (.ok a, inp₂)
  | error (e : ε) (inp₁ : Input σ₁) (inp₂ : Input σ₂) :
      SameEnd src₁ src₂ size used (.error e, inp₁) (.error e, inp₂)

/-- The answers are the same. -/
theorem SameEnd.answer {size used : Nat} {end₁ : Except ε α × Input σ₁}
    {end₂ : Except ε α × Input σ₂} (h : SameEnd src₁ src₂ size used end₁ end₂) :
    end₁.1 = end₂.1 := by
  cases h <;> rfl

/-- On inputs with the same bytes `left`, the two readers end alike and use at
least `used` of the bytes if they answer. -/
def Agree (src₁ : Source σ₁) (src₂ : Source σ₂) (left : ByteArray) (used : Nat)
    (m₁ : Reader σ₁ ε α) (m₂ : Reader σ₂ ε α) : Prop :=
  ∀ (inp₁ : Input σ₁) (inp₂ : Input σ₂), inp₁.Reads src₁ left → inp₂.Reads src₂ left →
    SameEnd src₁ src₂ left.size used (m₁ inp₁) (m₂ inp₂)

namespace Agree

variable {used : Nat}

protected theorem pure (a : α) :
    Agree src₁ src₂ left 0 (pure a : Reader σ₁ ε α) (pure a : Reader σ₂ ε α) :=
  fun _ _ h₁ h₂ => .ok a h₁ h₂ (Nat.le_refl _)

protected theorem throw (e : ε) :
    Agree src₁ src₂ left used (throw e : Reader σ₁ ε α) (throw e : Reader σ₂ ε α) :=
  fun inp₁ inp₂ _ _ => .error e inp₁ inp₂

/-- At least as many bytes are used as may be said to be. -/
theorem mono {m₁ : Reader σ₁ ε α} {m₂ : Reader σ₂ ε α} {fewer : Nat}
    (h : Agree src₁ src₂ left used m₁ m₂) (hle : fewer ≤ used) :
    Agree src₁ src₂ left fewer m₁ m₂ := by
  intro inp₁ inp₂ h₁ h₂
  have hend := h inp₁ inp₂ h₁ h₂
  generalize m₁ inp₁ = run₁ at hend
  generalize m₂ inp₂ = run₂ at hend
  cases hend with
  | ok a h₁ h₂ hsize => exact .ok a h₁ h₂ (by omega)
  | error e inp₁ inp₂ => exact .error e inp₁ inp₂

/-- The second readers go on with what the first ones leave. -/
protected theorem bind {m₁ : Reader σ₁ ε β} {m₂ : Reader σ₂ ε β} {f₁ : β → Reader σ₁ ε α}
    {f₂ : β → Reader σ₂ ε α} (hm : Agree src₁ src₂ left used m₁ m₂)
    (hf : ∀ b (rest : ByteArray), rest.size + used ≤ left.size →
      Agree src₁ src₂ rest 0 (f₁ b) (f₂ b)) :
    Agree src₁ src₂ left used (m₁ >>= f₁) (m₂ >>= f₂) := by
  intro inp₁ inp₂ h₁ h₂
  have hend := hm inp₁ inp₂ h₁ h₂
  generalize hrun₁ : m₁ inp₁ = run₁ at hend
  generalize hrun₂ : m₂ inp₂ = run₂ at hend
  cases hend with
  | ok b h₁ h₂ hsize =>
      rw [bind_of_ok hrun₁, bind_of_ok hrun₂]
      generalize hrun₁' : f₁ b _ = run₁'
      generalize hrun₂' : f₂ b _ = run₂'
      have hend := hf b _ hsize _ _ h₁ h₂
      rw [hrun₁', hrun₂'] at hend
      cases hend with
      | ok a h₁ h₂ hsize' => exact .ok a h₁ h₂ (by omega)
      | error e inp₁ inp₂ => exact .error e inp₁ inp₂
  | error e inp₁' inp₂' =>
      rw [bind_of_error hrun₁, bind_of_error hrun₂]
      exact .error e inp₁' inp₂'

/-- Answers are changed alike. -/
protected theorem map (f : β → α) {m₁ : Reader σ₁ ε β} {m₂ : Reader σ₂ ε β}
    (h : Agree src₁ src₂ left used m₁ m₂) :
    Agree src₁ src₂ left used (f <$> m₁) (f <$> m₂) := by
  rw [map_eq_pure_bind, map_eq_pure_bind]
  exact h.bind fun _ _ _ => Agree.pure _

/-- Bytes are read alike. -/
protected theorem bytes (wrap : ReadError → ε) {n : Nat} (hn : used ≤ n) :
    Agree src₁ src₂ left used (bytes src₁ wrap n) (bytes src₂ wrap n) := by
  intro inp₁ inp₂ h₁ h₂
  by_cases h : n ≤ left.size
  · obtain ⟨inp₁', hrun₁, h₁'⟩ := bytes_of_le h₁ wrap h
    obtain ⟨inp₂', hrun₂, h₂'⟩ := bytes_of_le h₂ wrap h
    rw [hrun₁, hrun₂]
    exact .ok _ h₁' h₂' (by rw [Bytes.size_drop]; omega)
  · obtain ⟨inp₁', hrun₁⟩ := bytes_of_lt h₁ wrap (Nat.not_le.mp h)
    obtain ⟨inp₂', hrun₂⟩ := bytes_of_lt h₂ wrap (Nat.not_le.mp h)
    rw [hrun₁, hrun₂]
    exact .error _ inp₁' inp₂'

/-- So are numbers. -/
protected theorem le (wrap : ReadError → ε) {n : Nat} (hn : used ≤ n) :
    Agree src₁ src₂ left used (le src₁ wrap n) (le src₂ wrap n) :=
  Agree.bind (Agree.bytes wrap hn) fun _ _ _ => Agree.pure _

/-- Both readers take the same way. -/
protected theorem ite {c : Prop} [Decidable c] {m₁ k₁ : Reader σ₁ ε α} {m₂ k₂ : Reader σ₂ ε α}
    (hm : c → Agree src₁ src₂ left used m₁ m₂) (hk : ¬c → Agree src₁ src₂ left used k₁ k₂) :
    Agree src₁ src₂ left used (if c then m₁ else k₁) (if c then m₂ else k₂) := by
  by_cases h : c
  · rw [if_pos h, if_pos h]
    exact hm h
  · rw [if_neg h, if_neg h]
    exact hk h

theorem check {c : Prop} [Decidable c] {e : ε} {f₁ : PUnit → Reader σ₁ ε α}
    {f₂ : PUnit → Reader σ₂ ε α} (h : ¬c → Agree src₁ src₂ left used (f₁ ⟨⟩) (f₂ ⟨⟩)) :
    Agree src₁ src₂ left used (if c then throw e >>= f₁ else f₁ ⟨⟩)
      (if c then throw e >>= f₂ else f₂ ⟨⟩) :=
  Agree.ite (fun _ inp₁ inp₂ _ _ => .error e inp₁ inp₂) h

/-- The inputs are looked at: the budget of either is at least what is left. -/
theorem get_bind {f₁ : Input σ₁ → Reader σ₁ ε α} {f₂ : Input σ₂ → Reader σ₂ ε α}
    (h : ∀ (inp₁ : Input σ₁) (inp₂ : Input σ₂), left.size ≤ inp₁.budget →
      left.size ≤ inp₂.budget → Agree src₁ src₂ left used (f₁ inp₁) (f₂ inp₂)) :
    Agree src₁ src₂ left used (get >>= f₁) (get >>= f₂) :=
  fun inp₁ inp₂ h₁ h₂ => h inp₁ inp₂ h₁.size_le_budget h₂.size_le_budget inp₁ inp₂ h₁ h₂

end Agree

end EfiLoader.Reader
