import EfiLoader.Loader.Basic

/-!
# EfiLoader.Proofs.Lockstep

Computations in lockstep.  Two computations over states of their own are in
lockstep if from related states they give the same answer and leave related
states.  With a relation that says more than that the states belong together,
this is also how a fact is carried through a computation:

* `Alike` — calls that keep a relation and answer with `A` only;
* `Lockstep` — computations that write lines, from one relation to another;
* `Maintains` — computations that may fail keep a relation and fail with `E` only;
* `FailsAt` — a computation fails with `G` only, of its error and where it ends.

Each comes with rules for the ways in which computations are put together.
-/

namespace EfiLoader

open Log

variable {σ τ α β ε : Type}

/-! ## errors -/

/-- The result is no error without `E`. -/
def OnlyFails (E : ε → Prop) (r : Except ε α) : Prop := ∀ e, r = .error e → E e

namespace OnlyFails

variable {E : ε → Prop}

theorem ok (a : α) : OnlyFails E (.ok a : Except ε α) := by
  intro e he
  cases he

theorem error {e : ε} (h : E e) : OnlyFails E (.error e : Except ε α) := by
  intro e' he'
  cases he'
  exact h

end OnlyFails

/-- Every error of the type has an error code as its status. -/
def Fault.Coded (ε : Type) [Fault ε] : Prop := ∀ e : ε, ∃ n, Fault.status e = Status.error n

/-- What holds of all error codes holds of the status of such an error. -/
theorem Fault.Coded.status [Fault ε] (h : Fault.Coded ε) {E : Status → Prop}
    (hE : ∀ n, E (Status.error n)) (e : ε) : E (Fault.status e) := by
  obtain ⟨n, hn⟩ := h e
  rw [hn]
  exact hE n

/-! ## calls -/

/-- From states with `R`, both calls give the same answer, which has `A`, and
leave states with `R`. -/
def Alike (R : σ → τ → Prop) (A : α → Prop) (m : StateM σ α) (m' : StateM τ α) : Prop :=
  ∀ s t, R s t → (m s).1 = (m' t).1 ∧ A (m s).1 ∧ R (m s).2 (m' t).2

namespace Alike

variable {R : σ → τ → Prop} {A : α → Prop}

protected theorem pure {a : α} (h : A a) : Alike R A (pure a) (pure a) :=
  fun _ _ hst => ⟨rfl, h, hst⟩

protected theorem bind {B : β → Prop} {m : StateM σ β} {m' : StateM τ β} {f : β → StateM σ α}
    {f' : β → StateM τ α} (hm : Alike R B m m') (hf : ∀ b, B b → Alike R A (f b) (f' b)) :
    Alike R A (m >>= f) (m' >>= f') := by
  intro s t hst
  obtain ⟨hanswer, hb, hleft⟩ := hm s t hst
  have hnext := hf _ hb _ _ hleft
  rw [show (m' >>= f') t = f' (m s).1 (m' t).2 by rw [hanswer]; rfl]
  exact hnext

theorem mono {B : α → Prop} {m : StateM σ α} {m' : StateM τ α} (h : Alike R A m m')
    (hA : ∀ a, A a → B a) : Alike R B m m' := by
  intro s t hst
  obtain ⟨hanswer, ha, hleft⟩ := h s t hst
  exact ⟨hanswer, hA _ ha, hleft⟩

end Alike

/-! ## computations that write lines -/

/-- From states with `P`, both computations write the same lines and give the
same answer, and leave states with `Q`. -/
def Lockstep (P : σ → τ → Prop) (m : StateT σ Logged α) (m' : StateT τ Logged α)
    (Q : α → σ → τ → Prop) : Prop :=
  ∀ s t, P s t → (m s).lines = (m' t).lines ∧ (m s).value.1 = (m' t).value.1 ∧
    Q (m s).value.1 (m s).value.2 (m' t).value.2

namespace Lockstep

variable {P : σ → τ → Prop} {Q : α → σ → τ → Prop}

protected theorem pure {a : α} (h : ∀ s t, P s t → Q a s t) : Lockstep P (pure a) (pure a) Q :=
  fun s t hst => ⟨rfl, rfl, h s t hst⟩

/-- The second computations go on with what the first ones leave, whose
answers only have to belong together. -/
theorem bind_of_related {β' : Type} {M : β → β' → σ → τ → Prop} {m : StateT σ Logged β}
    {m' : StateT τ Logged β'} {f : β → StateT σ Logged α} {f' : β' → StateT τ Logged α}
    (hm : ∀ s t, P s t → (m s).lines = (m' t).lines ∧
      M (m s).value.1 (m' t).value.1 (m s).value.2 (m' t).value.2)
    (hf : ∀ b b', Lockstep (M b b') (f b) (f' b') Q) : Lockstep P (m >>= f) (m' >>= f') Q := by
  intro s t hst
  obtain ⟨hlines, hleft⟩ := hm s t hst
  obtain ⟨hlines', hanswer', hleft'⟩ := hf _ _ _ _ hleft
  have hrun : (m >>= f) s = ⟨(m s).lines ++ (f (m s).value.1 (m s).value.2).lines,
      (f (m s).value.1 (m s).value.2).value⟩ := rfl
  have hrun' : (m' >>= f') t = ⟨(m' t).lines ++ (f' (m' t).value.1 (m' t).value.2).lines,
      (f' (m' t).value.1 (m' t).value.2).value⟩ := rfl
  rw [hrun, hrun', hlines, hlines']
  exact ⟨rfl, hanswer', hleft'⟩

/-- The second computations go on with what the first ones leave. -/
protected theorem bind {M : β → σ → τ → Prop} {m : StateT σ Logged β} {m' : StateT τ Logged β}
    {f : β → StateT σ Logged α} {f' : β → StateT τ Logged α} (hm : Lockstep P m m' M)
    (hf : ∀ b, Lockstep (M b) (f b) (f' b) Q) : Lockstep P (m >>= f) (m' >>= f') Q := by
  refine bind_of_related (M := fun b b' s t => b = b' ∧ M b s t) hm fun b b' s t hst => ?_
  obtain ⟨rfl, hst⟩ := hst
  exact hf b s t hst

theorem mono {P' : σ → τ → Prop} {Q' : α → σ → τ → Prop} {m : StateT σ Logged α}
    {m' : StateT τ Logged α} (h : Lockstep P m m' Q) (hP : ∀ s t, P' s t → P s t)
    (hQ : ∀ a s t, Q a s t → Q' a s t) : Lockstep P' m m' Q' := by
  intro s t hst
  obtain ⟨hlines, hanswer, hleft⟩ := h s t (hP s t hst)
  exact ⟨hlines, hanswer, hQ _ _ _ hleft⟩

/-- Facts that do not depend on the states can be taken out of the condition. -/
theorem of_and {p : Prop} {m : StateT σ Logged α} {m' : StateT τ Logged α}
    (h : p → Lockstep P m m' Q) : Lockstep (fun s t => p ∧ P s t) m m' Q :=
  fun s t hst => h hst.1 s t hst.2

/-- Either condition is enough. -/
theorem of_or {P' : σ → τ → Prop} {m : StateT σ Logged α} {m' : StateT τ Logged α}
    (h : Lockstep P m m' Q) (h' : Lockstep P' m m' Q) :
    Lockstep (fun s t => P s t ∨ P' s t) m m' Q :=
  fun s t hst => hst.elim (h s t) (h' s t)

theorem logged {x : Logged α} (h : ∀ s t, P s t → Q x.value s t) :
    Lockstep P (liftM x) (liftM x) Q :=
  fun s t hst => ⟨rfl, rfl, h s t hst⟩

theorem note_bind {e : Entry} {m : StateT σ Logged α} {m' : StateT τ Logged α}
    (h : Lockstep P m m' Q) :
    Lockstep P ((liftM (note e) : StateT σ Logged Unit) >>= fun _ => m)
      ((liftM (note e) : StateT τ Logged Unit) >>= fun _ => m') Q :=
  Lockstep.bind (logged fun _ _ hst => hst) fun _ => h

/-- A line may be written or not. -/
theorem note_if_bind {c : Prop} [Decidable c] {e : Entry} {m : StateT σ Logged α}
    {m' : StateT τ Logged α} (h : Lockstep P m m' Q) :
    Lockstep P
      (do
        if c then
          (liftM (note e) : StateT σ Logged Unit)
        m)
      (do
        if c then
          (liftM (note e) : StateT τ Logged Unit)
        m') Q := by
  dsimp only
  split
  · exact note_bind h
  · exact h

end Lockstep

/-! ## computations that may fail -/

/-- From states with `R`, both computations end alike, leave states with `R`
and fail with `E` only. -/
def Maintains (R : σ → τ → Prop) (E : ε → Prop) (m : ExceptT ε (StateT σ Logged) α)
    (m' : ExceptT ε (StateT τ Logged) α) : Prop :=
  Lockstep R m.run m'.run fun r s t => OnlyFails E r ∧ R s t

namespace Maintains

variable {R : σ → τ → Prop} {E : ε → Prop}

protected theorem pure (a : α) :
    Maintains R E (pure a : ExceptT ε (StateT σ Logged) α) (pure a) :=
  Lockstep.pure fun _ _ hst => ⟨OnlyFails.ok a, hst⟩

protected theorem throw {e : ε} (h : E e) :
    Maintains R E (throw e : ExceptT ε (StateT σ Logged) α) (throw e) :=
  Lockstep.pure fun _ _ hst => ⟨OnlyFails.error h, hst⟩

protected theorem bind {m : ExceptT ε (StateT σ Logged) β} {m' : ExceptT ε (StateT τ Logged) β}
    {f : β → ExceptT ε (StateT σ Logged) α} {f' : β → ExceptT ε (StateT τ Logged) α}
    (hm : Maintains R E m m') (hf : ∀ b, Maintains R E (f b) (f' b)) :
    Maintains R E (m >>= f) (m' >>= f') := by
  refine Lockstep.bind hm fun r => Lockstep.of_and fun hr => ?_
  cases r with
  | ok b => exact hf b
  | error e => exact Lockstep.pure fun _ _ hst => ⟨OnlyFails.error (hr e rfl), hst⟩

protected theorem map (f : β → α) {m : ExceptT ε (StateT σ Logged) β}
    {m' : ExceptT ε (StateT τ Logged) β} (h : Maintains R E m m') :
    Maintains R E (f <$> m) (f <$> m') := by
  rw [map_eq_pure_bind, map_eq_pure_bind]
  exact h.bind fun b => Maintains.pure (f b)

/-- A computation that cannot fail. -/
theorem lift {m : StateT σ Logged α} {m' : StateT τ Logged α}
    (h : Lockstep R m m' fun _ => R) :
    Maintains R E (ExceptT.lift m) (ExceptT.lift m') :=
  Lockstep.bind h fun a => Lockstep.pure fun _ _ hst => ⟨OnlyFails.ok a, hst⟩

/-- A computation that cannot fail, whose answer has `A`, is run first. -/
theorem lift_bind {A : β → Prop} {m : StateT σ Logged β} {m' : StateT τ Logged β}
    {f : β → ExceptT ε (StateT σ Logged) α} {f' : β → ExceptT ε (StateT τ Logged) α}
    (h : Lockstep R m m' fun a s t => A a ∧ R s t)
    (hf : ∀ a, A a → Maintains R E (f a) (f' a)) :
    Maintains R E (ExceptT.lift m >>= f) (ExceptT.lift m' >>= f') := by
  have hlift : Lockstep R (ExceptT.lift m : ExceptT ε (StateT σ Logged) β).run
      (ExceptT.lift m' : ExceptT ε (StateT τ Logged) β).run
      fun r s t => (∃ a, r = .ok a ∧ A a) ∧ R s t :=
    Lockstep.bind h fun a => Lockstep.pure fun _ _ hst => ⟨⟨a, rfl, hst.1⟩, hst.2⟩
  refine Lockstep.bind hlift fun r => Lockstep.of_and fun hr => ?_
  obtain ⟨a, rfl, ha⟩ := hr
  exact hf a ha

theorem logged (x : Logged α) :
    Maintains R E (liftM x : ExceptT ε (StateT σ Logged) α) (liftM x) :=
  lift (Lockstep.logged fun _ _ hst => hst)

/-- From related states, the second computation fails with `E` only. -/
theorem onlyFails {m : ExceptT ε (StateT σ Logged) α} {m' : ExceptT ε (StateT τ Logged) α}
    (h : Maintains R E m m') {s : σ} {t : τ} (hst : R s t) :
    OnlyFails E (m'.run.run t).value.1 := by
  obtain ⟨-, hanswer, hfails, -⟩ := h s t hst
  intro e he
  exact hfails e (hanswer.trans he)

theorem note_bind {e : Entry} {m : ExceptT ε (StateT σ Logged) α}
    {m' : ExceptT ε (StateT τ Logged) α} (h : Maintains R E m m') :
    Maintains R E ((liftM (note e) : ExceptT ε (StateT σ Logged) Unit) >>= fun _ => m)
      ((liftM (note e) : ExceptT ε (StateT τ Logged) Unit) >>= fun _ => m') :=
  Maintains.bind (logged _) fun _ => h

end Maintains

/-! ## where a computation fails -/

/-- Where the computation ends with an error, `G` holds of both. -/
def FailsAt (G : ε → σ → Prop) (m : ExceptT ε (StateT σ Logged) α) : Prop :=
  ∀ s e s', (m.run.run s).value = (.error e, s') → G e s'

namespace FailsAt

variable {G : ε → σ → Prop}

protected theorem pure (a : α) : FailsAt G (pure a : ExceptT ε (StateT σ Logged) α) := by
  intro s e s' h
  cases h

protected theorem throw {e : ε} (h : ∀ s, G e s) :
    FailsAt G (throw e : ExceptT ε (StateT σ Logged) α) := by
  intro s e' s' hend
  cases hend
  exact h s

/-- A sequence fails where either part does; the second one goes on with an answer
of the first. -/
theorem bind_of_answer {m : ExceptT ε (StateT σ Logged) β}
    {f : β → ExceptT ε (StateT σ Logged) α} (hm : FailsAt G m)
    (hf : ∀ b, (∃ s, (m.run.run s).value.1 = .ok b) → FailsAt G (f b)) : FailsAt G (m >>= f) := by
  intro s e s' h
  rw [ExceptT.run_bind, StateT.run_bind, Logged.value_bind] at h
  have hfirst := hm s
  have hanswer : ∀ b, (m.run.run s).value.1 = .ok b → FailsAt G (f b) := fun b hb => hf b ⟨s, hb⟩
  generalize (m.run.run s).value = answer at h hfirst hanswer
  obtain ⟨e₁ | b, s₁⟩ := answer
  · cases h
    exact hfirst _ _ rfl
  · exact hanswer b rfl s₁ e s' h

protected theorem bind {m : ExceptT ε (StateT σ Logged) β}
    {f : β → ExceptT ε (StateT σ Logged) α} (hm : FailsAt G m) (hf : ∀ b, FailsAt G (f b)) :
    FailsAt G (m >>= f) :=
  bind_of_answer hm fun b _ => hf b

theorem note_bind {e : Entry} {m : ExceptT ε (StateT σ Logged) α} (h : FailsAt G m) :
    FailsAt G ((liftM (note e) : ExceptT ε (StateT σ Logged) Unit) >>= fun _ => m) :=
  FailsAt.bind (fun _ _ _ hend => nomatch hend) fun _ => h

/-- A computation that fails with `E` only, wherever it ends. -/
theorem of_maintains {R : τ → σ → Prop} {E : ε → Prop} {m : ExceptT ε (StateT τ Logged) α}
    {m' : ExceptT ε (StateT σ Logged) α} (h : Maintains R E m m') (hR : ∀ s, ∃ t, R t s)
    (hE : ∀ e s, E e → G e s) : FailsAt G m' := by
  intro s e s' hend
  obtain ⟨t, ht⟩ := hR s
  exact hE e s' (h.onlyFails ht e (congrArg Prod.fst hend))

/-- So does a computation in lockstep with it. -/
theorem lockstep {R : τ → σ → Prop} {E : ε → Prop} {m : ExceptT ε (StateT τ Logged) α}
    {m' : ExceptT ε (StateT σ Logged) α} (h : FailsAt G m') (hm : Maintains R E m m') :
    Lockstep R m.run m'.run fun r t s => (∀ e, r = .error e → G e s) ∧ R t s := by
  intro t s hts
  obtain ⟨hlines, hanswer, -, hleft⟩ := hm t s hts
  exact ⟨hlines, hanswer, fun e he => h s e _ (Prod.ext (hanswer.symm.trans he) rfl), hleft⟩

end FailsAt

end EfiLoader
