import EfiLoader.Loader.Basic

/-!
# EfiLoader.Proofs.Loader.Ensures

What computations of the loader ensure.  `Ensures P m Q` says that from every
machine with `P` the computation `m` ends with an answer and a machine with
`Q`; a computation that may fail has one condition for either way out.  The
rules follow the ways in which computations are put together:

* `Loader.Ensures.bind`, `Attempt.Ensures.bind` — one after the other;
* `Loader.Ensures.call` — a call of the firmware;
* `Attempt.Ensures.orElseDo` — cleaning up after a failure.
-/

namespace EfiLoader

open Log

variable {φ α β : Type}

/-! ## computations -/

/-- From a machine with `P`, the computation ends with `Q`. -/
def Loader.Ensures (P : Machine φ → Prop) (m : Loader φ α) (Q : α → Machine φ → Prop) : Prop :=
  ∀ s, P s → Q (m s).value.1 (m s).value.2

namespace Loader.Ensures

variable {P P' : Machine φ → Prop} {Q : α → Machine φ → Prop}

/-- An answer that is there ends with what has been ensured of it. -/
protected theorem pure {a : α} (h : ∀ s, P s → Q a s) : Ensures P (pure a) Q := h

/-- What the first computation ensures is where the second one starts. -/
protected theorem bind {R : β → Machine φ → Prop} {m : Loader φ β} {f : β → Loader φ α}
    (hm : Ensures P m R) (hf : ∀ b, Ensures (R b) (f b) Q) : Ensures P (m >>= f) Q :=
  fun s hs => hf _ _ (hm s hs)

theorem mono {Q' : α → Machine φ → Prop} {m : Loader φ α} (h : Ensures P m Q)
    (hP : ∀ s, P' s → P s) (hQ : ∀ a s, Q a s → Q' a s) : Ensures P' m Q' :=
  fun s hs => hQ _ _ (h s (hP s hs))

/-- Facts that do not depend on the machine can be taken out of the
condition. -/
theorem of_and {p : Prop} {m : Loader φ α} (h : p → Ensures P m Q) :
    Ensures (fun s => p ∧ P s) m Q :=
  fun s hs => h hs.1 s hs.2

/-- What is said to exist in the condition can be named. -/
theorem of_exists {ι : Type} {P : ι → Machine φ → Prop} {m : Loader φ α}
    (h : ∀ i, Ensures (P i) m Q) : Ensures (fun s => ∃ i, P i s) m Q :=
  fun s ⟨i, hs⟩ => h i s hs

theorem logged {x : Logged α} (h : ∀ s, P s → Q x.value s) :
    Ensures P (liftM x : Loader φ α) Q := h

theorem note_bind {e : Entry} {m : Loader φ α} (h : Ensures P m Q) :
    Ensures P ((liftM (note e) : Loader φ Unit) >>= fun _ => m) Q := h

/-- A line may be written or not. -/
theorem note_if_bind {c : Prop} [Decidable c] {e : Entry} {m : Loader φ α} (h : Ensures P m Q) :
    Ensures P
      (do
        if c then
          note e
        m) Q := by
  dsimp only
  split
  · exact note_bind h
  · exact h

/-- A call of the firmware leaves what is shared as it is. -/
theorem call {m : StateM φ α}
    (h : ∀ s, P s → Q (m s.firmware).1 { s with firmware := (m s.firmware).2 }) :
    Ensures P (Loader.call m) Q := h

/-- So does one that gets what is shared. -/
theorem callSharing {m : Shared → StateM φ α}
    (h : ∀ s, P s → Q (m s.shared s.firmware).1
      { s with firmware := (m s.shared s.firmware).2 }) :
    Ensures P (Loader.callSharing m) Q := h

/-- So does code outside the loader. -/
theorem hand {m : Shared → StateT φ Logged α}
    (h : ∀ s, P s → Q (m s.shared s.firmware).value.1
      { s with firmware := (m s.shared s.firmware).value.2 }) :
    Ensures P (Loader.hand m) Q := h

/-- Changing what is shared leaves the firmware as it is. -/
theorem modifyShared {f : Shared → Shared} {Q : Unit → Machine φ → Prop}
    (h : ∀ s, P s → Q () { s with shared := f s.shared }) :
    Ensures P (Loader.modifyShared f) Q := h

/-- So does changing the objects. -/
theorem modifyObjects {f : Objects → α × Objects}
    (h : ∀ s, P s → Q (f s.shared.objects).1
      { s with shared := { s.shared with objects := (f s.shared.objects).2 } }) :
    Ensures P (Loader.modifyObjects f) Q := h

theorem shared {Q : Shared → Machine φ → Prop} (h : ∀ s, P s → Q s.shared s) :
    Ensures P Loader.shared Q := h

end Loader.Ensures

/-! ## computations that may fail -/

/-- From a machine with `P`, the computation answers with `Q` or fails with
`E`. -/
def Attempt.Ensures (P : Machine φ → Prop) (m : Attempt φ α) (Q : α → Machine φ → Prop)
    (E : Machine φ → Prop) : Prop :=
  Loader.Ensures P m.run fun r s =>
    match r with
    | .ok a => Q a s
    | .error _ => E s

namespace Attempt.Ensures

variable {P : Machine φ → Prop} {Q : α → Machine φ → Prop} {E : Machine φ → Prop}

protected theorem pure {a : α} (h : ∀ s, P s → Q a s) : Ensures P (pure a) Q E := h

/-- A failure ends the computation. -/
protected theorem throw {status : Status} (h : ∀ s, P s → E s) :
    Ensures P (throw status : Attempt φ α) Q E := h

/-- The second computation is run if the first one answers. -/
protected theorem bind {R : β → Machine φ → Prop} {m : Attempt φ β} {f : β → Attempt φ α}
    (hm : Ensures P m R E) (hf : ∀ b, Ensures (R b) (f b) Q E) : Ensures P (m >>= f) Q E := by
  refine Loader.Ensures.bind hm fun r => ?_
  cases r with
  | ok b => exact hf b
  | error status => exact fun s hs => hs

theorem mono {Q' : α → Machine φ → Prop} {m : Attempt φ α} (h : Ensures P m Q E)
    (hQ : ∀ a s, Q a s → Q' a s) : Ensures P m Q' E := by
  refine Loader.Ensures.mono h (fun s hs => hs) fun r s hr => ?_
  cases r with
  | ok a => exact hQ a s hr
  | error status => exact hr

theorem mono_error {E' : Machine φ → Prop} {m : Attempt φ α} (h : Ensures P m Q E)
    (hE : ∀ s, E s → E' s) : Ensures P m Q E' := by
  refine Loader.Ensures.mono h (fun s hs => hs) fun r s hr => ?_
  cases r with
  | ok a => exact hr
  | error status => exact hE s hr

/-- From a given machine, an answer is the one that the computation ends with there. -/
theorem of_eq {m : Attempt φ α} (h : Ensures P m Q E) (start : Machine φ) :
    Ensures (fun s => s = start ∧ P s) m
      (fun a s => (m.run start).value = (.ok a, s) ∧ Q a s) E := by
  rintro s ⟨rfl, hs⟩
  have hends := h s hs
  cases hanswer : (m.run s).value.1 with
  | ok a =>
    rw [hanswer] at hends
    exact ⟨Prod.ext hanswer rfl, hends⟩
  | error status =>
    rw [hanswer] at hends
    exact hends

/-- What is ensured of either way out is ensured of all. -/
theorem either {m : Attempt φ α} (h : Ensures P m (fun _ => E) E) :
    Loader.Ensures P m.run fun _ => E := by
  refine Loader.Ensures.mono h (fun s hs => hs) fun r s hr => ?_
  cases r with
  | ok a => exact hr
  | error status => exact hr

/-- Facts that do not depend on the machine can be taken out of the
condition. -/
theorem of_and {p : Prop} {m : Attempt φ α} (h : p → Ensures P m Q E) :
    Ensures (fun s => p ∧ P s) m Q E :=
  fun s hs => h hs.1 s hs.2

/-- What is said to exist in the condition can be named. -/
theorem of_exists {ι : Type} {P : ι → Machine φ → Prop} {m : Attempt φ α}
    (h : ∀ i, Ensures (P i) m Q E) : Ensures (fun s => ∃ i, P i s) m Q E :=
  Loader.Ensures.of_exists h

theorem note_bind {e : Entry} {m : Attempt φ α} (h : Ensures P m Q E) :
    Ensures P ((liftM (note e) : Attempt φ Unit) >>= fun _ => m) Q E := h

theorem logged {x : Logged α} (h : ∀ s, P s → Q x.value s) :
    Ensures P (liftM x : Attempt φ α) Q E := h

theorem lift {m : Loader φ α} (h : Loader.Ensures P m Q) :
    Ensures P (liftM m : Attempt φ α) Q E := h

/-- An answer that says whether something has failed. -/
theorem ofLoader {m : Loader φ (Except Status α)}
    (h : Loader.Ensures P m fun r s =>
      match r with
      | .ok a => Q a s
      | .error _ => E s) :
    Ensures P (Attempt.ofLoader m) Q E := h

/-- Settling a result leaves the machine as it is. -/
theorem settle {ε : Type} [Fault ε] {r : Except ε α} (hok : ∀ a s, r = .ok a → P s → Q a s)
    (herror : ∀ s, P s → E s) : Ensures P (Attempt.settle r) Q E := by
  intro s hs
  cases r with
  | ok a => exact hok a s rfl hs
  | error e => exact herror s hs

/-- The line of a failure leaves the machine as it is. -/
theorem noting {m : Attempt φ α} {line : Status → Entry} (h : Ensures P m Q E) :
    Ensures P (m.noting line) Q E := by
  refine Loader.Ensures.bind h fun r => ?_
  cases r with
  | ok a => exact fun s hs => hs
  | error status => exact fun s hs => hs

/-- What a failure leaves behind is where cleaning up starts. -/
theorem orElseDo {R : Machine φ → Prop} {m : Attempt φ α} {cleanUp : Loader φ Unit}
    (hm : Ensures P m Q R) (hc : Loader.Ensures R cleanUp fun _ => E) :
    Ensures P (m.orElseDo cleanUp) Q E := by
  refine Loader.Ensures.bind hm fun r => ?_
  cases r with
  | ok a => exact fun s hs => hs
  | error status => exact Loader.Ensures.bind hc fun _ s hs => hs

end Attempt.Ensures

end EfiLoader
