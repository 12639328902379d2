import EfiLoader.Proofs.Lockstep
import EfiLoader.Proofs.Reader

/-!
# EfiLoader.Proofs.Lockstep.Reader

Sources in lockstep, and the inputs and readers over them.  Nothing is asked
of what the sources hand out, only that both hand out the same:

* `Source.Keeps` — what is asked of two sources;
* `Source.Keeps.fill` — they fill a buffer with the same bytes;
* `Reader.Keeps` — readers that read the same.
-/

namespace EfiLoader

variable {σ τ α β ε : Type}

theorem Buffer.coded_error : Fault.Coded Buffer.Error := by
  intro e
  cases e with
  | allocate capacity => exact ⟨9, rfl⟩
  | grow capacity => exact ⟨9, rfl⟩
  | count => exact ⟨2, rfl⟩

/-! ## sources -/

/-- From states with `R`, both sources read the same, leave states with `R`
and fail with `E` only. -/
structure Source.Keeps (R : σ → τ → Prop) (E : Status → Prop) (src : Source σ)
    (src' : Source τ) : Prop where
  size_eq : src'.size = src.size
  read : ∀ n, Alike R (OnlyFails fun e => E e.status) (src.read n) (src'.read n)

namespace Source.Keeps

variable {R : σ → τ → Prop} {E : Status → Prop} {src : Source σ} {src' : Source τ}

/-- The answer of a read, and what is left after it. -/
theorem read_cases (h : src.Keeps R E src') (n : Nat) {s : σ} {t : τ} (hst : R s t) :
    (∃ r s' t', src.read n s = (.ok r, s') ∧ src'.read n t = (.ok r, t') ∧ R s' t') ∨
      ∃ e s' t', src.read n s = (.error e, s') ∧ src'.read n t = (.error e, t') ∧
        E e.status ∧ R s' t' := by
  obtain ⟨hanswer, hfails, hleft⟩ := h.read n s t hst
  rcases hs : src.read n s with ⟨r, s'⟩
  rcases ht : src'.read n t with ⟨r', t'⟩
  rw [hs, ht] at hanswer hleft
  rw [hs] at hfails
  cases hanswer
  cases r with
  | ok r => exact .inl ⟨r, s', t', rfl, rfl, hleft⟩
  | error e => exact .inr ⟨e, s', t', rfl, rfl, hfails e rfl, hleft⟩

/-- Both fill a buffer with the same bytes. -/
theorem fill (h : src.Keeps R E src') (hE : ∀ n, E (Status.error n)) (b : Buffer) {s : σ} {t : τ}
    (hst : R s t) :
    ∃ r b' s' t', src.fill b s = (r, b', s') ∧ src'.fill b t = (r, b', t') ∧
      OnlyFails (fun e => E e.status) r ∧ R s' t' := by
  -- by induction on the room, as the buffer is filled
  generalize hroom : b.room = room
  induction room using Nat.strongRecOn generalizing b s t with
  | _ room ih =>
    subst hroom
    rw [Source.fill, Source.fill]
    by_cases hfull : b.room = 0
    · rw [if_pos hfull, if_pos hfull]
      exact ⟨.ok (), b, s, t, rfl, rfl, OnlyFails.ok (), hst⟩
    · rw [if_neg hfull, if_neg hfull]
      obtain ⟨r, s', t', hs, ht, hleft⟩ | ⟨e, s', t', hs, ht, he, hleft⟩ := h.read_cases b.room hst
      · simp only [hs, ht]
        by_cases hend : r.count = 0
        · rw [if_pos hend, if_pos hend]
          exact ⟨.ok (), _, s', t', rfl, rfl, OnlyFails.ok (), hleft⟩
        · rw [if_neg hend, if_neg hend]
          by_cases hcount : r.count ≤ (b.store r.bytes).room
          · rw [dif_pos hcount, dif_pos hcount]
            have hsmaller : ((b.store r.bytes).commitRoom r.count hcount).room < b.room := by
              rw [Buffer.room_store] at hcount
              rw [Buffer.room_commitRoom, Buffer.room_store]
              omega
            exact ih _ hsmaller _ hleft rfl
          · rw [dif_neg hcount, dif_neg hcount]
            exact ⟨.error .overreported, _, s', t', rfl, rfl, OnlyFails.error (hE 2), hleft⟩
      · simp only [hs, ht]
        exact ⟨.error (.source e), b, s', t', rfl, rfl, OnlyFails.error he, hleft⟩

end Source.Keeps

/-- A source keeps a condition on its own state that no read breaks. -/
theorem Source.keeps_self {src : Source σ} {P : σ → Prop} {E : Status → Prop}
    (h : ∀ n s, P s → OnlyFails (fun e => E e.status) (src.read n s).1 ∧ P (src.read n s).2) :
    src.Keeps (fun s t => s = t ∧ P s) E src where
  size_eq := rfl
  read := by
    rintro n s _ ⟨rfl, hs⟩
    obtain ⟨hfails, hleft⟩ := h n s hs
    exact ⟨rfl, hfails, rfl, hleft⟩

/-- Bytes in memory are read without fail. -/
theorem Supply.keeps_source (size : Nat) (E : Status → Prop) :
    (Supply.source size).Keeps Eq E (Supply.source size) where
  size_eq := rfl
  read := by
    rintro n s _ rfl
    exact ⟨rfl, OnlyFails.ok _, rfl⟩

/-! ## inputs -/

namespace Input

/-- Two inputs have the same chunk and have read as much, and the states of
their sources have `R`. -/
structure InStep (R : σ → τ → Prop) (inp : Input σ) (inp' : Input τ) : Prop where
  chunk : inp'.chunk = inp.chunk
  total : inp'.total = inp.total
  consumed : inp'.consumed = inp.consumed
  state : R inp.state inp'.state

variable {R : σ → τ → Prop} {E : Status → Prop} {src : Source σ} {src' : Source τ}

theorem inStep_start (chunk : Buffer) (total : Nat) {s : σ} {t : τ} (h : R s t) :
    (start chunk s total).InStep R (start chunk t total) := ⟨rfl, rfl, rfl, h⟩

/-- Inputs in step have the same budget. -/
theorem InStep.budget_eq {inp : Input σ} {inp' : Input τ} (h : inp.InStep R inp') :
    inp'.budget = inp.budget := by
  rw [budget, budget, h.chunk, h.total, h.consumed]

/-- Both get the same chunk. -/
theorem alike_refill (h : src.Keeps R E src') (hE : ∀ n, E (Status.error n)) :
    Alike (InStep R) (OnlyFails fun e => E e.status) (refill src) (refill src') := by
  intro inp inp' hstep
  obtain ⟨hchunk, htotal, hconsumed, hstate⟩ := hstep
  unfold refill
  rw [hchunk, htotal, hconsumed]
  by_cases hunread : inp.chunk.unread ≠ 0
  · rw [if_pos hunread, if_pos hunread]
    exact ⟨rfl, OnlyFails.ok true, hchunk, htotal, hconsumed, hstate⟩
  · rw [if_neg hunread, if_neg hunread]
    by_cases hend : inp.total ≤ inp.consumed
    · rw [if_pos hend, if_pos hend]
      exact ⟨rfl, OnlyFails.ok false, hchunk, htotal, hconsumed, hstate⟩
    · rw [if_neg hend, if_neg hend]
      dsimp only
      obtain ⟨r, s', t', hs, ht, hleft⟩ | ⟨e, s', t', hs, ht, he, hleft⟩ :=
        h.read_cases inp.chunk.clear.room hstate
      · rw [hs, ht]
        dsimp only
        cases (inp.chunk.clear.store r.bytes).commit r.count with
        | ok chunk => exact ⟨rfl, OnlyFails.ok _, rfl, rfl, rfl, hleft⟩
        | error e => exact ⟨rfl, OnlyFails.error (hE 2), rfl, rfl, rfl, hleft⟩
      · rw [hs, ht]
        exact ⟨rfl, OnlyFails.error he, rfl, rfl, rfl, hleft⟩

/-- Both read the same bytes. -/
theorem alike_read (h : src.Keeps R E src') (hE : ∀ n, E (Status.error n)) (n : Nat) :
    Alike (InStep R) (OnlyFails fun e => E e.status) (read src n) (read src' n) := by
  intro inp inp' hstep
  unfold read
  by_cases hn : n = 0
  · rw [if_pos hn, if_pos hn]
    exact ⟨rfl, OnlyFails.ok _, hstep⟩
  · rw [if_neg hn, if_neg hn]
    obtain ⟨hanswer, hfails, hleft⟩ := alike_refill h hE inp inp' hstep
    rcases hrefill : inp.refill src with ⟨r, next⟩
    rcases hrefill' : inp'.refill src' with ⟨r', next'⟩
    rw [hrefill, hrefill'] at hanswer hleft
    rw [hrefill] at hfails
    cases hanswer
    match r with
    | .error e => exact ⟨rfl, OnlyFails.error (hfails e rfl), hleft⟩
    | .ok false => exact ⟨rfl, OnlyFails.ok _, hleft⟩
    | .ok true =>
      obtain ⟨chunk, state, total, consumed⟩ := next
      obtain ⟨chunk', state', total', consumed'⟩ := next'
      obtain ⟨rfl, rfl, rfl, hstate⟩ := hleft
      exact ⟨rfl, OnlyFails.ok _, rfl, rfl, rfl, hstate⟩

/-- Both read exactly the same bytes. -/
theorem takeOnto_inStep (h : src.Keeps R E src') (hE : ∀ n, E (Status.error n)) (need : Nat)
    (taken : ByteArray) {inp : Input σ} {inp' : Input τ} (hstep : inp.InStep R inp') :
    ∃ r bytes next next', inp.takeOnto src need taken = (r, bytes, next) ∧
      inp'.takeOnto src' need taken = (r, bytes, next') ∧
      OnlyFails (fun e => E e.status) r ∧ next.InStep R next' := by
  -- by induction on the bytes that are needed, of which every read takes some
  induction need using Nat.strongRecOn generalizing taken inp inp' with
  | _ need ih =>
    rw [takeOnto, takeOnto]
    by_cases hneed : need = 0
    · rw [if_pos hneed, if_pos hneed]
      exact ⟨.ok (), taken, inp, inp', rfl, rfl, OnlyFails.ok (), hstep⟩
    · rw [if_neg hneed, if_neg hneed]
      obtain ⟨hanswer, hfails, hleft⟩ := alike_read h hE need inp inp' hstep
      rcases hread : inp.read src need with ⟨r, next⟩
      rcases hread' : inp'.read src' need with ⟨r', next'⟩
      rw [hread, hread'] at hanswer hleft
      rw [hread] at hfails
      cases hanswer
      cases r with
      | error e =>
          exact ⟨.error e, taken, next, next', rfl, rfl, OnlyFails.error (hfails e rfl), hleft⟩
      | ok bytes =>
          dsimp only
          by_cases hempty : bytes.size = 0
          · rw [if_pos hempty, if_pos hempty]
            exact ⟨.error .exhausted, taken, next, next', rfl, rfl, OnlyFails.error (hE 33), hleft⟩
          · rw [if_neg hempty, if_neg hempty]
            exact ih (need - bytes.size) (by omega) _ hleft

end Input

/-! ## readers -/

namespace Reader

variable [Fault ε] {R : σ → τ → Prop} {E : Status → Prop} {src : Source σ} {src' : Source τ}

/-- From inputs in step, both readers end alike, leave inputs in step and fail
with `E` only. -/
def Keeps (R : σ → τ → Prop) (E : Status → Prop) (m : Reader σ ε α) (m' : Reader τ ε α) : Prop :=
  Alike (Input.InStep R) (OnlyFails fun e => E (Fault.status e)) m.run m'.run

namespace Keeps

protected theorem pure (a : α) : Keeps R E (pure a : Reader σ ε α) (pure a) :=
  Alike.pure (OnlyFails.ok a)

protected theorem throw {e : ε} (h : E (Fault.status e)) :
    Keeps R E (throw e : Reader σ ε α) (throw e) :=
  Alike.pure (OnlyFails.error h)

protected theorem bind {m : Reader σ ε β} {m' : Reader τ ε β} {f : β → Reader σ ε α}
    {f' : β → Reader τ ε α} (hm : Keeps R E m m') (hf : ∀ b, Keeps R E (f b) (f' b)) :
    Keeps R E (m >>= f) (m' >>= f') := by
  change Alike _ _ (m.run >>= ExceptT.bindCont f) (m'.run >>= ExceptT.bindCont f')
  refine Alike.bind hm fun r hr => ?_
  cases r with
  | ok b => exact hf b
  | error e => exact Alike.pure (OnlyFails.error (hr e rfl))

protected theorem map (f : β → α) {m : Reader σ ε β} {m' : Reader τ ε β} (h : Keeps R E m m') :
    Keeps R E (f <$> m) (f <$> m') := by
  rw [map_eq_pure_bind, map_eq_pure_bind]
  exact h.bind fun b => Keeps.pure (f b)

/-- Both read the same bytes. -/
protected theorem bytes (h : src.Keeps R E src') (hE : ∀ n, E (Status.error n))
    {wrap : ReadError → ε} (hwrap : ∀ e, E e.status → E (Fault.status (wrap e))) (n : Nat) :
    Keeps R E (bytes src wrap n) (bytes src' wrap n) := by
  intro inp inp' hstep
  obtain ⟨r, taken, next, next', htake, htake', hfails, hleft⟩ :=
    Input.takeOnto_inStep h hE n ByteArray.empty hstep
  simp only [bytes, Input.take, ExceptT.run, htake, htake']
  cases r with
  | ok _ => exact ⟨rfl, OnlyFails.ok taken, hleft⟩
  | error e => exact ⟨rfl, OnlyFails.error (hwrap e (hfails e rfl)), hleft⟩

/-- Both read the same number. -/
protected theorem le (h : src.Keeps R E src') (hE : ∀ n, E (Status.error n))
    {wrap : ReadError → ε} (hwrap : ∀ e, E e.status → E (Fault.status (wrap e))) (n : Nat) :
    Keeps R E (le src wrap n) (le src' wrap n) :=
  Keeps.bind (Keeps.bytes h hE hwrap n) fun _ => Keeps.pure _

/-- Both take the same way. -/
protected theorem ite {c : Prop} [Decidable c] {m k : Reader σ ε α} {m' k' : Reader τ ε α}
    (hm : Keeps R E m m') (hk : Keeps R E k k') :
    Keeps R E (if c then m else k) (if c then m' else k') := by
  by_cases h : c
  · rw [if_pos h, if_pos h]
    exact hm
  · rw [if_neg h, if_neg h]
    exact hk

theorem check {c : Prop} [Decidable c] {e : ε} {f : PUnit → Reader σ ε α}
    {f' : PUnit → Reader τ ε α} (he : E (Fault.status e)) (h : Keeps R E (f ⟨⟩) (f' ⟨⟩)) :
    Keeps R E (if c then throw e >>= f else f ⟨⟩) (if c then throw e >>= f' else f' ⟨⟩) :=
  Keeps.ite (Keeps.throw he) h

/-- Both inputs are looked at: they have the same budget. -/
theorem get_bind {f : Input σ → Reader σ ε α} {f' : Input τ → Reader τ ε α}
    (h : ∀ inp inp', inp'.budget = inp.budget → Keeps R E (f inp) (f' inp')) :
    Keeps R E (get >>= f) (get >>= f') :=
  fun inp inp' hstep => h inp inp' hstep.budget_eq inp inp' hstep

end Keeps

end Reader

end EfiLoader
