import EfiLoader.Zstd.Decoding
import EfiLoader.Proofs.Recorded

/-!
# EfiLoader.Proofs.Zstd.Decoding

Programs that ask for bytes, and what becomes of them on an input:

* `Decoding.run_bind` — one program after the other;
* `Decoding.alike_run` — programs run in lockstep over sources that read alike;
* `Decoding.noted_run` — the error that is kept is that of the last failed read;
* `Decoding.reads_run` — no read fails if the source hands out its bytes;
* `Decoding.Steady` — programs for which it does not matter how the bytes are cut up;
* `Decoding.Takes` — and which bytes they take.
-/

namespace EfiLoader.Zstd

variable {σ τ α β : Type} {src : Source σ} {f : Feed σ}

namespace Decoding

/-! ## programs -/

@[simp] theorem run_pure (a : α) : (pure a : Decoding α).run src f = (a, f) := rfl

theorem run_read (n : Nat) (next : Option ByteArray → Decoding α) :
    (read n next).run src f = (next (f.read src n).1).run src (f.read src n).2 := rfl

/-- One program after the other. -/
theorem run_bind (p : Decoding α) (q : α → Decoding β) (f : Feed σ) :
    (p >>= q).run src f = (q (p.run src f).1).run src (p.run src f).2 := by
  induction p generalizing f with
  | done a => rfl
  | read n next ih => exact ih _ _

/-- The first program has come to `a`. -/
theorem run_bind_of_run {p : Decoding α} {q : α → Decoding β} {a : α} {f' : Feed σ}
    (h : p.run src f = (a, f')) : (p >>= q).run src f = (q a).run src f' := by
  rw [run_bind, h]

end Decoding

/-! ## lockstep -/

/-- Two inputs are in step, and the last failed read is the same. -/
structure Feed.InStep (R : σ → τ → Prop) (f : Feed σ) (f' : Feed τ) : Prop where
  input : f.input.InStep R f'.input
  failed : f'.failed = f.failed
  report : f'.report = f.report

section

variable {R : σ → τ → Prop} {E : Status → Prop} {src' : Source τ}

/-- All reads that have failed have failed with `E`. -/
def Feed.FailsOnly (E : Status → Prop) (f : Feed σ) : Prop := ∀ e, f.failed = some e → E e.status

/-- Both read the same. -/
theorem Feed.alike_read (h : src.Keeps R E src') (hE : ∀ n, E (Status.error n)) (n : Nat) :
    Alike (fun f f' => Feed.InStep R f f' ∧ f.FailsOnly E) (fun _ => True)
      (fun f => f.read src n) (fun f => f.read src' n) := by
  intro f f' ⟨hstep, honly⟩
  obtain ⟨hanswer, hfails, hleft⟩ := Input.alike_read h hE n f.input f'.input hstep.input
  simp only [read]
  rcases hread : f.input.read src n with ⟨r, input⟩
  rcases hread' : f'.input.read src' n with ⟨r', input'⟩
  rw [hread, hread'] at hanswer hleft
  rw [hread] at hfails
  cases hanswer
  cases r with
  | ok bytes => exact ⟨rfl, trivial, ⟨hleft, hstep.failed, hstep.report⟩, honly⟩
  | error e =>
      refine ⟨rfl, trivial, ⟨hleft, rfl, by simp only [hstep.report]⟩, fun e' he' => ?_⟩
      cases he'
      exact hfails e rfl

/-- A program comes to the same over sources that read alike. -/
theorem Decoding.alike_run (h : src.Keeps R E src') (hE : ∀ n, E (Status.error n))
    (p : Decoding α) :
    Alike (fun f f' => Feed.InStep R f f' ∧ f.FailsOnly E) (fun _ => True)
      (p.run src) (p.run src') := by
  induction p with
  | done a => exact Alike.pure trivial
  | read n next ih => exact Alike.bind (Feed.alike_read h hE n) fun answer _ => ih answer

end

/-! ## failed reads -/

/-- The error that is kept is that of the last failed read on record. -/
def Feed.Noted (f : Feed (σ × List ReadCall)) : Prop :=
  failure? f.input.state.2 = f.failed.map ReadError.status

theorem Feed.noted_read (f : Feed (σ × List ReadCall)) (h : f.Noted) (n : Nat) :
    (f.read src.recorded n).2.Noted := by
  have hread := f.input.failure?_read src n
  unfold read
  rcases hrun : f.input.read src.recorded n with ⟨r, input⟩
  rw [hrun] at hread
  cases r with
  | ok bytes => exact hread.trans h
  | error e => exact hread

theorem Decoding.noted_run (p : Decoding α) (f : Feed (σ × List ReadCall)) (h : f.Noted) :
    (p.run src.recorded f).2.Noted := by
  induction p generalizing f with
  | done a => exact h
  | read n next ih => exact ih _ _ (f.noted_read h n)

/-! ## inputs whose bytes are known -/

/-- No read has failed, and the bytes that are left are `left`. -/
structure Feed.Reads (src : Source σ) (f : Feed σ) (left : ByteArray) : Prop where
  failed : f.failed = none
  input : f.input.Reads src left

/-- A read answers with some of the next bytes. -/
theorem Feed.Reads.read {left : ByteArray} (h : f.Reads src left) (n : Nat) :
    ∃ count, (f.read src n).1 = some (left.extract 0 count) ∧ count ≤ n ∧ count ≤ left.size ∧
      (0 < n → 0 < left.size → 0 < count) ∧ (f.read src n).2.Reads src (Bytes.drop left count) := by
  obtain ⟨count, input, hread, hcount, hsize, hpos, hinput⟩ := h.input.read n
  refine ⟨count, ?_, hcount, hsize, hpos, ?_⟩
  · rw [Feed.read, hread]
  · rw [Feed.read, hread]
    exact ⟨h.failed, hinput⟩

namespace Decoding

variable {left : ByteArray}

/-- No read fails if the source hands out its bytes. -/
theorem reads_run (p : Decoding α) (h : f.Reads src left) :
    ∃ rest, (p.run src f).2.Reads src rest := by
  induction p generalizing f left with
  | done a => exact ⟨left, h⟩
  | read n next ih =>
      obtain ⟨count, -, -, -, -, hrest⟩ := h.read n
      exact ih _ hrest

/-! ## cuts -/

/-- What a program comes to, and the bytes that it leaves, if every read gets as
many bytes as it asks for, as far as there are any. -/
def onBytes : Decoding α → ByteArray → α × ByteArray
  | done a, left => (a, left)
  | read n next, left => (next (some (left.extract 0 n))).onBytes (Bytes.drop left n)

theorem onBytes_bind (p : Decoding α) (q : α → Decoding β) (left : ByteArray) :
    (p >>= q).onBytes left = (q (p.onBytes left).1).onBytes (p.onBytes left).2 := by
  induction p generalizing left with
  | done a => rfl
  | read n next ih => exact ih _ _

/-- However the bytes are cut up, the program comes to the same and leaves the same. -/
def Steady (p : Decoding α) : Prop :=
  ∀ (σ : Type) (src : Source σ) (f : Feed σ) (left : ByteArray), f.Reads src left →
    (p.run src f).1 = (p.onBytes left).1 ∧ (p.run src f).2.Reads src (p.onBytes left).2

namespace Steady

protected theorem pure (a : α) : Steady (pure a : Decoding α) := fun _ _ _ _ h => ⟨rfl, h⟩

protected theorem bind {p : Decoding α} {q : α → Decoding β} (hp : Steady p)
    (hq : ∀ a, Steady (q a)) : Steady (p >>= q) := by
  intro σ src f left h
  obtain ⟨hanswer, hrest⟩ := hp σ src f left h
  rw [run_bind, onBytes_bind, hanswer]
  exact hq _ σ src _ _ hrest

end Steady

/-- What is asked for is taken if it is there, and otherwise nothing is left. -/
theorem onBytes_takeOnto (need : Nat) (taken left : ByteArray) :
    (takeOnto need taken).onBytes left =
      if need ≤ left.size then (some (taken ++ left.extract 0 need), Bytes.drop left need)
      else (none, ByteArray.empty) := by
  rw [takeOnto]
  by_cases hneed : need = 0
  · rw [if_pos hneed, if_pos (by omega), hneed, ByteArray.extract_same, ByteArray.append_empty,
      Bytes.drop_zero]
    rfl
  · rw [if_neg hneed]
    have hsize : (left.extract 0 need).size = min need left.size := by
      rw [ByteArray.size_extract]
      omega
    have hnone : ∀ {n : Nat}, left.size ≤ n → Bytes.drop left n = ByteArray.empty := fun h =>
      ByteArray.size_eq_zero_iff.mp (by rw [Bytes.size_drop]; omega)
    simp only [onBytes]
    by_cases hempty : (left.extract 0 need).size = 0
    · rw [if_pos hempty, if_neg (by omega), hnone (by omega)]
      rfl
    · rw [if_neg hempty, hsize]
      by_cases henough : need ≤ left.size
      · -- the read gets all that is needed
        rw [if_pos henough, Nat.min_eq_left henough, Nat.sub_self, takeOnto, if_pos rfl]
        rfl
      · -- and otherwise all that there is, so that the next one gets nothing
        rw [if_neg henough, hnone (by omega), takeOnto, if_neg (by omega)]
        have hend : ∀ i j : Nat, ByteArray.empty.extract i j = ByteArray.empty := fun i j =>
          Bytes.extract_of_size_le j (by simp)
        simp only [onBytes, Bytes.drop, hend, ByteArray.size_empty, if_true]

theorem steady_takeOnto (need : Nat) (taken : ByteArray) : Steady (takeOnto need taken) := by
  intro σ src f left h
  rw [onBytes_takeOnto]
  -- by induction on what is still needed, of which every read has some
  induction need using Nat.strongRecOn generalizing f left taken with
  | _ need ih =>
    rw [takeOnto]
    by_cases hneed : need = 0
    · rw [if_pos hneed, if_pos (by omega), hneed, ByteArray.extract_same, ByteArray.append_empty,
        Bytes.drop_zero]
      exact ⟨rfl, h⟩
    · rw [if_neg hneed, run_read]
      obtain ⟨count, hread, hcount, hleft, hpos, hrest⟩ := h.read need
      have hsize : (left.extract 0 count).size = count := Bytes.size_front hleft
      rw [hread]
      simp only [hsize]
      by_cases hend : count = 0
      · rw [if_pos hend, if_neg (by omega)]
        have hempty : Bytes.drop left count = ByteArray.empty :=
          ByteArray.size_eq_zero_iff.mp (by rw [Bytes.size_drop]; omega)
        rw [hempty] at hrest
        exact ⟨rfl, hrest⟩
      · rw [if_neg hend]
        have hmore := ih (need - count) (by omega) (taken ++ left.extract 0 count) _ _ hrest
        rw [Bytes.size_drop, ByteArray.append_assoc, Bytes.extract_append_extract_drop left hcount,
          Bytes.drop_drop, Nat.add_sub_cancel' hcount] at hmore
        have hiff : need - count ≤ left.size - count ↔ need ≤ left.size := by omega
        simpa only [hiff] using hmore

/-! ## programs that may fail -/

namespace Steady

protected theorem optionBind {m : OptionT Decoding α} {q : α → OptionT Decoding β}
    (hm : Steady m.run) (hq : ∀ a, Steady (q a).run) : Steady (m >>= q).run := by
  refine Steady.bind hm fun r => ?_
  cases r with
  | none => exact Steady.pure none
  | some a => exact hq a

protected theorem some (a : α) : Steady (pure a : OptionT Decoding α).run := Steady.pure _

protected theorem failure : Steady (failure : OptionT Decoding α).run := Steady.pure _

protected theorem take (n : Nat) : Steady (take n).run := steady_takeOnto n _

protected theorem le (n : Nat) : Steady (le n).run :=
  Steady.optionBind (Steady.take n) fun _ => Steady.some _

/-- A check must be passed first. -/
theorem check {c : Prop} [Decidable c] {q : PUnit → OptionT Decoding α} (h : Steady (q ⟨⟩).run) :
    Steady (if c then failure >>= q else q ⟨⟩ : OptionT Decoding α).run := by
  by_cases hc : c
  · rw [if_pos hc]
    exact Steady.pure none
  · rw [if_neg hc]
    exact h

end Steady

/-- The program takes the bytes `bs`, and nothing behind them, and comes to `a`. -/
def Takes (m : OptionT Decoding α) (bs : ByteArray) (a : α) : Prop :=
  ∀ rest, m.run.onBytes (bs ++ rest) = (some a, rest)

namespace Takes

variable {m : OptionT Decoding α} {bs : ByteArray} {a : α}

protected theorem pure (a : α) : Takes (pure a) ByteArray.empty a := fun rest => by
  rw [ByteArray.empty_append]
  rfl

/-- The second program takes what follows. -/
protected theorem bind {q : α → OptionT Decoding β} {more : ByteArray} {b : β} (hm : Takes m bs a)
    (hq : Takes (q a) more b) : Takes (m >>= q) (bs ++ more) b := by
  intro rest
  change (m.run >>= _).onBytes _ = _
  rw [onBytes_bind, ByteArray.append_assoc, hm]
  exact hq rest

/-- What follows takes no bytes of its own. -/
theorem bind_pure {b : β} {q : α → OptionT Decoding β} (hm : Takes m bs a) (hq : q a = pure b) :
    Takes (m >>= q) bs b := by
  have h := hm.bind (q := q) (hq ▸ Takes.pure b)
  rwa [ByteArray.append_empty] at h

/-- A check that is passed takes nothing. -/
theorem check {c : Prop} [Decidable c] {q : PUnit → OptionT Decoding α} (hc : ¬c)
    (h : Takes (q ⟨⟩) bs a) :
    Takes (if c then failure >>= q else q ⟨⟩ : OptionT Decoding α) bs a := by
  rw [if_neg hc]
  exact h

protected theorem take (bs : ByteArray) : Takes (take bs.size) bs bs := by
  intro rest
  have hsize : bs.size ≤ (bs ++ rest).size := by
    rw [ByteArray.size_append]
    omega
  refine (onBytes_takeOnto _ _ _).trans ?_
  rw [if_pos hsize, ByteArray.empty_append, ByteArray.extract_append_eq_left rfl,
    Bytes.drop_append rest rfl]

/-- A number is taken as it is written. -/
protected theorem le {n v : Nat} (h : v < 256 ^ n) : Takes (le n) (Bytes.le n v) v := by
  have htake := Takes.take (Bytes.le n v)
  rw [Bytes.size_le] at htake
  refine htake.bind_pure ?_
  rw [Bytes.leNat_le h]

/-- On an input with the bytes, a steady program takes them. -/
theorem run (h : Takes m bs a) (hm : Steady m.run) {rest : ByteArray}
    (hf : f.Reads src (bs ++ rest)) :
    ∃ f', m.run.run src f = (some a, f') ∧ f'.Reads src rest := by
  obtain ⟨hanswer, hleft⟩ := hm σ src f _ hf
  rw [h rest] at hanswer hleft
  exact ⟨_, Prod.ext hanswer rfl, hleft⟩

end Takes

end Decoding

end EfiLoader.Zstd
