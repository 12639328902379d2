import EfiLoader.Proofs.Consumption
import EfiLoader.Proofs.Recorded

/-!
# EfiLoader.Proofs.Conservation

Inputs lose no bytes, hand out none twice and keep their order, whichever calls
are made and whichever of them fail.  What a call does is said of inputs whose
source has its reads on record:

* `Conserved.refill`, `Conserved.read`, `Conserved.takeOnto` — what one step preserves;
* `Conserved.performAll` — what a run of calls preserves;
* `conserved_of_serves` — every run, and what the call after it answers.
-/

namespace EfiLoader.Input

variable {σ : Type} {src : Source σ}

/-! ## calls -/

/-- A call on an input. -/
inductive Call where
  | read (n : Nat)
  | readExact (n : Nat)
  | readU32

namespace Call

/-- The bytes that a call copies to its target, and the input after it.  Those
that a failed call has copied count as well. -/
def perform (src : Source σ) : Call → Input σ → ByteArray × Input σ
  | read n, inp =>
    match inp.read src n with
    | (.ok bytes, inp) => (bytes, inp)
    | (.error _, inp) => (ByteArray.empty, inp)
  | readExact n, inp => (inp.take src n).2
  | readU32, inp => ((inp.take src 4).2.1, (Reader.le src id 4 inp).2)

/-- What calls copy, in order, and the input after all of them. -/
def performAll (src : Source σ) : List Call → Input σ → ByteArray × Input σ
  | [], inp => (ByteArray.empty, inp)
  | c :: calls, inp =>
    let first := c.perform src inp
    let others := performAll src calls first.2
    (first.1 ++ others.1, others.2)

end Call

/-- A number is read from the bytes that an exact read copies. -/
theorem le_eq_take (inp : Input σ) (n : Nat) :
    Reader.le src id n inp =
      ((inp.take src n).1.map fun _ => Bytes.leNat (inp.take src n).2.1 0 n,
        (inp.take src n).2.2) := by
  cases htake : inp.take src n with
  | mk answer rest =>
    obtain ⟨bytes, inp'⟩ := rest
    cases answer with
    | ok =>
        have hbytes : Reader.bytes src id n inp = (.ok bytes, inp') := by
          rw [Reader.bytes, htake]
        rw [Reader.le, Reader.bind_of_ok hbytes]
        rfl
    | error e =>
        have hbytes : Reader.bytes src id n inp = (.error e, inp') := by
          rw [Reader.bytes, htake]
          rfl
        rw [Reader.le, Reader.bind_of_error hbytes]
        rfl

/-! ## what is preserved -/

/-- The last read of the source answered with `answer`. -/
def LastAnswer (inp : Input (σ × List ReadCall)) (answer : Except SourceError ReadResult) : Prop :=
  lastAnswer? inp.state.2 = some answer

/-- There is nothing to read: the chunk has been read, and either as much as was
declared has been taken from the source or its last read returned no bytes. -/
def Dry (inp : Input (σ × List ReadCall)) : Prop :=
  inp.buffered = ByteArray.empty ∧
    (inp.total ≤ inp.consumed ∨ ∃ r, inp.LastAnswer (.ok r) ∧ r.count = 0)

/-- Of an input that started with the chunk `first` and a source with the bytes
`all`, the bytes `copied` have been copied; the others are in the chunk and in
the source, in order. -/
structure Conserved (src : Source σ) (first : Buffer) (total : Nat) (all copied : ByteArray)
    (inp : Input (σ × List ReadCall)) : Prop where
  total_eq : inp.total = total
  bytes : ∃ left, src.Serves inp.state.1 left ∧ handed inp.state.2 ++ left = all ∧
    copied ++ inp.buffered ++ left = first.remaining ++ all
  consumed_eq : inp.consumed = first.len + (handed inp.state.2).size

variable {first : Buffer} {total : Nat} {all copied : ByteArray}
  {inp inp' : Input (σ × List ReadCall)}

theorem conserved_start {s : σ} (h : src.Serves s all) (first : Buffer) (total : Nat) :
    Conserved src first total all ByteArray.empty (start first (s, []) total) where
  total_eq := rfl
  bytes := by
    refine ⟨all, h, ByteArray.empty_append, ?_⟩
    rw [ByteArray.empty_append]
    rfl
  consumed_eq := rfl

namespace Conserved

/-- A read of the source that returns some of its bytes puts them in the chunk. -/
theorem refill_ok (h : Conserved src first total all copied inp)
    (hempty : inp.buffered = ByteArray.empty) {left : ByteArray}
    (hleft : handed inp.state.2 ++ left = all) {r : ReadResult} {s : σ}
    (hr : r.Takes inp.chunk.clear.room left) (hserves : src.Serves s (Bytes.drop left r.count))
    (hcount : r.count ≤ (inp.chunk.clear.store r.bytes).room) :
    let next : Input (σ × List ReadCall) :=
      { inp with
        chunk := (inp.chunk.clear.store r.bytes).commitRoom r.count hcount
        state := (s, ⟨inp.chunk.clear.room, .ok r⟩ :: inp.state.2)
        consumed := inp.consumed + r.count }
    Conserved src first total all copied next ∧ next.buffered.size = r.count := by
  intro next
  have hchunk : next.buffered = left.extract 0 r.count := by
    rw [buffered, Buffer.remaining_commitRoom_store_clear _ _ hr.count_le_bytes, hr.bytes]
  have hsize : (left.extract 0 r.count).size = r.count := by
    have := hr.count_le_size
    rw [ByteArray.size_extract]
    omega
  have hhanded : handed next.state.2 = handed inp.state.2 ++ left.extract 0 r.count := by
    simp only [next, handed, ReadCall.bytes, hr.bytes]
  have hall : copied ++ left = first.remaining ++ all := by
    obtain ⟨left', -, hleft', hbytes⟩ := h.bytes
    have hsame : left' = left := (ByteArray.append_right_inj _).mp (hleft'.trans hleft.symm)
    rw [hempty, ByteArray.append_empty, hsame] at hbytes
    exact hbytes
  refine ⟨⟨h.total_eq, ⟨_, hserves, ?_, ?_⟩, ?_⟩, ?_⟩
  · rw [hhanded, ByteArray.append_assoc, Bytes.extract_append_drop, hleft]
  · rw [hchunk, ByteArray.append_assoc, Bytes.extract_append_drop, hall]
  · rw [hhanded, ByteArray.size_append, hsize, ← Nat.add_assoc, ← h.consumed_eq]
  · rw [hchunk, hsize]

/-- A read of the source that fails leaves the chunk empty. -/
theorem refill_error (h : Conserved src first total all copied inp)
    (hempty : inp.buffered = ByteArray.empty) {left : ByteArray}
    (hleft : handed inp.state.2 ++ left = all) {e : SourceError} {s : σ}
    (hserves : src.Serves s left) :
    Conserved src first total all copied
      { inp with
        chunk := inp.chunk.clear
        state := (s, ⟨inp.chunk.clear.room, .error e⟩ :: inp.state.2) } := by
  have hhanded : handed (⟨inp.chunk.clear.room, .error e⟩ :: inp.state.2) =
      handed inp.state.2 := by
    simp only [handed, ReadCall.bytes, ByteArray.append_empty]
  obtain ⟨left', -, hleft', hbytes⟩ := h.bytes
  have hsame : left' = left := (ByteArray.append_right_inj _).mp (hleft'.trans hleft.symm)
  rw [hempty, hsame] at hbytes
  refine ⟨h.total_eq, ⟨left, hserves, ?_, ?_⟩, ?_⟩
  · rw [hhanded, hleft]
  · rw [buffered, Buffer.remaining_clear, hbytes]
  · rw [hhanded, h.consumed_eq]

/-- A refill copies nothing.  It finds bytes, or there are none to read, or the
source has failed; and it reads the source at most once. -/
theorem refill (h : Conserved src first total all copied inp) {answer : Except ReadError Bool}
    (hrefill : inp.refill src.recorded = (answer, inp')) :
    Conserved src first total all copied inp' ∧
      inp'.state.2.length ≤ inp.state.2.length + 1 ∧
      ((answer = .ok true ∧ 0 < inp'.chunk.unread) ∨ (answer = .ok false ∧ inp'.Dry) ∨
        ∃ f, answer = .error (.source f) ∧ inp'.LastAnswer (.error f)) := by
  by_cases hunread : inp.chunk.unread ≠ 0
  · rw [Input.refill, if_pos hunread] at hrefill
    cases hrefill
    exact ⟨h, by omega, .inl ⟨rfl, by omega⟩⟩
  · have hempty : inp.buffered = ByteArray.empty := by
      rw [← ByteArray.size_eq_zero_iff, size_buffered]
      omega
    by_cases hend : inp.total ≤ inp.consumed
    · rw [Input.refill, if_neg hunread, if_pos hend] at hrefill
      cases hrefill
      exact ⟨h, by omega, .inr (.inl ⟨rfl, hempty, .inl hend⟩)⟩
    · rw [Input.refill, if_neg hunread, if_neg hend] at hrefill
      obtain ⟨left, hserves, hleft, -⟩ := h.bytes
      cases hserves.read inp.chunk.clear.room with
      | inl hok =>
          obtain ⟨r, s, hread, hr, hserves'⟩ := hok
          have hcount : r.count ≤ (inp.chunk.clear.store r.bytes).room := by
            rw [Buffer.room_store]
            exact hr.count_le
          obtain ⟨hnext, hsize⟩ := h.refill_ok hempty hleft hr hserves' hcount
          simp only [Source.recorded, hread, Buffer.commit, dif_pos hcount] at hrefill
          cases hrefill
          refine ⟨hnext, by simp, ?_⟩
          by_cases hzero : r.count = 0
          · have hnone := ByteArray.size_eq_zero_iff.mp (hsize.trans hzero)
            exact .inr (.inl ⟨by simp [hzero], hnone, .inr ⟨r, rfl, hzero⟩⟩)
          · rw [size_buffered] at hsize
            exact .inl ⟨by simp [hzero], by omega⟩
      | inr herror =>
          obtain ⟨e, s, hread, hserves'⟩ := herror
          have hnext := h.refill_error (e := e) hempty hleft hserves'
          simp only [Source.recorded, hread] at hrefill
          cases hrefill
          exact ⟨hnext, by simp, .inr (.inr ⟨e, rfl, rfl⟩)⟩

/-- Bytes of the chunk are copied. -/
theorem advanceUnread (h : Conserved src first total all copied inp) {count : Nat}
    (hcount : count ≤ inp.chunk.unread) :
    Conserved src first total all (copied ++ inp.next count) (inp.skip count hcount) := by
  obtain ⟨left, hserves, hleft, hbytes⟩ := h.bytes
  have hparts : inp.next count ++ (inp.skip count hcount).buffered = inp.buffered := by
    rw [next, skip, buffered, buffered, Buffer.remaining_advanceUnread,
      Buffer.extract_pos _ hcount, Bytes.extract_append_drop]
  have hcopied : copied ++ inp.next count ++ (inp.skip count hcount).buffered =
      copied ++ inp.buffered := by
    rw [ByteArray.append_assoc, hparts]
  exact ⟨h.total_eq, ⟨left, hserves, hleft, hcopied ▸ hbytes⟩, h.consumed_eq⟩

/-- A read copies the next bytes, at most as many as it is asked for, and none
only if there are none to read; or the source has failed. -/
theorem read (h : Conserved src first total all copied inp) {n : Nat}
    {answer : Except ReadError ByteArray} (hread : inp.read src.recorded n = (answer, inp')) :
    inp'.state.2.length ≤ inp.state.2.length + 1 ∧
      ((∃ bytes, answer = .ok bytes ∧ bytes.size ≤ n ∧
          Conserved src first total all (copied ++ bytes) inp' ∧
          (n ≠ 0 → bytes.size = 0 → inp'.Dry)) ∨
        ∃ f, answer = .error (.source f) ∧ Conserved src first total all copied inp' ∧
          inp'.LastAnswer (.error f)) := by
  have hnone : copied ++ ByteArray.empty = copied := ByteArray.append_empty
  by_cases hn : n = 0
  · rw [Input.read, if_pos hn] at hread
    cases hread
    exact ⟨by omega, .inl ⟨_, rfl, by simp, by rwa [hnone], fun hpos => absurd hn hpos⟩⟩
  · cases hrefill : inp.refill src.recorded with
    | mk found inp₁ =>
      obtain ⟨hkept, hreads, hfound⟩ := h.refill hrefill
      rw [Input.read, if_neg hn, hrefill] at hread
      rcases hfound with ⟨hanswer, hunread⟩ | ⟨hanswer, hdry⟩ | ⟨f, hanswer, hfailed⟩
      · subst hanswer
        have hcount : min inp₁.chunk.unread n ≤ inp₁.chunk.unread := Nat.min_le_left _ _
        have hsize := size_next hcount
        cases hread
        refine ⟨hreads, .inl ⟨inp₁.next (min inp₁.chunk.unread n), rfl, by omega,
          hkept.advanceUnread hcount, ?_⟩⟩
        intro hpos hzero
        omega
      · subst hanswer
        cases hread
        exact ⟨hreads, .inl ⟨_, rfl, by simp, by rwa [hnone], fun _ _ => hdry⟩⟩
      · subst hanswer
        cases hread
        exact ⟨hreads, .inr ⟨f, rfl, hkept, hfailed⟩⟩

end Conserved

/-- A read of some bytes has returned none. -/
def ReadNone (src : Source σ) (inp' : Input (σ × List ReadCall)) : Prop :=
  ∃ (n : Nat) (inp : Input (σ × List ReadCall)), n ≠ 0 ∧
    inp.read src.recorded n = (.ok ByteArray.empty, inp') ∧ inp'.Dry

/-- An exact read copies as many bytes as it is asked for, or fails: because a
read has returned none, or because the source has failed.  It reads the source
no more often than there are bytes to copy. -/
theorem Conserved.takeOnto (h : Conserved src first total all copied inp) {need : Nat}
    {taken bytes : ByteArray} {answer : Except ReadError Unit}
    (htake : inp.takeOnto src.recorded need taken = (answer, bytes, inp')) :
    ∃ more, bytes = taken ++ more ∧ Conserved src first total all (copied ++ more) inp' ∧
      inp'.state.2.length ≤ inp.state.2.length + need ∧
      ((answer = .ok () ∧ more.size = need) ∨
        (answer = .error .exhausted ∧ ReadNone src inp') ∨
        ∃ f, answer = .error (.source f) ∧ inp'.LastAnswer (.error f)) := by
  -- by induction on what is still needed, of which every read that goes on has some
  induction need using Nat.strongRecOn generalizing inp copied taken with
  | _ need ih =>
    have hnone : copied ++ ByteArray.empty = copied := ByteArray.append_empty
    have htaken : taken = taken ++ ByteArray.empty := ByteArray.append_empty.symm
    rw [Input.takeOnto] at htake
    by_cases hneed : need = 0
    · rw [if_pos hneed] at htake
      cases htake
      exact ⟨_, htaken, by rwa [hnone], by omega, .inl ⟨rfl, by simp [hneed]⟩⟩
    · rw [if_neg hneed] at htake
      cases hread : inp.read src.recorded need with
      | mk found inp₁ =>
        obtain ⟨hreads, hfound⟩ := h.read hread
        rw [hread] at htake
        rcases hfound with ⟨some, hanswer, hsome, hkept, hdry⟩ | ⟨f, hanswer, hkept, hfailed⟩
        · subst hanswer
          by_cases hzero : some.size = 0
          · simp only [if_pos hzero] at htake
            cases htake
            have hempty := ByteArray.size_eq_zero_iff.mp hzero
            subst hempty
            exact ⟨_, htaken, hkept, by omega,
              .inr (.inl ⟨rfl, need, inp, hneed, hread, hdry hneed hzero⟩)⟩
          · simp only [if_neg hzero] at htake
            obtain ⟨more, hbytes, hkept', hreads', hend⟩ := ih _ (by omega) hkept htake
            refine ⟨some ++ more, ?_, ?_, by omega, ?_⟩
            · rw [hbytes, ByteArray.append_assoc]
            · rwa [← ByteArray.append_assoc]
            · rcases hend with ⟨hok, hsize⟩ | hend
              · exact .inl ⟨hok, by rw [ByteArray.size_append]; omega⟩
              · exact .inr hend
        · subst hanswer
          cases htake
          exact ⟨_, htaken, by rwa [hnone], by omega, .inr (.inr ⟨f, rfl, hfailed⟩)⟩

/-- An exact read of bytes, from the first one on. -/
theorem Conserved.take (h : Conserved src first total all copied inp) {n : Nat}
    {bytes : ByteArray} {answer : Except ReadError Unit}
    (htake : inp.take src.recorded n = (answer, bytes, inp')) :
    Conserved src first total all (copied ++ bytes) inp' ∧
      inp'.state.2.length ≤ inp.state.2.length + n ∧
      ((answer = .ok () ∧ bytes.size = n) ∨
        (answer = .error .exhausted ∧ ReadNone src inp') ∨
        ∃ f, answer = .error (.source f) ∧ inp'.LastAnswer (.error f)) := by
  obtain ⟨more, hbytes, hkept⟩ := h.takeOnto htake
  rw [ByteArray.empty_append] at hbytes
  subst hbytes
  exact hkept

/-! ## runs of calls -/

/-- What one call preserves. -/
theorem Conserved.perform (h : Conserved src first total all copied inp) (c : Call) :
    Conserved src first total all (copied ++ (c.perform src.recorded inp).1)
      (c.perform src.recorded inp).2 := by
  cases c with
  | read n =>
      cases hread : inp.read src.recorded n with
      | mk answer inp' =>
        simp only [Call.perform, hread]
        rcases (h.read hread).2 with ⟨bytes, hanswer, -, hkept, -⟩ | ⟨f, hanswer, hkept, -⟩
        · subst hanswer
          exact hkept
        · subst hanswer
          rwa [ByteArray.append_empty]
  | readExact n => exact (h.take rfl).1
  | readU32 =>
      simp only [Call.perform, le_eq_take]
      exact (h.take rfl).1

/-- What a run of calls preserves. -/
theorem Conserved.performAll (h : Conserved src first total all copied inp) (calls : List Call) :
    Conserved src first total all (copied ++ (Call.performAll src.recorded calls inp).1)
      (Call.performAll src.recorded calls inp).2 := by
  induction calls generalizing copied inp with
  | nil =>
      rw [Call.performAll, ByteArray.append_empty]
      exact h
  | cons c calls ih =>
      have hnext := ih (h.perform c)
      rw [ByteArray.append_assoc] at hnext
      exact hnext

section

variable {τ : Type} {R : σ → τ → Prop} {E : Status → Prop} {src' : Source τ} {other : Input σ}
  {other' : Input τ}

/-- A call copies the same bytes from inputs in step. -/
theorem InStep.perform (h : src.Keeps R E src') (hE : ∀ n, E (Status.error n))
    (hstep : other.InStep R other') (c : Call) :
    (c.perform src' other').1 = (c.perform src other).1 ∧
      (c.perform src other).2.InStep R (c.perform src' other').2 := by
  cases c with
  | read n =>
      obtain ⟨hanswer, -, hleft⟩ := alike_read h hE n other other' hstep
      simp only [Call.perform]
      cases hread : other.read src n with
      | mk answer next =>
        cases hread' : other'.read src' n with
        | mk answer' next' =>
          rw [hread, hread'] at hanswer hleft
          cases hanswer
          cases answer with
          | ok bytes => exact ⟨rfl, hleft⟩
          | error e => exact ⟨rfl, hleft⟩
  | readExact n =>
      obtain ⟨r, bytes, next, next', htake, htake', -, hleft⟩ :=
        takeOnto_inStep h hE n ByteArray.empty hstep
      simp only [Call.perform, Input.take, htake, htake']
      exact ⟨trivial, hleft⟩
  | readU32 =>
      obtain ⟨r, bytes, next, next', htake, htake', -, hleft⟩ :=
        takeOnto_inStep h hE 4 ByteArray.empty hstep
      simp only [Call.perform, le_eq_take, Input.take, htake, htake']
      exact ⟨trivial, hleft⟩

/-- So does a run of calls. -/
theorem InStep.performAll (h : src.Keeps R E src') (hE : ∀ n, E (Status.error n))
    (hstep : other.InStep R other') (calls : List Call) :
    (Call.performAll src' calls other').1 = (Call.performAll src calls other).1 ∧
      (Call.performAll src calls other).2.InStep R (Call.performAll src' calls other').2 := by
  induction calls generalizing other other' with
  | nil => exact ⟨rfl, hstep⟩
  | cons c calls ih =>
      obtain ⟨hfirst, hleft⟩ := hstep.perform h hE c
      obtain ⟨hothers, hend⟩ := ih hleft
      simp only [Call.performAll, hfirst, hothers]
      exact ⟨trivial, hend⟩

end

/-- What the next call on an input answers.  An error says where it comes from:
a source may fail with any status, also with that of an input that has ended. -/
structure Answers (src : Source σ) (inp : Input (σ × List ReadCall)) : Prop where
  read : ∀ n answer inp', inp.read src.recorded n = (answer, inp') →
    (∃ bytes, answer = .ok bytes ∧ bytes.size ≤ n ∧ (n ≠ 0 → bytes.size = 0 → inp'.Dry)) ∨
      ∃ f, answer = .error (.source f) ∧ inp'.LastAnswer (.error f)
  readExact : ∀ n answer bytes inp', inp.take src.recorded n = (answer, bytes, inp') →
    (answer = .ok () ∧ bytes.size = n) ∨ (answer = .error .exhausted ∧ ReadNone src inp') ∨
      ∃ f, answer = .error (.source f) ∧ inp'.LastAnswer (.error f)
  readU32 : Reader.le src.recorded id 4 inp =
    ((inp.take src.recorded 4).1.map fun _ =>
        Bytes.leNat (inp.take src.recorded 4).2.1 0 4,
      (inp.take src.recorded 4).2.2)
  /-- An exact read ends: it reads the source at most once for every byte. -/
  terminates : ∀ n,
    (inp.take src.recorded n).2.2.state.2.length ≤ inp.state.2.length + n

theorem Conserved.answers (h : Conserved src first total all copied inp) : Answers src inp where
  read := by
    intro n answer inp' hread
    cases (h.read hread).2 with
    | inl hok =>
        obtain ⟨bytes, hanswer, hsize, -, hdry⟩ := hok
        exact .inl ⟨bytes, hanswer, hsize, hdry⟩
    | inr herror =>
        obtain ⟨f, hanswer, -, hfailed⟩ := herror
        exact .inr ⟨f, hanswer, hfailed⟩
  readExact := fun _ _ _ _ htake => (h.take htake).2.2
  readU32 := le_eq_take inp 4
  terminates := fun _ => (h.take rfl).2.1

/-- **Nothing is lost, handed out twice or moved.**  From any first chunk, any
source that has the bytes `all` and fails where it likes, and any declared
length, after any run of calls: what has been copied, then what is in the chunk,
then what is in the source is what was there at the start; as much has been
consumed as was in the chunk and has been handed out; and the next call answers
as `Answers` says.  The record of the source's reads changes nothing of this. -/
theorem conserved_of_serves {s : σ} (h : src.Serves s all) (first : Buffer) (total : Nat)
    (calls : List Call) :
    let run := Call.performAll src.recorded calls (start first (s, []) total)
    Conserved src first total all run.1 run.2 ∧ Answers src run.2 ∧
      run.1 = (Call.performAll src calls (start first s total)).1 ∧
      (Call.performAll src calls (start first s total)).2.InStep OnRecord run.2 := by
  intro run
  have hkept : Conserved src first total all (ByteArray.empty ++ run.1) run.2 :=
    (conserved_start h first total).performAll calls
  rw [ByteArray.empty_append] at hkept
  have hstep : (start first s total).InStep OnRecord (start first (s, []) total) :=
    inStep_start first total rfl
  obtain ⟨hsame, hend⟩ := hstep.performAll src.keeps_recorded (fun _ => trivial) calls
  exact ⟨hkept, hkept.answers, hsame, hend⟩

/-- A chunk whose first byte has been read, with room for two more. -/
def halfReadBuffer : Buffer :=
  ⟨[9, 8, 0, 0].toByteArray, 2, 1, by decide, by decide⟩

/-- Five bytes, two at a time, of which the second read fails. -/
def faultySupply : FaultySupply where
  supply := { bytes := [1, 2, 3, 4, 5].toByteArray, maxRead := some 2 }
  fault := some (1, Status.error 7)

/-- A number, of which the first bytes are copied before the source fails, and
then the rest. -/
theorem conserved_of_serves_faulty :
    (FaultySupply.source 5).Serves faultySupply [1, 2, 3, 4, 5].toByteArray ∧
      let run := Call.performAll (FaultySupply.source 5).recorded [.readU32, .readExact 3, .read 9]
        (start halfReadBuffer (faultySupply, []) 7)
      Conserved (FaultySupply.source 5) halfReadBuffer 7 [1, 2, 3, 4, 5].toByteArray
          run.1 run.2 ∧
        run.1 = [8, 1, 2, 3, 4, 5].toByteArray := by
  have hserves : (FaultySupply.source 5).Serves faultySupply [1, 2, 3, 4, 5].toByteArray :=
    FaultySupply.serves 5 faultySupply
  exact ⟨hserves, (conserved_of_serves hserves halfReadBuffer 7 _).1, by decide +kernel⟩

end EfiLoader.Input
