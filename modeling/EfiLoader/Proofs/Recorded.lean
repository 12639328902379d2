import EfiLoader.Proofs.Lockstep.Reader

/-!
# EfiLoader.Proofs.Recorded

Sources with their reads on record.  `src.recorded` reads as `src` does and
keeps what every read was asked for and what it answered, so that one can speak
about the reads of a run:

* `Source.keeps_recorded` — nothing else changes;
* `handed` — the bytes that the reads on record have handed out;
* `failure?` — the status that the last failed one has failed with;
* `Input.failure?_read` — what a read of an input makes of it.
-/

namespace EfiLoader

open Log

variable {σ : Type}

/-- One read: how many bytes it was asked for, and what it answered. -/
structure ReadCall where
  asked : Nat
  answer : Except SourceError ReadResult

namespace ReadCall

/-- The bytes that the read handed out. -/
def bytes (c : ReadCall) : ByteArray :=
  match c.answer with
  | .ok r => r.bytes.extract 0 r.count
  | .error _ => ByteArray.empty

/-- The status that the read failed with.  More bytes than it was asked for are
a failure as well. -/
def failure? (c : ReadCall) : Option Status :=
  match c.answer with
  | .ok r => if c.asked < r.count then some Status.invalidParameter else none
  | .error e => some e.status

end ReadCall

/-- The bytes that reads have handed out, the last read first. -/
def handed : List ReadCall → ByteArray
  | [] => ByteArray.empty
  | c :: earlier => handed earlier ++ c.bytes

/-- The status of the last read that has failed. -/
def failure? (reads : List ReadCall) : Option Status := reads.findSome? ReadCall.failure?

/-- The answer of the last read. -/
def lastAnswer? (reads : List ReadCall) : Option (Except SourceError ReadResult) :=
  reads.head?.map ReadCall.answer

/-- The source with its reads on record, the last one first. -/
def Source.recorded (src : Source σ) : Source (σ × List ReadCall) where
  size := src.size
  read n s := ((src.read n s.1).1, (src.read n s.1).2, ⟨n, (src.read n s.1).1⟩ :: s.2)

/-- The same state, once with a record of reads. -/
def OnRecord (s : σ) (t : σ × List ReadCall) : Prop := t.1 = s

/-- A record changes nothing. -/
theorem Source.keeps_recorded (src : Source σ) :
    src.Keeps OnRecord (fun _ => True) src.recorded where
  size_eq := rfl
  read := by
    intro n s t hst
    unfold OnRecord at hst
    subst hst
    exact ⟨rfl, fun _ _ => trivial, rfl⟩

/-- The input with an empty record. -/
def Input.recorded (inp : Input σ) : Input (σ × List ReadCall) :=
  { inp with state := (inp.state, []) }

theorem Input.inStep_recorded (inp : Input σ) : inp.InStep OnRecord inp.recorded :=
  ⟨rfl, rfl, rfl, rfl⟩

/-! ## failed reads -/

/-- A failed read goes before what has failed earlier. -/
theorem failure?_cons (c : ReadCall) (reads : List ReadCall) :
    failure? (c :: reads) = (c.failure? <|> failure? reads) := by
  rw [failure?, List.findSome?_cons]
  cases c.failure? <;> rfl

namespace Input

/-- Getting a chunk leaves the status of the last failed read, unless the read
for it fails. -/
theorem failure?_refill (src : Source σ) (inp : Input (σ × List ReadCall)) :
    failure? (inp.refill src.recorded).2.state.2 =
      match (inp.refill src.recorded).1 with
      | .ok _ => failure? inp.state.2
      | .error e => some e.status := by
  unfold refill
  by_cases hunread : inp.chunk.unread ≠ 0
  · rw [if_pos hunread]
  · rw [if_neg hunread]
    by_cases hend : inp.total ≤ inp.consumed
    · rw [if_pos hend]
    · rw [if_neg hend]
      simp only [Source.recorded]
      cases hread : src.read inp.chunk.clear.room inp.state.1 with
      | mk answer s =>
        cases answer with
        | error e => rfl
        | ok r =>
            simp only
            by_cases hcount : r.count ≤ inp.chunk.clear.room
            · have hpass : ReadCall.failure? ⟨inp.chunk.clear.room, .ok r⟩ = none :=
                if_neg (Nat.not_lt.mpr hcount)
              rw [Buffer.commit, dif_pos (by rwa [Buffer.room_store])]
              simp only [failure?_cons, hpass]
              rfl
            · have hfail : ReadCall.failure? ⟨inp.chunk.clear.room, .ok r⟩ =
                  some Status.invalidParameter := if_pos (Nat.not_le.mp hcount)
              rw [Buffer.commit, dif_neg (by rwa [Buffer.room_store])]
              simp only [failure?_cons, hfail]
              rfl

/-- A read that does not fail leaves the status of the last failed one, and one
that fails takes its place. -/
theorem failure?_read (src : Source σ) (inp : Input (σ × List ReadCall)) (n : Nat) :
    failure? (inp.read src.recorded n).2.state.2 =
      match (inp.read src.recorded n).1 with
      | .ok _ => failure? inp.state.2
      | .error e => some e.status := by
  unfold read
  by_cases hn : n = 0
  · rw [if_pos hn]
  · rw [if_neg hn]
    have hrefill := failure?_refill src inp
    cases hrun : inp.refill src.recorded with
    | mk answer inp' =>
      rw [hrun] at hrefill
      cases answer with
      | error e => exact hrefill
      | ok found => cases found <;> exact hrefill

end Input

end EfiLoader
