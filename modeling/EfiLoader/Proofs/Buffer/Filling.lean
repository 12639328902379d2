import EfiLoader.Proofs.Buffer.Loose

/-!
# EfiLoader.Proofs.Buffer.Filling

Buffers that are used again and again.  What is committed is told beside the
buffer, so that it can be compared with what the buffer has in the end:

* `growGranted_eq_grow`, `perform_write_zero` — uses of the buffers of a loader;
* `perform_cases` — what a use makes of a buffer, or why it is refused;
* `Filling.Shows.perform` — what one use adds is told, and only clearing drops it;
* `intact_in_use` — what is committed stays as it is until the buffer is cleared.
-/

namespace EfiLoader.Buffer

open Log

/-! ## the buffers of a loader -/

/-- The buffers of a loader grow if the allocator grants the capacity. -/
theorem growGranted_eq_grow [Allocator] (b : Buffer) (capacity : Nat) :
    b.growGranted capacity (Allocator.grants capacity) = b.grow capacity := by
  unfold growGranted grow
  by_cases hle : capacity ≤ b.storage.size
  · rw [if_pos hle]
    exact dif_pos hle
  · rw [if_neg hle]
    refine (dif_neg hle).trans ?_
    by_cases hgranted : Allocator.grants capacity
    · rw [if_pos hgranted, if_pos ⟨Allocator.le_of_grants hgranted, hgranted⟩]
      simp only [widen, resized_of_le (Nat.le_of_not_le hle)]
    · rw [if_neg hgranted, if_neg fun h => hgranted h.2]

/-- Bytes that are written at the start of the unfilled part stand where they
would be written in the storage. -/
theorem overwrite_unfilled_zero (b : Buffer) (bytes : ByteArray) :
    Bytes.overwrite b.storage b.len (Bytes.overwrite b.unfilled 0 bytes) =
      Bytes.overwrite b.storage b.len bytes := by
  have hunfilled : b.unfilled.size = b.storage.size - b.len := Bytes.size_drop b.storage b.len
  refine Bytes.ext_byte (by simp) fun i hi => ?_
  rw [Bytes.size_overwrite] at hi
  simp only [Bytes.byte_overwrite, Bytes.size_overwrite, hunfilled, Nat.sub_zero]
  -- The storage and its unfilled part end at the same place, and both writes with them.
  by_cases hlen : b.len ≤ i
  · have hold : Bytes.byte b.unfilled (i - b.len) = Bytes.byte b.storage i := by
      rw [unfilled, ← Bytes.drop, Bytes.byte_drop, Nat.add_sub_cancel' hlen]
    rw [if_pos (by omega), hold]
    by_cases hsrc : i < b.len + bytes.size
    · rw [if_pos (by omega), if_pos (by omega)]
    · rw [if_neg (by omega), if_neg (by omega)]
  · rw [if_neg (by omega), if_neg (by omega)]

/-- The buffers of a loader are written to at the start of the unfilled part. -/
theorem perform_write_zero (b : Buffer) (bytes : ByteArray) :
    b.perform (.write 0 bytes) = .ok (b.store bytes) := by
  simp only [perform, store, overwrite_unfilled_zero]

/-! ## what uses do -/

/-- What a use makes of a buffer if it succeeds. -/
inductive Becomes (b : Buffer) : Use → Buffer → Prop
  | commit {count : Nat} (h : count ≤ b.room) : Becomes b (.commit count) (b.commitRoom count h)
  | advance {count : Nat} (h : count ≤ b.unread) :
      Becomes b (.advance count) (b.advanceUnread count h)
  | keep {capacity : Nat} {granted : Bool} :
      capacity ≤ b.capacity → Becomes b (.grow capacity granted) b
  | widen {capacity : Nat} {granted : Bool} (h : b.capacity ≤ capacity) :
      Reserved granted capacity → Becomes b (.grow capacity granted) (b.widen capacity h)
  | clear : Becomes b .clear b.clear
  | write {offset : Nat} {bytes : ByteArray} :
      Becomes b (.write offset bytes) (b.store (Bytes.overwrite b.unfilled offset bytes))

/-- Why a use is refused, and with which status. -/
inductive Refused (b : Buffer) : Use → Status → Prop
  | commit {count : Nat} :
      addressLimit ≤ b.len + count ∨ b.capacity < b.len + count →
      Refused b (.commit count) Status.invalidParameter
  | advance {count : Nat} :
      addressLimit ≤ b.pos + count ∨ b.len < b.pos + count →
      Refused b (.advance count) Status.invalidParameter
  | grow {capacity : Nat} {granted : Bool} :
      b.capacity < capacity → mostBytes < capacity ∨ granted = false →
      Refused b (.grow capacity granted) Status.outOfResources

/-- A use succeeds or is refused. -/
theorem perform_cases (b : Buffer) (u : Use) :
    (∃ b', b.perform u = .ok b' ∧ b.Becomes u b') ∨
      ∃ e, b.perform u = .error e ∧ b.Refused u (Fault.status e) := by
  cases u with
  | commit count =>
    by_cases hroom : count ≤ b.room
    · exact .inl ⟨_, dif_pos hroom, .commit hroom⟩
    · have hlt : b.capacity < b.len + count := Nat.lt_of_not_le (mt le_room_iff.mpr hroom)
      exact .inr ⟨.count, dif_neg hroom, .commit (.inr hlt)⟩
  | advance count =>
    by_cases hunread : count ≤ b.unread
    · exact .inl ⟨_, dif_pos hunread, .advance hunread⟩
    · have hlt : b.len < b.pos + count := Nat.lt_of_not_le (mt le_unread_iff.mpr hunread)
      exact .inr ⟨.count, dif_neg hunread, .advance (.inr hlt)⟩
  | grow capacity granted =>
    by_cases hle : capacity ≤ b.capacity
    · exact .inl ⟨b, dif_pos hle, .keep hle⟩
    · have hwider := Nat.le_of_not_le hle
      by_cases hreserved : Reserved granted capacity
      · exact .inl ⟨_, (dif_neg hle).trans (if_pos hreserved), .widen hwider hreserved⟩
      · have hnone : mostBytes < capacity ∨ granted = false := by
          by_cases hmuch : mostBytes < capacity
          · exact .inl hmuch
          · refine .inr (Bool.eq_false_iff.mpr fun hgranted => ?_)
            exact hreserved ⟨Nat.le_of_not_lt hmuch, hgranted⟩
        exact .inr ⟨.grow capacity, (dif_neg hle).trans (if_neg hreserved),
          .grow (Nat.lt_of_not_le hle) hnone⟩
  | clear => exact .inl ⟨b.clear, rfl, .clear⟩
  | write offset bytes => exact .inl ⟨_, rfl, .write⟩

variable {b b' : Buffer} {u : Use}

theorem becomes_of_perform (h : b.perform u = .ok b') : b.Becomes u b' := by
  rcases b.perform_cases u with ⟨b₁, hperform, hbecomes⟩ | ⟨e, hperform, -⟩
  · rw [hperform] at h
    cases h
    exact hbecomes
  · rw [hperform] at h
    cases h

theorem refused_of_perform {e : Error} (h : b.perform u = .error e) :
    b.Refused u (Fault.status e) := by
  rcases b.perform_cases u with ⟨b₁, hperform, -⟩ | ⟨e', hperform, hrefused⟩
  · rw [hperform] at h
    cases h
  · rw [hperform] at h
    cases h
    exact hrefused

/-- A use that succeeds is not one that is refused. -/
theorem Becomes.not_refused (h : b.Becomes u b') (hmost : b.capacity ≤ mostBytes)
    (status : Status) : ¬ b.Refused u status := by
  have hlimit : mostBytes < addressLimit := by decide
  have hlen : b.len ≤ mostBytes := Nat.le_trans b.len_le hmost
  -- A sum that is in bounds has 64 bits, so neither reason to refuse it is left.
  rintro (hout | hout | ⟨hlt, hnone⟩)
  · cases h with
    | commit hroom =>
      have hle : b.len + _ ≤ b.capacity := le_room_iff.mp hroom
      omega
  · cases h with
    | advance hunread =>
      have hle := le_unread_iff.mp hunread
      omega
  · cases h with
    | keep hle => omega
    | widen _ hreserved =>
      rcases hnone with hmuch | hdenied
      · exact absurd hreserved.1 (Nat.not_le.mpr hmuch)
      · exact absurd hreserved.2 (by rw [hdenied]; decide)

theorem Becomes.capacity_le (h : b.Becomes u b') : b.capacity ≤ b'.capacity := by
  cases h with
  | commit => exact Nat.le_refl _
  | advance => exact Nat.le_refl _
  | keep => exact Nat.le_refl _
  | widen hle => exact Nat.le_trans hle (Nat.le_of_eq (size_resized b.storage _).symm)
  | clear => exact Nat.le_refl _
  | write => exact Nat.le_of_eq (size_storage_store b _).symm

theorem Becomes.capacity_le_mostBytes (h : b.Becomes u b') (hmost : b.capacity ≤ mostBytes) :
    b'.capacity ≤ mostBytes := by
  cases h with
  | commit => exact hmost
  | advance => exact hmost
  | keep => exact hmost
  | widen _ hreserved => exact Nat.le_trans (Nat.le_of_eq (size_resized b.storage _)) hreserved.1
  | clear => exact hmost
  | write => exact Nat.le_trans (Nat.le_of_eq (size_storage_store b _)) hmost

/-! ## what is committed -/

/-- What has been committed after a use of a buffer with these unfilled bytes. -/
def Use.tell (unfilled told : ByteArray) : Use → ByteArray
  | .commit count => told ++ unfilled.extract 0 count
  | .clear => ByteArray.empty
  | .advance _ | .grow _ _ | .write _ _ => told

theorem committed_append_unfilled (b : Buffer) : b.committed ++ b.unfilled = b.storage :=
  Bytes.extract_append_drop b.storage b.len

theorem committed_commitRoom (b : Buffer) (count : Nat) (h : count ≤ b.room) :
    (b.commitRoom count h).committed = b.committed ++ b.unfilled.extract 0 count := by
  have hextract := Bytes.extract_append_extract_drop b.storage (Nat.le_add_right b.len count)
  rw [Nat.add_sub_cancel_left] at hextract
  exact hextract.symm

theorem committed_widen (b : Buffer) {size : Nat} (h : b.capacity ≤ size) :
    (b.widen size h).committed = b.committed := by
  have hstorage : (b.widen size h).storage = b.storage ++ Bytes.zeros (size - b.storage.size) :=
    resized_of_le h
  rw [committed, hstorage]
  exact Bytes.extract_append_left _ b.len_le

/-- What is committed is added at the end, and only clearing drops it. -/
theorem Becomes.committed (h : b.Becomes u b') :
    b'.committed = u.tell b.unfilled b.committed := by
  cases h with
  | commit hroom => exact committed_commitRoom b _ hroom
  | advance => rfl
  | keep => rfl
  | widen hle => exact committed_widen b hle
  | clear => exact committed_clear b
  | write => exact committed_store b _

/-- What is committed stays where it is. -/
theorem Becomes.exists_append (h : b.Becomes u b') (hclear : u ≠ .clear) :
    ∃ more, b'.committed = b.committed ++ more := by
  rw [h.committed]
  cases u with
  | commit count => exact ⟨b.unfilled.extract 0 count, rfl⟩
  | advance => exact ⟨ByteArray.empty, ByteArray.append_empty.symm⟩
  | grow => exact ⟨ByteArray.empty, ByteArray.append_empty.symm⟩
  | clear => exact absurd rfl hclear
  | write => exact ⟨ByteArray.empty, ByteArray.append_empty.symm⟩

/-! ## a buffer in use -/

/-- A buffer that nothing is known of, and what was committed since it was last
cleared. -/
structure Filling where
  buffer : Loose
  told : ByteArray

namespace Filling

/-- Use the buffer, and tell what is committed if the use succeeds. -/
def perform (f : Filling) (u : Use) : Option Filling := do
  let unfilled ← f.buffer.unfilled?
  let (result, buffer) ← u.step f.buffer
  match result with
  | .ok () => return ⟨buffer, u.tell unfilled f.told⟩
  | .error _ => return ⟨buffer, f.told⟩

def performAll (f : Filling) (uses : List Use) : Option Filling := uses.foldlM perform f

/-- It is the buffer `b`, which has committed what is told. -/
structure Shows (f : Filling) (b : Buffer) : Prop where
  buffer : f.buffer = b.loose
  told : f.told = b.committed
  capacity : b.capacity ≤ mostBytes

theorem Shows.perform {f : Filling} {b : Buffer} (h : f.Shows b) (u : Use) :
    ∃ f' b', f.perform u = some f' ∧ f'.Shows b' ∧ b.capacity ≤ b'.capacity := by
  have hstep := step_eq h.capacity u
  unfold Filling.perform
  rw [h.buffer, Loose.unfilled?_eq]
  rcases b.perform_cases u with ⟨b', hperform, hbecomes⟩ | ⟨e, hperform, -⟩
  · rw [hperform] at hstep
    refine ⟨⟨b'.loose, u.tell b.unfilled f.told⟩, b', ?_, ⟨rfl, ?_, ?_⟩, hbecomes.capacity_le⟩
    · simp only [Option.bind_eq_bind, Option.bind_some, hstep, settled]
      rfl
    · rw [h.told, hbecomes.committed]
    · exact hbecomes.capacity_le_mostBytes h.capacity
  · rw [hperform] at hstep
    refine ⟨⟨b.loose, f.told⟩, b, ?_, ⟨rfl, h.told, h.capacity⟩, Nat.le_refl _⟩
    simp only [Option.bind_eq_bind, Option.bind_some, hstep, settled]
    rfl

theorem Shows.performAll {f : Filling} {b : Buffer} (h : f.Shows b) (uses : List Use) :
    ∃ f' b', f.performAll uses = some f' ∧ f'.Shows b' ∧ b.capacity ≤ b'.capacity := by
  -- Each use may leave another buffer, so the rest of the uses is of any buffer.
  induction uses generalizing f b with
  | nil => exact ⟨f, b, rfl, h, Nat.le_refl _⟩
  | cons u uses ih =>
    obtain ⟨f₁, b₁, hfirst, hshows, hle⟩ := h.perform u
    obtain ⟨f', b', hrest, hlast, hle'⟩ := ih hshows
    refine ⟨f', b', ?_, hlast, Nat.le_trans hle hle'⟩
    rw [Filling.performAll, List.foldlM_cons, hfirst]
    exact hrest

end Filling

/-! ## buffers that are made -/

/-- How a buffer comes to be, and what is committed in it then. -/
inductive Made : Loose → ByteArray → Prop
  | empty : Made empty.loose ByteArray.empty
  | ofBytes {bytes : ByteArray} : bytes.size ≤ mostBytes → Made (ofBytes bytes).loose bytes
  | allocate {capacity : Nat} {granted : Bool} {b : Loose} :
      Loose.allocate capacity granted = .ok b → Made b ByteArray.empty

/-- What a loader allocates is made in this way. -/
theorem Made.of_allocate [Allocator] {capacity : Nat} {b : Buffer}
    (h : Buffer.allocate capacity = .ok b) : Made b.loose ByteArray.empty := by
  unfold Buffer.allocate at h
  split at h
  · next hgranted =>
    cases h
    refine @Made.allocate capacity true _ ?_
    have hmost : capacity ≤ mostBytes := Allocator.le_of_grants hgranted
    have hzeros : resized ByteArray.empty capacity = Bytes.zeros capacity := by
      rw [resized_of_le (Nat.zero_le _), ByteArray.empty_append]
      rfl
    rw [Loose.allocate, if_pos ⟨hmost, rfl⟩, hzeros]
    rfl
  · cases h

/-- However it was made, it is a buffer. -/
theorem Made.shows {made : Loose} {data : ByteArray} (h : Made made data) :
    ∃ b, Filling.Shows ⟨made, data⟩ b ∧ made.storage.size = b.capacity := by
  cases h with
  | empty => exact ⟨Buffer.empty, ⟨rfl, committed_empty.symm, Nat.zero_le _⟩, rfl⟩
  | ofBytes hsize => exact ⟨Buffer.ofBytes data, ⟨rfl, (committed_ofBytes data).symm, hsize⟩, rfl⟩
  | allocate hallocate =>
    unfold Loose.allocate at hallocate
    split at hallocate
    · next hreserved =>
      cases hallocate
      have hsize := size_resized ByteArray.empty
      refine ⟨⟨resized ByteArray.empty _, 0, 0, Nat.le_refl 0, Nat.zero_le _⟩,
        ⟨rfl, ByteArray.extract_same.symm, ?_⟩, rfl⟩
      exact Nat.le_trans (Nat.le_of_eq (hsize _)) hreserved.1
    · cases hallocate

/-- **Committed bytes stay as they are until the buffer is cleared**, whatever is
done with it: bytes are committed, the cursor is moved, storage is asked for,
and the unfilled part is written to, in any order and any number of times.  It
never stops, and the cursor never passes the committed bytes nor these the
storage.  The committed bytes are those that have been told, the unread ones are
those behind the cursor, and with the unfilled ones they are the whole storage.
A use is refused for a sum that is too large or for lack of memory; then nothing
has changed.  A use that is not refused keeps what is in front of the bytes that
it commits, and the storage never becomes smaller.  Buffers of a loader grow, as
far as its allocator grants, and are stored to in this way. -/
theorem intact_in_use {made : Loose} {data : ByteArray} (h : Made made data) (uses : List Use) :
    ∃ b : Buffer,
      Filling.performAll ⟨made, data⟩ uses = some ⟨b.loose, b.committed⟩ ∧
      (b.pos ≤ b.len ∧ b.len ≤ b.capacity ∧ made.storage.size ≤ b.capacity) ∧
      b.loose.committed? = some b.committed ∧
      (b.loose.remaining? = some b.remaining ∧ b.remaining = Bytes.drop b.committed b.pos) ∧
      (b.loose.unfilled? = some b.unfilled ∧ b.committed ++ b.unfilled = b.storage) ∧
      (∀ u e, b.perform u = .error e →
        u.step b.loose = some (.error e, b.loose) ∧ b.Refused u (Fault.status e)) ∧
      (∀ u b', b.perform u = .ok b' →
        u.step b.loose = some (.ok (), b'.loose) ∧ (∀ status, ¬ b.Refused u status) ∧
          b.capacity ≤ b'.capacity ∧
          (u ≠ .clear → ∃ more, b'.committed = b.committed ++ more)) ∧
      (∀ [Allocator] (capacity : Nat), b.perform (.grow capacity (Allocator.grants capacity)) =
        b.grow capacity) ∧
      (∀ bytes, b.perform (.write 0 bytes) = .ok (b.store bytes)) := by
  obtain ⟨b₀, hshows₀, hsize⟩ := h.shows
  obtain ⟨⟨buffer, told⟩, b, hrun, hshows, hle⟩ := hshows₀.performAll uses
  obtain rfl : buffer = b.loose := hshows.buffer
  obtain rfl : told = b.committed := hshows.told
  refine ⟨b, hrun, ⟨b.pos_le, b.len_le, hsize ▸ hle⟩, Loose.committed?_eq b,
    ⟨Loose.remaining?_eq b, b.remaining_eq_drop⟩,
    ⟨Loose.unfilled?_eq b, b.committed_append_unfilled⟩, ?_, ?_,
    fun capacity => b.growGranted_eq_grow capacity, b.perform_write_zero⟩
  · intro u e herror
    have hstep := step_eq hshows.capacity u
    rw [herror] at hstep
    exact ⟨hstep, refused_of_perform herror⟩
  · intro u b' hok
    have hstep := step_eq hshows.capacity u
    rw [hok] at hstep
    have hbecomes := becomes_of_perform hok
    exact ⟨hstep, hbecomes.not_refused hshows.capacity, hbecomes.capacity_le,
      hbecomes.exists_append⟩

/-- Four bytes are committed and three of them read.  Then more is asked for than
there is, to be read, to be committed, and of memory. -/
def greedyUses : List Use :=
  [.write 0 "abcd".toUTF8, .commit 4, .advance 3, .advance 2, .commit 13, .commit (2 ^ 64 - 1),
    .grow 32 false]

/-- The four bytes are still there, and the fourth is still to be read. -/
theorem intact_in_use_greedy :
    let _ := Allocator.unlimited
    ∃ made, Buffer.allocate 16 = .ok made ∧ Made made.loose ByteArray.empty ∧
      ∃ b : Buffer,
        Filling.performAll ⟨made.loose, ByteArray.empty⟩ greedyUses =
          some ⟨b.loose, b.committed⟩ ∧
        b.committed = "abcd".toUTF8 ∧ b.remaining = "d".toUTF8 ∧ b.capacity = 16 := by
  intro allocator
  obtain ⟨made, hallocate⟩ : ∃ made, Buffer.allocate 16 = .ok made := ⟨_, if_pos (by decide)⟩
  have hmade := Made.of_allocate hallocate
  obtain ⟨b, hrun, -, -, ⟨-, hremaining⟩, -⟩ := intact_in_use hmade greedyUses
  have heval : (Filling.performAll ⟨made.loose, ByteArray.empty⟩ greedyUses).map
      (fun f => (f.told, f.buffer.pos, f.buffer.storage.size)) =
        some ("abcd".toUTF8, 3, 16) := by
    cases hallocate
    decide +kernel
  rw [hrun, Option.map_some, Option.some.injEq, Prod.mk.injEq, Prod.mk.injEq] at heval
  obtain ⟨hcommitted, hpos, hcapacity⟩ :
    b.committed = "abcd".toUTF8 ∧ b.pos = 3 ∧ b.capacity = 16 := heval
  refine ⟨made, hallocate, hmade, b, hrun, hcommitted, ?_, hcapacity⟩
  rw [hremaining, hcommitted, hpos]
  rfl

end EfiLoader.Buffer
