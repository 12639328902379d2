import EfiLoader.Console

/-!
# EfiLoader.Proofs.Console

Text on the console.  Text that is written in pieces and then flushed reaches
the console in chunks that end with a NUL of their own.  Without these NULs the
chunks make up the text with CR LF for newlines and question marks for what the
console cannot print; all of them but the last are full.

* `Writer.Holds.push` — what one unit does to the pending units and the chunks;
* `Slots.Shows.write` — the same in an array with one place for each unit;
* `chunksOf_carry_text` — where the text is cut does not depend on the pieces.
-/

namespace EfiLoader.Console

/-! ## the text on the console -/

/-- The characters that the console shows for a character. -/
def shown (c : Char) : List Char :=
  if c = '\n' then ['\r', '\n'] else if 0xFFFF < c.toNat then ['?'] else [c]

/-- The units of a character are the numbers of what is shown for it. -/
theorem units_eq_shown (c : Char) : (units c).map UInt16.toNat = (shown c).map Char.toNat := by
  unfold units shown unit
  by_cases hnewline : c = '\n'
  · subst hnewline
    rfl
  · rw [if_neg hnewline, if_neg hnewline]
    by_cases hplane : c.toNat ≤ 0xFFFF
    · rw [if_pos hplane, if_neg (by omega)]
      have hfits : (UInt16.ofNat c.toNat).toNat = c.toNat :=
        UInt16.toNat_ofNat_of_lt' (by rw [UInt16.size]; omega)
      rw [List.map_singleton, List.map_singleton, hfits]
    · rw [if_neg hplane, if_pos (by omega)]
      rfl

/-- So are the units of a text. -/
theorem flatMap_units_eq_shown (text : List Char) :
    (text.flatMap units).map UInt16.toNat = (text.flatMap shown).map Char.toNat := by
  simp only [List.map_flatMap, units_eq_shown]

/-- Every character has units. -/
theorem flatMap_units_eq_nil_iff (text : List Char) : text.flatMap units = [] ↔ text = [] := by
  cases text with
  | nil => simp
  | cons c text =>
      have hunits : units c ≠ [] := by
        unfold units
        split
        · exact List.cons_ne_nil _ _
        · exact List.cons_ne_nil _ _
      simp [hunits]

/-! ## chunks -/

/-- A chunk that holds `body`: it ends with a NUL that is not of the text. -/
def chunk (body : List UInt16) : List UInt16 := body ++ [0]

/-- A full chunk has room for nothing but its NUL. -/
def Full (c : List UInt16) : Prop := ∃ body, body.length = chunkLength - 1 ∧ c = chunk body

namespace Writer

/-- A writer that has got the units `us`: all of them are in chunks, which are
full, or pending, and one place is left for the NUL. -/
structure Holds (w : Writer) (us : List UInt16) : Prop where
  carried : (w.chunks.map List.dropLast).flatten ++ w.pending = us
  full : ∀ c ∈ w.chunks, Full c
  room : w.pending.length ≤ chunkLength - 1

theorem holds_empty : Holds {} [] := ⟨rfl, by simp, Nat.zero_le _⟩

/-- What flushing does if something is pending. -/
theorem flush_of_ne_nil {w : Writer} (h : w.pending ≠ []) :
    w.flush = ⟨[], w.chunks ++ [chunk w.pending]⟩ := by
  rw [flush, if_neg (by rwa [List.isEmpty_iff])]
  rfl

/-- A push with room left. -/
theorem push_of_ne {w : Writer} (h : w.pending.length ≠ chunkLength - 1) (u : UInt16) :
    w.push u = ⟨w.pending ++ [u], w.chunks⟩ := by
  rw [push, if_neg h]

/-- A push without room for the unit makes a chunk first. -/
theorem push_of_eq {w : Writer} (h : w.pending.length = chunkLength - 1) (u : UInt16) :
    w.push u = ⟨[u], w.chunks ++ [chunk w.pending]⟩ := by
  have hpending : w.pending ≠ [] := List.ne_nil_of_length_pos (by rw [h]; decide)
  rw [push, if_pos h, flush_of_ne_nil hpending]
  rfl

/-- One more unit is in a chunk or pending after a push. -/
theorem Holds.push {w : Writer} {us : List UInt16} (h : w.Holds us) (u : UInt16) :
    (w.push u).Holds (us ++ [u]) := by
  by_cases hfull : w.pending.length = chunkLength - 1
  · rw [push_of_eq hfull]
    refine ⟨?_, ?_, Nat.le_sub_one_of_lt (by decide : 1 < chunkLength)⟩
    · rw [← h.carried]
      simp [chunk]
    · intro c hc
      rcases List.mem_append.mp hc with hc | hc
      · exact h.full c hc
      · rw [List.mem_singleton.mp hc]
        exact ⟨w.pending, hfull, rfl⟩
  · rw [push_of_ne hfull]
    refine ⟨?_, h.full, ?_⟩
    · rw [← h.carried, List.append_assoc]
    · have := h.room
      rw [List.length_append, List.length_singleton]
      omega

theorem Holds.foldl_push {w : Writer} {us : List UInt16} (h : w.Holds us) (vs : List UInt16) :
    (vs.foldl Writer.push w).Holds (us ++ vs) := by
  induction vs generalizing w us with
  | nil => rwa [List.append_nil]
  | cons v vs ih =>
      have hstep := ih (h.push v)
      rwa [List.append_assoc, List.singleton_append] at hstep

/-- A text is written unit by unit. -/
theorem write_eq_foldl (w : Writer) (text : List Char) :
    w.write text = (text.flatMap units).foldl Writer.push w := by
  rw [List.foldl_flatMap]
  rfl

theorem Holds.write {w : Writer} {us : List UInt16} (h : w.Holds us) (text : List Char) :
    (w.write text).Holds (us ++ text.flatMap units) := by
  rw [write_eq_foldl]
  exact h.foldl_push _

/-- Texts that are written one after the other are written as one. -/
theorem foldl_write (w : Writer) (texts : List (List Char)) :
    texts.foldl Writer.write w = w.write texts.flatten := by
  rw [Writer.write, List.foldl_flatten]
  rfl

theorem Holds.foldl_write {w : Writer} {us : List UInt16} (h : w.Holds us)
    (texts : List (List Char)) :
    (texts.foldl Writer.write w).Holds (us ++ texts.flatten.flatMap units) := by
  rw [Writer.foldl_write]
  exact h.write _

end Writer

/-! ## an array with a place for each unit -/

/-- A writer whose pending units are the first ones in an array as long as a
chunk.  It stops if it uses a place that is not in the array. -/
structure Slots where
  places : Vector UInt16 chunkLength := Vector.replicate chunkLength 0
  /-- Number of units that are pending. -/
  used : Nat := 0
  chunks : List (List UInt16) := []

namespace Slots

/-- Put a unit in a place. -/
def put? (s : Slots) (i : Nat) (u : UInt16) : Option Slots :=
  if h : i < chunkLength then some { s with places := s.places.set i u } else none

/-- The units in the first `n` places. -/
def first? (s : Slots) (n : Nat) : Option (List UInt16) :=
  if n ≤ chunkLength then some (s.places.toList.take n) else none

/-- Hand the pending units over with a NUL behind them. -/
def flush? (s : Slots) : Option Slots :=
  if s.used = 0 then
    some s
  else do
    let s ← s.put? s.used 0
    let c ← s.first? (s.used + 1)
    return { s with used := 0, chunks := s.chunks ++ [c] }

/-- Add one unit, making room first if only the place of the NUL is left. -/
def push? (s : Slots) (u : UInt16) : Option Slots := do
  let s ← if s.used = chunkLength - 1 then s.flush? else some s
  let s ← s.put? s.used u
  return { s with used := s.used + 1 }

/-- Add a text. -/
def write? (s : Slots) (text : List Char) : Option Slots :=
  (text.flatMap units).foldlM push? s

/-- The chunks of texts written one after the other and then flushed. -/
def chunksOf? (texts : List (List Char)) : Option (List (List UInt16)) := do
  let s ← texts.foldlM write? {}
  let s ← s.flush?
  return s.chunks

/-- The array has the units that are pending in its first places. -/
structure Shows (s : Slots) (w : Writer) : Prop where
  pending : s.places.toList.take s.used = w.pending
  used : s.used = w.pending.length
  chunks : s.chunks = w.chunks

theorem shows_empty : Shows {} {} := ⟨rfl, rfl, rfl⟩

/-- What is in the first places when the next one gets a unit. -/
theorem take_set {s : Slots} {i : Nat} (h : i < chunkLength) (u : UInt16) :
    (s.places.set i u).toList.take (i + 1) = s.places.toList.take i ++ [u] := by
  have hlength : i < s.places.toList.length := by rwa [Vector.length_toList]
  rw [Vector.toList_set, List.take_add_one, List.take_set_of_le (Nat.le_refl i),
    List.getElem?_set_self hlength, Option.toList_some]

/-- Flushing needs a place behind the pending units. -/
theorem Shows.flush {s : Slots} {w : Writer} (h : s.Shows w)
    (hroom : w.pending.length ≤ chunkLength - 1) :
    ∃ s', s.flush? = some s' ∧ s'.Shows w.flush := by
  by_cases hempty : w.pending = []
  · have hused : s.used = 0 := by rw [h.used, hempty, List.length_nil]
    refine ⟨s, by rw [flush?, if_pos hused], ?_⟩
    rwa [Writer.flush, if_pos (List.isEmpty_iff.mpr hempty)]
  · have hused : s.used ≠ 0 := by
      rw [h.used]
      exact fun hlength => hempty (List.length_eq_zero_iff.mp hlength)
    have hplace : s.used < chunkLength := by
      have : chunkLength = 128 := rfl
      rw [h.used]
      omega
    rw [Writer.flush_of_ne_nil hempty]
    refine ⟨⟨s.places.set s.used 0, 0, s.chunks ++ [s.places.toList.take s.used ++ [0]]⟩, ?_, ?_⟩
    · rw [flush?, if_neg hused, put?, dif_pos hplace]
      simp only [Option.bind_eq_bind, Option.bind_some, first?, if_pos (Nat.succ_le_of_lt hplace),
        take_set hplace]
      rfl
    · exact ⟨rfl, rfl, by rw [h.chunks, h.pending, chunk]⟩

/-- A unit goes to the place behind the pending units. -/
theorem Shows.append {s : Slots} {w : Writer} (h : s.Shows w)
    (hroom : w.pending.length < chunkLength) (u : UInt16) :
    ∃ s', s.put? s.used u = some s' ∧
      Shows { s' with used := s'.used + 1 } ⟨w.pending ++ [u], w.chunks⟩ := by
  have hplace : s.used < chunkLength := h.used ▸ hroom
  refine ⟨{ s with places := s.places.set s.used u }, by rw [put?, dif_pos hplace], ?_⟩
  refine ⟨?_, ?_, h.chunks⟩
  · rw [← h.pending]
    exact take_set hplace u
  · rw [List.length_append, ← h.used, List.length_singleton]

/-- There is a place for every unit, since the array is flushed before it is
full. -/
theorem Shows.push {s : Slots} {w : Writer} (h : s.Shows w)
    (hroom : w.pending.length ≤ chunkLength - 1) (u : UInt16) :
    ∃ s', s.push? u = some s' ∧ s'.Shows (w.push u) := by
  by_cases hfull : w.pending.length = chunkLength - 1
  · obtain ⟨s₁, hflush, hshows⟩ := h.flush hroom
    have hpending : w.pending ≠ [] := List.ne_nil_of_length_pos (by rw [hfull]; decide)
    rw [Writer.flush_of_ne_nil hpending] at hshows
    obtain ⟨s₂, hput, hshows⟩ := hshows.append (by decide : 0 < chunkLength) u
    refine ⟨_, ?_, (Writer.push_of_eq hfull u).symm ▸ hshows⟩
    rw [push?, if_pos (h.used.trans hfull), hflush]
    simp only [Option.bind_eq_bind, Option.bind_some, hput]
    rfl
  · have hsome : w.pending.length < chunkLength := by
      have : chunkLength = 128 := rfl
      omega
    obtain ⟨s₁, hput, hshows⟩ := h.append hsome u
    refine ⟨_, ?_, (Writer.push_of_ne hfull u).symm ▸ hshows⟩
    rw [push?, if_neg (h.used ▸ hfull)]
    simp only [Option.bind_eq_bind, Option.bind_some, hput]
    rfl

theorem Shows.foldlM_push {s : Slots} {w : Writer} {us : List UInt16} (h : s.Shows w)
    (hholds : w.Holds us) (vs : List UInt16) :
    ∃ s', vs.foldlM push? s = some s' ∧ s'.Shows (vs.foldl Writer.push w) := by
  induction vs generalizing s w us with
  | nil => exact ⟨s, rfl, h⟩
  | cons v vs ih =>
      obtain ⟨s₁, hpush, hshows⟩ := h.push hholds.room v
      obtain ⟨s', hrest, hlast⟩ := ih hshows (hholds.push v)
      refine ⟨s', ?_, hlast⟩
      rw [List.foldlM_cons, hpush]
      exact hrest

theorem Shows.write {s : Slots} {w : Writer} {us : List UInt16} (h : s.Shows w)
    (hholds : w.Holds us) (text : List Char) :
    ∃ s', s.write? text = some s' ∧ s'.Shows (w.write text) := by
  rw [Writer.write_eq_foldl]
  exact h.foldlM_push hholds _

theorem Shows.writeAll {s : Slots} {w : Writer} {us : List UInt16} (h : s.Shows w)
    (hholds : w.Holds us) (texts : List (List Char)) :
    ∃ s', texts.foldlM write? s = some s' ∧ s'.Shows (texts.foldl Writer.write w) := by
  induction texts generalizing s w us with
  | nil => exact ⟨s, rfl, h⟩
  | cons text texts ih =>
      obtain ⟨s₁, hwrite, hshows⟩ := h.write hholds text
      obtain ⟨s', hrest, hlast⟩ := ih hshows (hholds.write text)
      refine ⟨s', ?_, hlast⟩
      rw [List.foldlM_cons, hwrite]
      exact hrest

/-- The array does what the writer does, and does not stop. -/
theorem chunksOf?_eq (texts : List (List Char)) : chunksOf? texts = some (chunksOf texts) := by
  obtain ⟨s, hwrite, hshows⟩ := shows_empty.writeAll Writer.holds_empty texts
  obtain ⟨s', hflush, hlast⟩ := hshows.flush (Writer.holds_empty.foldl_write texts).room
  rw [chunksOf?, hwrite]
  simp only [Option.bind_eq_bind, Option.bind_some, hflush, chunksOf, hlast.chunks]
  rfl

end Slots

/-! ## all chunks -/

/-- Chunks whose units are `us`: all but the last are full, and the last one is
not empty. -/
structure Cut (us : List UInt16) (chunks : List (List UInt16)) : Prop where
  carried : (chunks.map List.dropLast).flatten = us
  full : ∀ c ∈ chunks.dropLast, Full c
  ends : ∀ c ∈ chunks, ∃ body, body ≠ [] ∧ body.length < chunkLength ∧ c = chunk body

theorem Full.chunk {c : List UInt16} (h : Full c) :
    ∃ body, body ≠ [] ∧ body.length < chunkLength ∧ c = chunk body := by
  obtain ⟨body, hlength, rfl⟩ := h
  exact ⟨body, List.ne_nil_of_length_pos (by rw [hlength]; decide), by rw [hlength]; decide, rfl⟩

/-- Nothing is cut into no chunks. -/
theorem Cut.eq_nil_iff {us : List UInt16} {chunks : List (List UInt16)} (h : Cut us chunks) :
    chunks = [] ↔ us = [] := by
  refine ⟨?_, fun hnone => List.eq_nil_iff_forall_not_mem.mpr fun c hc => ?_⟩
  · rintro rfl
    exact h.carried.symm
  · obtain ⟨body, hbody, -, rfl⟩ := h.ends c hc
    have hcarried := List.flatten_eq_nil_iff.mp (h.carried.trans hnone) _
      (List.mem_map_of_mem hc)
    rw [chunk, List.dropLast_concat] at hcarried
    exact hbody hcarried

/-- What is pending in the end goes into the last chunk. -/
theorem Writer.Holds.cut {w : Writer} {us : List UInt16} (h : w.Holds us) :
    Cut us w.flush.chunks := by
  by_cases hempty : w.pending = []
  · rw [Writer.flush, if_pos (List.isEmpty_iff.mpr hempty)]
    refine ⟨?_, fun c hc => h.full c (List.dropLast_subset _ hc), fun c hc => (h.full c hc).chunk⟩
    rw [← h.carried, hempty, List.append_nil]
  · rw [Writer.flush_of_ne_nil hempty]
    refine ⟨?_, ?_, ?_⟩
    · rw [← h.carried]
      simp [chunk]
    · rw [List.dropLast_concat]
      exact h.full
    · intro c hc
      rcases List.mem_append.mp hc with hc | hc
      · exact (h.full c hc).chunk
      · have hroom : w.pending.length < chunkLength :=
          Nat.lt_of_le_of_lt h.room (by decide)
        exact ⟨w.pending, hempty, hroom, List.mem_singleton.mp hc⟩

/-- The chunks of texts are the units of their concatenation, cut into full
chunks and a last one. -/
theorem cut_chunksOf (texts : List (List Char)) :
    Cut (texts.flatten.flatMap units) (chunksOf texts) := by
  have hholds := Writer.holds_empty.foldl_write texts
  rw [List.nil_append] at hholds
  exact hholds.cut

/-- **Text reaches the console whole**, however it is divided into pieces.  Each
chunk has 2 to 128 units, the last of which is a NUL that has been added to the
text.  Without it the chunks make up what is to be shown: a carriage return
before each newline and a question mark for each character beyond the basic
plane.  All chunks but the last carry 127 units.  The chunks depend on the whole
text only, there are none if and only if it is empty, and an array of 128 units
is enough for what is pending. -/
theorem chunksOf_carry_text (texts : List (List Char)) :
    let text := texts.flatten
    let chunks := chunksOf texts
    (∀ c ∈ chunks, 2 ≤ c.length ∧ c.length ≤ 128 ∧ c.getLast? = some 0) ∧
    (chunks.map List.dropLast).flatten.map UInt16.toNat = (text.flatMap shown).map Char.toNat ∧
    (∀ c ∈ chunks.dropLast, c.dropLast.length = 127) ∧
    chunks = chunksOf [text] ∧
    (chunks = [] ↔ text = []) ∧
    Slots.chunksOf? texts = some chunks := by
  intro text chunks
  have hcut : Cut (text.flatMap units) chunks := cut_chunksOf texts
  refine ⟨?_, ?_, ?_, ?_, ?_, Slots.chunksOf?_eq texts⟩
  · intro c hc
    obtain ⟨body, hbody, hlength, rfl⟩ := hcut.ends c hc
    have hpos := List.length_pos_iff.mpr hbody
    have : chunkLength = 128 := rfl
    rw [chunk, List.length_append, List.length_singleton, List.getLast?_concat]
    exact ⟨by omega, by omega, rfl⟩
  · rw [hcut.carried, flatMap_units_eq_shown]
  · intro c hc
    obtain ⟨body, hlength, rfl⟩ := hcut.full c hc
    rw [chunk, List.dropLast_concat, hlength]
    rfl
  · simp only [chunks, chunksOf, Writer.foldl_write, List.flatten_singleton, text]
  · rw [hcut.eq_nil_iff, flatMap_units_eq_nil_iff]

/-- The two units of a newline can be in two chunks. -/
example : (chunksOf [List.replicate 126 'a' ++ ['\n']]).map List.length = [128, 2] := by
  decide +kernel

end EfiLoader.Console
