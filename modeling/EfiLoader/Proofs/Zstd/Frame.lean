import EfiLoader.Proofs.Zstd.Stream

/-!
# EfiLoader.Proofs.Zstd.Frame

Zstd frames over two sources.  With a decoder that depends on nothing but the
bytes that it reads, a frame is decoded alike from all inputs with the same
bytes, however these are cut up:

* `Decoder.DependsOnBytes` — what is asked of the decoder;
* `Frame.stream_agree` — a frame is streamed alike;
* `Frame.decode_agree` — and so it is decoded alike;
* `contentSize_append` — the declared size stands in the first 18 bytes.
-/

namespace EfiLoader.Zstd

open Decoding

variable {σ τ : Type} {src : Source σ} {src' : Source τ}

/-! ## what a decoder depends on -/

section

variable [Decoder]

namespace Decoder

/-- What a caller sees of a session who asks for these numbers of bytes: the
pieces of content, and the checksums in the end, unless a read fails before. -/
def watch : List Nat → Session → Decoding (List ByteArray × Option Checksums)
  | [], d => pure ([], some (checksums d))
  | n :: ns, d => do
    match ← (read n d).run with
    | none => return ([], none)
    | some (piece, d) =>
      let (pieces, sums) ← watch ns d
      return (piece :: pieces, sums)

/-- What a caller sees of the frame at the start of an input; nothing if it has
no header. -/
def sight (ns : List Nat) : Decoding (Option (List ByteArray × Option Checksums)) := do
  match ← start.run with
  | none => return none
  | some d => return some (← watch ns d)

/-- The decoder depends on nothing but the bytes that it reads: every caller
sees the same on two inputs with the same bytes, however these are cut up. -/
def DependsOnBytes : Prop :=
  ∀ (ns : List Nat) (left : ByteArray) (σ τ : Type) (src : Source σ) (src' : Source τ)
    (inp : Input σ) (inp' : Input τ), inp.Reads src left → inp'.Reads src' left →
    ((sight ns).run src { input := inp }).1 = ((sight ns).run src' { input := inp' }).1

/-- So does a decoder whose steps come to the same however the bytes are cut up. -/
theorem dependsOnBytes_of_steady (hstart : Steady start.run)
    (hread : ∀ n d, Steady (read n d).run) : DependsOnBytes := by
  have hwatch : ∀ ns d, Steady (watch ns d) := by
    intro ns
    induction ns with
    | nil => exact fun d => Steady.pure _
    | cons n ns ih =>
        intro d
        refine Steady.bind (hread n d) fun r => ?_
        cases r with
        | none => exact Steady.pure _
        | some r => exact Steady.bind (ih r.2) fun seen => Steady.pure _
  have hsight : ∀ ns, Steady (sight ns) := by
    intro ns
    refine Steady.bind hstart fun r => ?_
    cases r with
    | none => exact Steady.pure _
    | some d => exact Steady.bind (hwatch ns d) fun seen => Steady.pure _
  intro ns left σ τ src src' inp inp' h h'
  rw [(hsight ns σ src _ left ⟨rfl, h⟩).1, (hsight ns τ src' _ left ⟨rfl, h'⟩).1]

/-- Nobody sees a difference between two sessions on their inputs. -/
def SameSight (src : Source σ) (src' : Source τ) (d : Session) (f : Feed σ) (d' : Session)
    (f' : Feed τ) : Prop :=
  ∀ ns, ((watch ns d).run src f).1 = ((watch ns d').run src' f').1

/-- After the same bytes have been asked for, there is still no difference. -/
theorem SameSight.read {d d' : Session} {f : Feed σ} {f' : Feed τ}
    (h : SameSight src src' d f d' f') (n : Nat) :
    (∃ f₁ f₁', (Decoder.read n d).run.run src f = (none, f₁) ∧
      (Decoder.read n d').run.run src' f' = (none, f₁')) ∨
    ∃ piece d₁ d₁' f₁ f₁', (Decoder.read n d).run.run src f = (some (piece, d₁), f₁) ∧
      (Decoder.read n d').run.run src' f' = (some (piece, d₁'), f₁') ∧
      SameSight src src' d₁ f₁ d₁' f₁' := by
  have hseen : ∀ ns, ((watch (n :: ns) d).run src f).1 = ((watch (n :: ns) d').run src' f').1 :=
    fun ns => h (n :: ns)
  simp only [watch] at hseen
  rcases hread : (Decoder.read n d).run.run src f with ⟨_ | ⟨piece, d₁⟩, f₁⟩ <;>
    rcases hread' : (Decoder.read n d').run.run src' f' with ⟨_ | ⟨piece', d₁'⟩, f₁'⟩ <;>
    simp only [run_bind_of_run hread, run_bind_of_run hread', run_bind, run_pure] at hseen
  · exact .inl ⟨f₁, f₁', rfl, rfl⟩
  · simp at hseen
  · simp at hseen
  · obtain ⟨rfl, -⟩ := List.cons.inj (Prod.mk.inj (hseen [])).1
    refine .inr ⟨piece, d₁, d₁', f₁, f₁', rfl, rfl, fun ns => ?_⟩
    obtain ⟨hpieces, hsums⟩ := Prod.mk.inj (hseen ns)
    exact Prod.ext (List.cons.inj hpieces).2 hsums

/-- Nor between the checksums. -/
theorem SameSight.checksums {d d' : Session} {f : Feed σ} {f' : Feed τ}
    (h : SameSight src src' d f d' f') : checksums d = checksums d' :=
  Option.some.inj (Prod.mk.inj (h [])).2

end Decoder

/-! ## streaming -/

namespace Frame

open Decoder (SameSight)

variable {d d' : Decoder.Session} {f : Feed σ} {f' : Feed τ}

/-- Buffers are filled alike. -/
theorem fill_agree (h : SameSight src src' d f d' f') (b : Buffer) :
    (∃ e b₁ f₁ f₁', (fill b d).run src f = ((.error e, b₁), f₁) ∧
      (fill b d').run src' f' = ((.error e, b₁), f₁')) ∨
    ∃ b₁ d₁ d₁' f₁ f₁', (fill b d).run src f = ((.ok d₁, b₁), f₁) ∧
      (fill b d').run src' f' = ((.ok d₁', b₁), f₁') ∧ SameSight src src' d₁ f₁ d₁' f₁' := by
  -- by induction on the room, which every piece makes smaller
  generalize hroom : b.room = room
  induction room using Nat.strongRecOn generalizing b d d' f f' with
  | _ room ih =>
    subst hroom
    by_cases hfull : b.room = 0
    · exact .inr ⟨b, d, d', f, f', run_fill_of_full hfull, run_fill_of_full hfull, h⟩
    · rcases h.read b.room with
        ⟨f₁, f₁', hread, hread'⟩ | ⟨piece, d₁, d₁', f₁, f₁', hread, hread', hsame⟩
      · exact .inl ⟨_, _, _, _, run_fill_of_none hfull hread, run_fill_of_none hfull hread'⟩
      · rw [run_fill_of_some hfull hread, run_fill_of_some hfull hread']
        by_cases hend : piece.size = 0
        · rw [if_pos hend, if_pos hend]
          exact .inr ⟨b, d₁, d₁', f₁, f₁', rfl, rfl, hsame⟩
        · rw [if_neg hend, if_neg hend]
          by_cases hfits : piece.size ≤ (b.store piece).room
          · rw [dif_pos hfits, dif_pos hfits]
            refine ih _ ?_ hsame _ rfl
            rw [Buffer.room_store] at hfits
            rw [Buffer.room_commitRoom, Buffer.room_store]
            omega
          · rw [dif_neg hfits, dif_neg hfits]
            exact .inl ⟨_, _, f₁, f₁', rfl, rfl⟩

/-- The byte after the content is there on both inputs or on neither. -/
theorem probe_agree (h : SameSight src src' d f d' f') :
    ((probe d).run src f).1 = ((probe d').run src' f').1 := by
  unfold probe
  rcases h.read 1 with
    ⟨f₁, f₁', hread, hread'⟩ | ⟨piece, d₁, d₁', f₁, f₁', hread, hread', hsame⟩
  · rw [run_bind_of_run hread, run_bind_of_run hread']
    rfl
  · rw [run_bind_of_run hread, run_bind_of_run hread']
    simp only [run_pure, hsame.checksums]

/-- Frames are streamed alike. -/
theorem stream_agree (hD : Decoder.DependsOnBytes) {left : ByteArray} {inp : Input σ}
    {inp' : Input τ} (h : inp.Reads src left) (h' : inp'.Reads src' left) (b : Buffer) :
    ((stream b).run src { input := inp }).1 = ((stream b).run src' { input := inp' }).1 := by
  have hseen := fun ns => hD ns left σ τ src src' inp inp' h h'
  unfold stream
  simp only [Decoder.sight] at hseen
  rcases hstart : Decoder.start.run.run src { input := inp } with ⟨_ | d, f⟩ <;>
    rcases hstart' : Decoder.start.run.run src' { input := inp' } with ⟨_ | d', f'⟩ <;>
    simp only [run_bind_of_run hstart, run_bind_of_run hstart', run_bind, run_pure] at hseen ⊢
  · simp at hseen
  · simp at hseen
  · have hsame : SameSight src src' d f d' f' := fun ns => Option.some.inj (hseen ns)
    rcases fill_agree hsame b with
      ⟨e, b₁, f₁, f₁', hfill, hfill'⟩ | ⟨b₁, d₁, d₁', f₁, f₁', hfill, hfill', hleft⟩
    · rw [hfill, hfill']
      rfl
    · rw [hfill, hfill']
      simp only [run_bind, run_pure, probe_agree hleft]

/-- Inputs with the same bytes are decoded alike if the same size stands in
what they have in their first chunks. -/
theorem decode_agree [Allocator] (hD : Decoder.DependsOnBytes) {left : ByteArray}
    {inp : Input σ} {inp' : Input τ} (h : inp.Reads src left) (h' : inp'.Reads src' left)
    (hsize : contentSize inp.buffered = contentSize inp'.buffered) :
    (decode src inp).value.1 = (decode src' inp').value.1 := by
  cases hdeclared : contentSize inp'.buffered with
  | error e =>
      unfold decode
      rw [hsize, hdeclared]
      rfl
  | ok size =>
      cases hallocate : Buffer.allocate size with
      | error e =>
          unfold decode
          simp only [hsize, hdeclared, hallocate]
          rfl
      | ok b =>
          obtain ⟨_, hleft⟩ := reads_run (stream b) (f := { input := inp }) ⟨rfl, h⟩
          obtain ⟨_, hleft'⟩ := reads_run (stream b) (f := { input := inp' }) ⟨rfl, h'⟩
          rw [value_decode (hsize.trans hdeclared) hallocate, value_decode hdeclared hallocate,
            hleft.failed, hleft'.failed, stream_agree hD h h']

end Frame

end

/-! ## declared sizes -/

/-- A header has at most 18 bytes. -/
theorem Descriptor.headerSize_le (d : Descriptor) : d.headerSize ≤ 18 := by
  have hwindow : d.windowWidth ≤ 1 := by
    unfold windowWidth
    split <;> omega
  have hdictionary : d.dictionaryWidth ≤ 4 := by
    unfold dictionaryWidth
    split <;> omega
  have hsize : d.sizeWidth ≤ 8 := by
    unfold sizeWidth
    split <;> (try split) <;> omega
  rw [headerSize, sizeOffset, dictionaryOffset, windowOffset]
  omega

theorem field_append_left {a : ByteArray} (b : ByteArray) {off len : Nat}
    (h : off + len ≤ a.size) : field (a ++ b) off len = field a off len := by
  rw [field, field, Bytes.le?_append_left b h]

/-- The declared size stands in the first 18 bytes. -/
theorem contentSize_append {a : ByteArray} (b : ByteArray) (h : 18 ≤ a.size) :
    contentSize (a ++ b) = contentSize a := by
  have hmagic : Bytes.le? (a ++ b) 0 4 = Bytes.le? a 0 4 := Bytes.le?_append_left b (by omega)
  have hbits : field (a ++ b) 4 1 = field a 4 1 := field_append_left b (by omega)
  have hdictionary : ∀ d : Descriptor, field (a ++ b) d.dictionaryOffset d.dictionaryWidth =
      field a d.dictionaryOffset d.dictionaryWidth := by
    intro d
    have hle := d.headerSize_le
    rw [Descriptor.headerSize, Descriptor.sizeOffset] at hle
    exact field_append_left b (by omega)
  have hsize : ∀ d : Descriptor, field (a ++ b) d.sizeOffset d.sizeWidth =
      field a d.sizeOffset d.sizeWidth := by
    intro d
    have hle := d.headerSize_le
    rw [Descriptor.headerSize] at hle
    exact field_append_left b (by omega)
  simp only [contentSize, hmagic, hbits, hdictionary, hsize]

end EfiLoader.Zstd
