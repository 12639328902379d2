import EfiLoader.Proofs.Reader

/-!
# EfiLoader.Proofs.Consumption

Which bytes a reader uses up, on any input: also on one whose source fails,
stops or makes bytes up.  `Input.Consumes src inp bs inp'` says that `bs` are
the bytes between the inputs `inp` and `inp'`, and `Reader.Parses src m G` that
the answers of a reader and the bytes it uses up for them are those of `G`:

* `Input.takeOnto_add` — bytes can be taken in parts;
* `Input.Consumes.unique` — between two inputs there are no other bytes;
* `Reader.Parses.bind` — one reader after another.
-/

namespace EfiLoader

namespace Input

variable {σ : Type} {src : Source σ} {inp inp' inp'' : Input σ} {taken : ByteArray}

/-! ## steps -/

/-- The input after `count` bytes of its chunk. -/
def skip (inp : Input σ) (count : Nat) (h : count ≤ inp.chunk.unread) : Input σ :=
  { inp with chunk := inp.chunk.advanceUnread count h }

/-- The next `count` bytes of the chunk. -/
def next (inp : Input σ) (count : Nat) : ByteArray :=
  inp.chunk.storage.extract inp.chunk.pos (inp.chunk.pos + count)

theorem size_next {count : Nat} (h : count ≤ inp.chunk.unread) : (inp.next count).size = count := by
  have hpos := inp.chunk.pos_le
  have hlen := inp.chunk.len_le
  unfold Buffer.unread at h
  rw [next, ByteArray.size_extract]
  omega

theorem unread_skip {count : Nat} (h : count ≤ inp.chunk.unread) :
    (inp.skip count h).chunk.unread = inp.chunk.unread - count := by
  unfold skip Buffer.unread Buffer.advanceUnread
  simp only
  omega

theorem refill_of_unread (h : inp.chunk.unread ≠ 0) : inp.refill src = (.ok true, inp) :=
  if_pos h

/-- A refill that finds bytes has found them in the chunk, or has put some there
and counted them. -/
theorem refill_cases (h : inp.refill src = (.ok true, inp')) :
    (inp.chunk.unread ≠ 0 ∧ inp' = inp) ∨
      (inp.chunk.unread = 0 ∧ inp'.chunk.unread ≠ 0 ∧
        inp'.consumed = inp.consumed + inp'.chunk.unread) := by
  unfold refill at h
  split at h
  · next hunread =>
    cases h
    exact .inl ⟨hunread, rfl⟩
  · next hunread =>
    split at h
    · cases h
    · next hend =>
      simp only at h
      split at h
      · cases h
      · next r s' hread =>
        unfold Buffer.commit at h
        split at h
        · cases h
        · next b hcommit =>
          split at hcommit
          · next hcount =>
            cases hcommit
            obtain ⟨hanswer, hinput⟩ := Prod.mk.inj h
            have hsome : r.count ≠ 0 := by simpa using hanswer
            have hnew : ((inp.chunk.clear.store r.bytes).commitRoom r.count hcount).unread =
                r.count := Nat.zero_add r.count
            subst hinput
            simp only [hnew]
            exact .inr ⟨by omega, hsome, trivial⟩
          · cases hcommit

/-- A refill that finds bytes leaves some in the chunk, and those that it adds
have been counted. -/
theorem unread_of_refill (h : inp.refill src = (.ok true, inp')) :
    0 < inp'.chunk.unread ∧
      inp'.chunk.unread + inp.consumed = inp.chunk.unread + inp'.consumed := by
  rcases refill_cases h with ⟨hunread, hsame⟩ | ⟨hunread, hsome, hconsumed⟩
  · rw [hsame]
    omega
  · omega

/-- A step takes as many bytes as the chunk has, up to what is needed. -/
theorem takeOnto_of_refill {need count : Nat} (h : inp.refill src = (.ok true, inp'))
    (hneed : need ≠ 0) (hcount : count = min inp'.chunk.unread need)
    (hle : count ≤ inp'.chunk.unread) :
    inp.takeOnto src need taken =
      (inp'.skip count hle).takeOnto src (need - count) (taken ++ inp'.next count) := by
  subst hcount
  have hsize := size_next hle
  have hunread := (unread_of_refill h).1
  have hread : inp.read src need =
      (.ok (inp'.next (min inp'.chunk.unread need)), inp'.skip _ hle) := by
    rw [read, if_neg hneed, h]
    rfl
  rw [takeOnto, if_neg hneed, hread]
  simp only [hsize]
  rw [if_neg (by omega)]

/-- Without bytes nothing is taken, however many are needed. -/
theorem takeOnto_of_refill_error {need : Nat} {e : ReadError}
    (h : inp.refill src = (.error e, inp')) (hneed : need ≠ 0) :
    inp.takeOnto src need taken = (.error e, taken, inp') := by
  rw [takeOnto, if_neg hneed, read, if_neg hneed, h]

theorem takeOnto_of_refill_false {need : Nat} (h : inp.refill src = (.ok false, inp'))
    (hneed : need ≠ 0) : inp.takeOnto src need taken = (.error .exhausted, taken, inp') := by
  rw [takeOnto, if_neg hneed, read, if_neg hneed, h]
  rfl

/-! ## taking in parts -/

/-- Go on after something has been taken. -/
def takeMore (src : Source σ) (need : Nat) :
    Except ReadError Unit × ByteArray × Input σ → Except ReadError Unit × ByteArray × Input σ
  | (.ok (), taken, inp) => inp.takeOnto src need taken
  | (.error e, taken, inp) => (.error e, taken, inp)

theorem takeOnto_zero : inp.takeOnto src 0 taken = (.ok (), taken, inp) := by
  rw [takeOnto, if_pos rfl]

theorem takeOnto_succ (need : Nat) :
    inp.takeOnto src (need + 1) taken = takeMore src need (inp.takeOnto src 1 taken) := by
  cases hrefill : inp.refill src with
  | mk answer inp₁ =>
    cases answer with
    | error e =>
      rw [takeOnto_of_refill_error hrefill (by omega), takeOnto_of_refill_error hrefill (by omega)]
      rfl
    | ok found =>
      cases found with
      | false =>
        rw [takeOnto_of_refill_false hrefill (by omega),
          takeOnto_of_refill_false hrefill (by omega)]
        rfl
      | true =>
        have hunread := (unread_of_refill hrefill).1
        have hone : takeMore src need (inp.takeOnto src 1 taken) =
            (inp₁.skip 1 hunread).takeOnto src need (taken ++ inp₁.next 1) := by
          rw [takeOnto_of_refill hrefill (by omega) (by omega) hunread, Nat.sub_self, takeOnto_zero]
          rfl
        rw [hone]
        by_cases hlast : inp₁.chunk.unread = 1 ∨ need = 0
        · rw [takeOnto_of_refill hrefill (by omega) (by omega) hunread, Nat.add_sub_cancel]
        · -- the chunk still has bytes after the first one
          have hskip : (inp₁.skip 1 hunread).chunk.unread = inp₁.chunk.unread - 1 :=
            unread_skip hunread
          have hrefill' : (inp₁.skip 1 hunread).refill src = (.ok true, inp₁.skip 1 hunread) :=
            refill_of_unread (by omega)
          generalize hcount : min (inp₁.chunk.unread - 1) need = count
          rw [takeOnto_of_refill hrefill' (by omega) (by rw [hskip, hcount]) (by omega),
            @takeOnto_of_refill _ _ _ _ _ _ (1 + count) hrefill (by omega) (by omega) (by omega)]
          have hbytes : inp₁.next (1 + count) =
              inp₁.next 1 ++ (inp₁.skip 1 hunread).next count := by
            have hmiddle : inp₁.chunk.pos ≤ inp₁.chunk.pos + 1 := by omega
            have hstop : inp₁.chunk.pos + 1 ≤ inp₁.chunk.pos + (1 + count) := by omega
            rw [next, ByteArray.extract_eq_extract_append_extract _ hmiddle hstop, ← Nat.add_assoc]
            rfl
          have hleft : need + 1 - (1 + count) = need - count := by omega
          rw [hbytes, ← ByteArray.append_assoc, hleft]
          simp only [skip, Buffer.advanceUnread, Nat.add_assoc]

/-- Bytes that are needed can be taken in parts. -/
theorem takeOnto_add (need more : Nat) :
    inp.takeOnto src (need + more) taken = takeMore src more (inp.takeOnto src need taken) := by
  induction need generalizing inp taken with
  | zero =>
    rw [Nat.zero_add, takeOnto_zero]
    rfl
  | succ need ih =>
    rw [Nat.succ_add, takeOnto_succ, takeOnto_succ need]
    cases inp.takeOnto src 1 taken with
    | mk answer rest =>
      cases answer with
      | error e => rfl
      | ok => exact ih

/-- What is taken is put behind what has been taken. -/
theorem takeOnto_append (need : Nat) (a b : ByteArray) :
    inp.takeOnto src need (a ++ b) =
      ((inp.takeOnto src need b).1, a ++ (inp.takeOnto src need b).2.1,
        (inp.takeOnto src need b).2.2) := by
  induction need using Nat.strongRecOn generalizing inp b with
  | _ need ih =>
    by_cases hneed : need = 0
    · rw [hneed, takeOnto_zero, takeOnto_zero]
    · rw [takeOnto, takeOnto, if_neg hneed, if_neg hneed]
      cases inp.read src need with
      | mk answer inp₁ =>
        cases answer with
        | error e => rfl
        | ok bytes =>
          simp only
          split
          · rfl
          · rw [ByteArray.append_assoc]
            exact ih _ (by omega) (b ++ bytes)

/-- What has been taken is accounted for: by the chunk, or by what the source
has handed out. -/
theorem accounted_takeOnto {need : Nat} {bs : ByteArray}
    (h : inp.takeOnto src need taken = (.ok (), bs, inp')) :
    bs.size = taken.size + need ∧
      need + inp'.chunk.unread + inp.consumed = inp.chunk.unread + inp'.consumed := by
  induction need generalizing inp taken with
  | zero =>
    rw [takeOnto_zero] at h
    cases h
    omega
  | succ need ih =>
    rw [takeOnto_succ] at h
    cases hrefill : inp.refill src with
    | mk answer inp₁ =>
      cases answer with
      | error e =>
        rw [takeOnto_of_refill_error hrefill (by decide)] at h
        cases h
      | ok found =>
        cases found with
        | false =>
          rw [takeOnto_of_refill_false hrefill (by decide)] at h
          cases h
        | true =>
          obtain ⟨hunread, hcounted⟩ := unread_of_refill hrefill
          have hskip : (inp₁.skip 1 hunread).chunk.unread = inp₁.chunk.unread - 1 :=
            unread_skip hunread
          have hnext : (inp₁.next 1).size = 1 := size_next hunread
          rw [takeOnto_of_refill hrefill (by decide) (by omega) hunread, Nat.sub_self,
            takeOnto_zero] at h
          obtain ⟨hsize, hrest⟩ := ih h
          rw [ByteArray.size_append, hnext] at hsize
          rw [hskip] at hrest
          change _ + inp₁.consumed = _ at hrest
          omega

/-! ## the bytes between two inputs -/

/-- The input `inp` hands out the bytes `bs` and is `inp'` then. -/
def Consumes (src : Source σ) (inp : Input σ) (bs : ByteArray) (inp' : Input σ) : Prop :=
  inp.take src bs.size = (.ok (), bs, inp')

namespace Consumes

variable {a b : ByteArray}

theorem empty_iff : inp.Consumes src ByteArray.empty inp' ↔ inp' = inp := by
  have htake : inp.take src ByteArray.empty.size = (.ok (), ByteArray.empty, inp) := takeOnto_zero
  rw [Consumes, htake]
  constructor
  · intro h
    cases h
    rfl
  · intro h
    rw [h]

/-- One part comes after the other. -/
theorem append_iff : inp.Consumes src (a ++ b) inp'' ↔
    ∃ inp', inp.Consumes src a inp' ∧ inp'.Consumes src b inp'' := by
  unfold Consumes
  rw [ByteArray.size_append, take, takeOnto_add, ← take]
  constructor
  · intro h
    cases htake : inp.take src a.size with
    | mk answer rest =>
      obtain ⟨first, inp'⟩ := rest
      rw [htake] at h
      cases answer with
      | error e => cases h
      | ok =>
        have hmore := @takeOnto_append _ src inp' b.size first ByteArray.empty
        rw [ByteArray.append_empty] at hmore
        have hfirst : first.size = a.size := by
          have hsize := (accounted_takeOnto htake).1
          rw [ByteArray.size_empty] at hsize
          omega
        rw [takeMore, hmore, ← take] at h
        obtain ⟨hanswer, hrest⟩ := Prod.mk.inj h
        obtain ⟨hbytes, hinput⟩ := Prod.mk.inj hrest
        have hfst : first = a := ByteArray.append_inj_left hbytes hfirst
        subst hfst
        have hsnd := (ByteArray.append_right_inj first).mp hbytes
        exact ⟨inp', rfl, Prod.ext hanswer (Prod.ext hsnd hinput)⟩
  · intro h
    obtain ⟨inp', ha, hb⟩ := h
    have hmore := @takeOnto_append _ src inp' b.size a ByteArray.empty
    rw [ByteArray.append_empty, ← take, hb] at hmore
    rw [ha, takeMore, hmore]

/-- Between two inputs there are no other bytes. -/
theorem unique (ha : inp.Consumes src a inp') (hb : inp.Consumes src b inp') : a = b := by
  have hsizeA := (accounted_takeOnto ha).2
  have hsizeB := (accounted_takeOnto hb).2
  have hsize : a.size = b.size := by omega
  unfold Consumes at ha hb
  rw [hsize, hb] at ha
  cases ha
  rfl

/-- If the bytes of an input are known, those that it hands out are the first
of them. -/
theorem of_reads {left : ByteArray} (h : inp.Consumes src a inp') (hinp : inp.Reads src left) :
    ∃ rest, left = a ++ rest ∧ inp'.Reads src rest := by
  unfold Consumes take at h
  by_cases hsize : a.size ≤ left.size
  · obtain ⟨inp₁, htake, hinp₁⟩ := hinp.takeOnto_of_le ByteArray.empty hsize
    rw [h, ByteArray.empty_append] at htake
    obtain ⟨hbytes, hinput⟩ := Prod.mk.inj (Prod.mk.inj htake).2
    have hleft := Bytes.extract_append_drop left a.size
    rw [← hbytes] at hleft
    rw [← hinput] at hinp₁
    exact ⟨_, hleft.symm, hinp₁⟩
  · have htake := hinp.takeOnto_of_lt ByteArray.empty (Nat.not_le.mp hsize)
    rw [h] at htake
    cases htake

end Consumes

/-- Bytes that are there are handed out. -/
theorem Reads.consumes {a rest : ByteArray} (h : inp.Reads src (a ++ rest)) :
    ∃ inp', inp.Consumes src a inp' ∧ inp'.Reads src rest := by
  have hsize : a.size ≤ (a ++ rest).size := by
    rw [ByteArray.size_append]
    omega
  obtain ⟨inp', htake, hinp'⟩ := h.takeOnto_of_le ByteArray.empty hsize
  rw [ByteArray.empty_append, ByteArray.extract_append_eq_left rfl] at htake
  rw [Bytes.drop_append rest rfl] at hinp'
  exact ⟨inp', htake, hinp'⟩

/-- Bytes in memory can be cut into chunks anywhere. -/
theorem reads_supply {bs : ByteArray} {first most : Nat} (hbs : 0 < bs.size) (hfirst : 0 < first)
    (hmost : 0 < most) :
    (start (Buffer.ofBytes (bs.extract 0 first)) ⟨bs, first, some most⟩ bs.size).Reads
      (Supply.source bs.size) bs := by
  have hmax : some most ≠ some 0 := by
    intro h
    cases h
    omega
  have hsize : (bs.extract 0 first).size = min first bs.size := by
    rw [ByteArray.size_extract]
    omega
  have hlen : (Buffer.ofBytes (bs.extract 0 first)).len = min first bs.size := hsize
  have hstorage : (Buffer.ofBytes (bs.extract 0 first)).capacity = min first bs.size := hsize
  have htotal :
      (Buffer.ofBytes (bs.extract 0 first)).len + (Bytes.drop bs first).size ≤ bs.size := by
    rw [Bytes.size_drop, hlen]
    omega
  have hcapacity : 0 < (Buffer.ofBytes (bs.extract 0 first)).capacity := by
    rw [hstorage]
    omega
  have hreads := reads_start (@Supply.delivers bs.size ⟨bs, first, some most⟩ hmax) rfl htotal
    hcapacity
  rwa [Buffer.committed_ofBytes, Bytes.extract_append_drop] at hreads

end Input

namespace Reader

variable {σ ε α β : Type} {src : Source σ}

/-! ## grammars -/

/-- The reader answers with `a` on the inputs that begin with the bytes that
`G` has for `a`, and it uses up just those. -/
def Parses (src : Source σ) (m : Reader σ ε α) (G : α → ByteArray → Prop) : Prop :=
  ∀ inp a inp', m inp = (.ok a, inp') ↔ ∃ bs, G a bs ∧ inp.Consumes src bs inp'

namespace Parses

variable {G : α → ByteArray → Prop}

theorem congr {m : Reader σ ε α} {G' : α → ByteArray → Prop} (h : Parses src m G)
    (hG : ∀ a bs, G a bs ↔ G' a bs) : Parses src m G' := by
  have heq : G = G' := funext fun a => funext fun bs => propext (hG a bs)
  exact heq ▸ h

protected theorem pure (a : α) :
    Parses src (pure a : Reader σ ε α) fun b bs => b = a ∧ bs = ByteArray.empty := by
  intro inp b inp'
  constructor
  · intro h
    cases h
    exact ⟨_, ⟨rfl, rfl⟩, Input.Consumes.empty_iff.mpr rfl⟩
  · intro ⟨bs, ⟨hb, hbs⟩, hconsumes⟩
    subst hb hbs
    rw [Input.Consumes.empty_iff.mp hconsumes]
    rfl

protected theorem throw (e : ε) : Parses src (throw e : Reader σ ε α) fun _ _ => False := by
  intro inp b inp'
  constructor
  · intro h
    cases h
  · intro ⟨bs, hfalse, _⟩
    exact hfalse.elim

protected theorem bytes (wrap : ReadError → ε) (n : Nat) :
    Parses src (Reader.bytes src wrap n) fun b bs => b = bs ∧ bs.size = n := by
  intro inp b inp'
  unfold Reader.bytes
  constructor
  · intro h
    cases htake : inp.take src n with
    | mk answer rest =>
      obtain ⟨taken, inp₁⟩ := rest
      rw [htake] at h
      cases answer with
      | error e => cases h
      | ok =>
        cases h
        have hsize : b.size = n := by
          have hsize := (Input.accounted_takeOnto htake).1
          rwa [ByteArray.size_empty, Nat.zero_add] at hsize
        refine ⟨b, ⟨rfl, hsize⟩, ?_⟩
        rw [Input.Consumes, hsize, htake]
  · intro ⟨bs, ⟨hb, hsize⟩, hconsumes⟩
    subst hb hsize
    rw [hconsumes]

/-- The second reader goes on with what the first one leaves. -/
protected theorem bind {m : Reader σ ε β} {f : β → Reader σ ε α} {F : β → ByteArray → Prop}
    {G : β → α → ByteArray → Prop} (hm : Parses src m F)
    (hf : ∀ b bs, F b bs → Parses src (f b) (G b)) :
    Parses src (m >>= f) fun a bs =>
      ∃ b first rest, bs = first ++ rest ∧ F b first ∧ G b a rest := by
  intro inp a inp''
  constructor
  · intro h
    cases hrun : m inp with
    | mk answer inp' =>
      cases answer with
      | error e =>
        rw [bind_of_error hrun] at h
        cases h
      | ok b =>
        rw [bind_of_ok hrun] at h
        obtain ⟨first, hfirst, hconsumes⟩ := (hm inp b inp').mp hrun
        obtain ⟨rest, hrest, hconsumes'⟩ := (hf b first hfirst inp' a inp'').mp h
        exact ⟨first ++ rest, ⟨b, first, rest, rfl, hfirst, hrest⟩,
          Input.Consumes.append_iff.mpr ⟨inp', hconsumes, hconsumes'⟩⟩
  · intro ⟨bs, ⟨b, first, rest, hbs, hfirst, hrest⟩, hconsumes⟩
    rw [hbs] at hconsumes
    obtain ⟨inp', hconsumes, hconsumes'⟩ := Input.Consumes.append_iff.mp hconsumes
    rw [bind_of_ok ((hm inp b inp').mpr ⟨first, hfirst, hconsumes⟩)]
    exact (hf b first hfirst inp' a inp'').mpr ⟨rest, hrest, hconsumes'⟩

/-- A check must be passed first. -/
theorem check {c : Prop} [Decidable c] {e : ε} {f : PUnit → Reader σ ε α}
    (hf : ¬c → Parses src (f ⟨⟩) G) :
    Parses src (if c then throw e >>= f else f ⟨⟩) fun a bs => ¬c ∧ G a bs := by
  by_cases h : c
  · rw [if_pos h]
    intro inp a inp'
    have hthrow : (throw e >>= f) inp = (.error e, inp) := bind_of_error rfl
    constructor
    · intro hrun
      rw [hthrow] at hrun
      cases hrun
    · intro ⟨bs, ⟨hpass, _⟩, _⟩
      exact absurd h hpass
  · rw [if_neg h]
    exact (hf h).congr fun a bs => by simp [h]

/-- A number. -/
protected theorem le (wrap : ReadError → ε) (n : Nat) :
    Parses src (Reader.le src wrap n) fun v bs => v < 256 ^ n ∧ bs = Bytes.le n v := by
  refine (Parses.bind (Parses.bytes wrap n) fun b _ _ => Parses.pure _).congr fun v bs => ?_
  constructor
  · intro ⟨b, first, rest, hbs, ⟨hb, hsize⟩, hv, hrest⟩
    subst hb hv hrest
    rw [ByteArray.append_empty] at hbs
    subst hbs
    exact ⟨Bytes.leNat_lt _ _ _, (Bytes.le_leNat_self hsize).symm⟩
  · intro ⟨hv, hbs⟩
    refine ⟨bs, bs, ByteArray.empty, ByteArray.append_empty.symm, ⟨rfl, ?_⟩, ?_, rfl⟩
    · rw [hbs, Bytes.size_le]
    · rw [hbs, Bytes.leNat_le hv]

end Parses

end Reader

end EfiLoader
