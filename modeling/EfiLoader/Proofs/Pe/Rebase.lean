import EfiLoader.Proofs.Pe.RelocationTable
import Mathlib.Data.List.TakeWhile

/-!
# EfiLoader.Proofs.Pe.Rebase

One image at different bases.  The relocations of an image never look at the
memory that they move fields in:

* `Agree` — computations whose answers depend on the size of the memory only,
  whatever the distance is;
* `Moved` — what the entries of a table leave: every field that no other one
  overlaps is moved by the distance, and the bytes outside all fields stay;
* `foldl_apply_foldl_apply` — entries with separate fields move them twice as
  they move them once by the sum of the distances.

`applyAll_at_bases` puts them together.
-/

namespace EfiLoader.Pe.Fixup

open Patching (ends)

/-! ## the answer -/

section Agree

variable {α β : Type} {delta delta' : UInt64} {index page : Nat}

/-- The answers are the same for images of the same size, which keep a common
size. -/
def Agree (m m' : Patching α) : Prop :=
  ∀ ⦃memory memory' : ByteArray⦄, memory.size = memory'.size →
    (ends m memory).1 = (ends m' memory').1 ∧
      (ends m memory).2.size = (ends m' memory').2.size

theorem Agree.pure (a : α) : Agree (pure a) (pure a) := fun _ _ hsize => ⟨rfl, hsize⟩

theorem Agree.throw (e : Error) : Agree (throw e : Patching α) (throw e) :=
  fun _ _ hsize => ⟨rfl, hsize⟩

theorem Agree.bind {m m' : Patching α} {k k' : α → Patching β} (hm : Agree m m')
    (hk : ∀ a, Agree (k a) (k' a)) : Agree (m >>= k) (m' >>= k') := by
  intro memory memory' hsize
  obtain ⟨hanswer, hleft⟩ := hm hsize
  rw [Patching.ends_bind, Patching.ends_bind]
  generalize ends m memory = first at hanswer hleft ⊢
  generalize ends m' memory' = first' at hanswer hleft ⊢
  obtain ⟨answer, left⟩ := first
  obtain ⟨answer', left'⟩ := first'
  change answer = answer' at hanswer
  subst hanswer
  cases answer with
  | error e => exact ⟨rfl, hleft⟩
  | ok a => exact hk a hleft

theorem agree_applyRecord (r : Record) :
    Agree (applyRecord delta index page r) (applyRecord delta' index page r) := by
  intro memory memory' hsize
  have hleft : (ends (applyRecord delta index page r) memory).2.size =
      (ends (applyRecord delta' index page r) memory').2.size := by
    rw [size_applyRecord, size_applyRecord, hsize]
  refine ⟨?_, hleft⟩
  rw [ends_applyRecord, ends_applyRecord, hsize]
  cases Kind.ofNumber? r.kind with
  | none => rfl
  | some k =>
      cases k with
      | absolute => rfl
      | _ =>
          simp only
          split
          · rfl
          · split
            · rfl
            · rfl

theorem agree_applyRecords (records : List Record) :
    Agree (applyRecords delta index page records) (applyRecords delta' index page records) := by
  induction records with
  | nil => exact Agree.pure ()
  | cons r rest ih => exact Agree.bind (agree_applyRecord r) fun _ => ih

theorem agree_applyBlocks (table : ByteArray) (off : Nat) :
    Agree (applyBlocks delta table index off) (applyBlocks delta' table index off) := by
  generalize hleft : table.size - off = left
  induction left using Nat.strongRecOn generalizing index off with
  | _ left ih =>
    subst hleft
    unfold applyBlocks
    split
    · split
      · exact Agree.throw _
      · next b hread =>
          have hheader := Block.blockHeaderSize_le hread
          unfold blockHeaderSize at hheader
          have hshorter : table.size - (off + b.size) < table.size - off := by omega
          exact Agree.bind (agree_applyRecords b.records) fun _ => ih _ hshorter _ rfl
    · exact Agree.pure _

end Agree

/-! ## one field -/

namespace Site

variable {e e' : Site} {delta delta' : UInt64} {memory : ByteArray} {i old : Nat}

/-- A byte belongs to the field of an entry. -/
def Covers (e : Site) (i : Nat) : Prop := e.target ≤ i ∧ i < e.target + e.width

/-- Two entries have no byte in common. -/
def Disjoint (e e' : Site) : Prop := ∀ i, e.Covers i → ¬ e'.Covers i

theorem disjoint_iff : e.Disjoint e' ↔ e.width = 0 ∨ e'.width = 0 ∨
    e.target + e.width ≤ e'.target ∨ e'.target + e'.width ≤ e.target := by
  unfold Disjoint Covers
  constructor
  · intro h
    have hlast := h (max e.target e'.target)
    omega
  · intro h i hcovers hcovers'
    omega

instance (e e' : Site) : Decidable (e.Disjoint e') := decidable_of_iff _ disjoint_iff.symm

theorem Disjoint.symm (h : e.Disjoint e') : e'.Disjoint e := fun i hi' hi => h i hi hi'

/-- What is added to a field. -/
def addend (e : Site) (delta : UInt64) : Nat :=
  if e.kind = 1 then delta.toNat / 2 ^ 16 else delta.toNat

theorem width_le (e : Site) : e.width ≤ 8 := by
  unfold width widthOf?
  split
  · decide
  · decide
  · decide
  · decide
  · decide
  · decide

/-- Sums wrap at the width of the field. -/
theorem moved_eq (hold : old < 256 ^ e.width) :
    e.moved delta old = (old + e.addend delta) % 256 ^ e.width := by
  obtain ⟨page, kind, offset⟩ := e
  unfold moved addend
  simp only
  split
  · rfl
  · rfl
  · rfl
  · rfl
  · next h1 h2 h3 h10 =>
      have hwidth : width ⟨page, kind, offset⟩ = 0 := by
        unfold width widthOf?
        split
        · rfl
        · contradiction
        · contradiction
        · contradiction
        · contradiction
        · rfl
      rw [hwidth] at hold ⊢
      omega

theorem moved_lt (hold : old < 256 ^ e.width) : e.moved delta old < 256 ^ e.width := by
  rw [moved_eq hold]
  exact Nat.mod_lt _ (Nat.pow_pos (by decide))

theorem moved_zero (hold : old < 256 ^ e.width) : e.moved 0 old = old := by
  have haddend : e.addend 0 = 0 := by
    unfold addend
    split
    · rfl
    · rfl
  rw [moved_eq hold, haddend, Nat.add_zero, Nat.mod_eq_of_lt hold]

/-- A field is moved twice as it is moved once by the sum, unless it holds the
upper half of an address: that half loses what the lower one carries over. -/
theorem moved_moved (hkind : e.kind ≠ 1) (hold : old < 256 ^ e.width) :
    e.moved delta' (e.moved delta old) = e.moved (delta + delta') old := by
  have haddend : ∀ delta : UInt64, e.addend delta = delta.toNat := fun _ => if_neg hkind
  have hsum : (delta + delta').toNat = (delta.toNat + delta'.toNat) % 256 ^ 8 :=
    UInt64.toNat_add _ _
  have hdvd : 256 ^ e.width ∣ 256 ^ 8 := Nat.pow_dvd_pow 256 e.width_le
  rw [moved_eq (moved_lt hold), moved_eq hold, moved_eq hold, haddend, haddend, haddend, hsum]
  calc ((old + delta.toNat) % 256 ^ e.width + delta'.toNat) % 256 ^ e.width
      = (old + (delta.toNat + delta'.toNat)) % 256 ^ e.width := by
        rw [Nat.mod_add_mod, Nat.add_assoc]
    _ = (old + (delta.toNat + delta'.toNat) % 256 ^ 8 % 256 ^ e.width) % 256 ^ e.width := by
        rw [Nat.mod_mod_of_dvd _ hdvd, Nat.add_mod_mod]
    _ = (old + (delta.toNat + delta'.toNat) % 256 ^ 8) % 256 ^ e.width := Nat.add_mod_mod _ _ _

theorem apply_of_width (hwidth : e.width = 0) : e.apply delta memory = memory := by
  rw [apply, hwidth]
  exact Bytes.overwrite_empty _ _

/-- The field that an entry moves. -/
theorem leNat_apply (hfits : e.Fits memory.size) :
    Bytes.leNat (e.apply delta memory) e.target e.width =
      e.moved delta (Bytes.leNat memory e.target e.width) := by
  have hmoved : e.moved delta (Bytes.leNat memory e.target e.width) < 256 ^ e.width :=
    moved_lt (Bytes.leNat_lt _ _ _)
  by_cases hwidth : e.width = 0
  · have hfield := Bytes.leNat_lt (e.apply delta memory) e.target e.width
    rw [hwidth] at hmoved hfield ⊢
    omega
  · exact Bytes.leNat_overwrite_le (hfits.inside hwidth).2 hmoved

/-- The fields beside it. -/
theorem leNat_apply_of_disjoint (h : e.Disjoint e') :
    Bytes.leNat (e.apply delta memory) e'.target e'.width =
      Bytes.leNat memory e'.target e'.width := by
  refine Bytes.leNat_congr fun i hfrom hto => ?_
  have hcovers : ¬ e.Covers i := fun hi => h i hi ⟨hfrom, hto⟩
  rw [apply, Bytes.byte_overwrite, Bytes.size_le]
  exact if_neg fun hi => hcovers ⟨hi.1, hi.2.1⟩

theorem byte_apply_of_not_covers (h : ¬ e.Covers i) :
    Bytes.byte (e.apply delta memory) i = Bytes.byte memory i := by
  rw [apply, Bytes.byte_overwrite, Bytes.size_le]
  exact if_neg fun hi => h ⟨hi.1, hi.2.1⟩

/-- At the base that it wants an image stays as it is. -/
theorem apply_zero (hfits : e.Fits memory.size) : e.apply 0 memory = memory := by
  by_cases hwidth : e.width = 0
  · exact apply_of_width hwidth
  · rw [apply, moved_zero (Bytes.leNat_lt _ _ _)]
    exact Bytes.overwrite_le_leNat memory (hfits.inside hwidth).2

/-- A field that is moved once more. -/
theorem apply_apply (hkind : e.kind ≠ 1) (hfits : e.Fits memory.size) :
    e.apply delta' (e.apply delta memory) = e.apply (delta + delta') memory := by
  have hfield := @leNat_apply e delta memory hfits
  rw [apply, hfield, moved_moved hkind (Bytes.leNat_lt _ _ _)]
  exact Bytes.overwrite_overwrite (by rw [Bytes.size_le, Bytes.size_le])

/-- Separate fields are moved in any order. -/
theorem apply_comm (h : e.Disjoint e') :
    e'.apply delta' (e.apply delta memory) = e.apply delta (e'.apply delta' memory) := by
  have hfield : Bytes.leNat (e.apply delta memory) e'.target e'.width =
      Bytes.leNat memory e'.target e'.width := leNat_apply_of_disjoint h
  have hfield' : Bytes.leNat (e'.apply delta' memory) e.target e.width =
      Bytes.leNat memory e.target e.width := leNat_apply_of_disjoint h.symm
  cases disjoint_iff.mp h with
  | inl hwidth => rw [apply_of_width hwidth, apply_of_width hwidth]
  | inr h =>
    cases h with
    | inl hwidth => rw [apply_of_width hwidth, apply_of_width hwidth]
    | inr happart =>
      have hwrites : ∀ n n', Bytes.overwrite (Bytes.overwrite memory e.target (Bytes.le e.width n))
          e'.target (Bytes.le e'.width n') =
          Bytes.overwrite (Bytes.overwrite memory e'.target (Bytes.le e'.width n'))
            e.target (Bytes.le e.width n) := by
        intro n n'
        refine Bytes.overwrite_comm ?_
        rwa [Bytes.size_le, Bytes.size_le]
      calc e'.apply delta' (e.apply delta memory)
          = Bytes.overwrite (e.apply delta memory) e'.target (Bytes.le e'.width
              (e'.moved delta' (Bytes.leNat memory e'.target e'.width))) := by
            rw [apply, hfield]
        _ = Bytes.overwrite (e'.apply delta' memory) e.target (Bytes.le e.width
              (e.moved delta (Bytes.leNat memory e.target e.width))) := hwrites _ _
        _ = e.apply delta (e'.apply delta' memory) := by
            rw [apply.eq_1 delta (e'.apply delta' memory), hfield']

end Site

/-! ## all fields -/

variable {sites : List Site} {delta delta' : UInt64} {memory : ByteArray}

theorem size_foldl_apply : (sites.foldl (Site.apply delta) memory).size = memory.size := by
  induction sites generalizing memory with
  | nil => rfl
  | cons e rest ih => rw [List.foldl_cons, ih, size_apply]

theorem byte_foldl_apply {i : Nat} (h : ∀ e ∈ sites, ¬ e.Covers i) :
    Bytes.byte (sites.foldl (Site.apply delta) memory) i = Bytes.byte memory i := by
  induction sites generalizing memory with
  | nil => rfl
  | cons e rest ih =>
      rw [List.foldl_cons, ih fun e' he' => h e' (List.mem_cons_of_mem e he'),
        Site.byte_apply_of_not_covers (h e List.mem_cons_self)]

theorem leNat_foldl_apply {e : Site} (h : ∀ e' ∈ sites, e.Disjoint e') :
    Bytes.leNat (sites.foldl (Site.apply delta) memory) e.target e.width =
      Bytes.leNat memory e.target e.width := by
  refine Bytes.leNat_congr fun i hfrom hto => ?_
  exact byte_foldl_apply fun e' he' hcovers => h e' he' i ⟨hfrom, hto⟩ hcovers

theorem foldl_apply_zero (hfits : ∀ e ∈ sites, e.Fits memory.size) :
    sites.foldl (Site.apply 0) memory = memory := by
  induction sites with
  | nil => rfl
  | cons e rest ih =>
      rw [List.foldl_cons, Site.apply_zero (hfits e List.mem_cons_self)]
      exact ih fun e' he' => hfits e' (List.mem_cons_of_mem e he')

/-- A field can be moved before or after those that are separate from it. -/
theorem apply_foldl_apply {e : Site} (h : ∀ e' ∈ sites, e.Disjoint e') :
    e.apply delta' (sites.foldl (Site.apply delta) memory) =
      sites.foldl (Site.apply delta) (e.apply delta' memory) := by
  induction sites generalizing memory with
  | nil => rfl
  | cons e' rest ih =>
      rw [List.foldl_cons, List.foldl_cons, ih fun e'' he'' => h e'' (List.mem_cons_of_mem e' he''),
        Site.apply_comm (h e' List.mem_cons_self)]

/-- Separate fields are moved twice as they are moved once by the sum. -/
theorem foldl_apply_foldl_apply (hdisjoint : sites.Pairwise Site.Disjoint)
    (hkinds : ∀ e ∈ sites, e.kind ≠ 1) (hfits : ∀ e ∈ sites, e.Fits memory.size) :
    sites.foldl (Site.apply delta') (sites.foldl (Site.apply delta) memory) =
      sites.foldl (Site.apply (delta + delta')) memory := by
  induction sites generalizing memory with
  | nil => rw [List.foldl_nil, List.foldl_nil, List.foldl_nil]
  | cons e rest ih =>
      obtain ⟨hfirst, hrest⟩ := List.pairwise_cons.mp hdisjoint
      have hfitsRest : ∀ e' ∈ rest, e'.Fits (e.apply (delta + delta') memory).size := by
        rw [size_apply]
        exact fun e' he' => hfits e' (List.mem_cons_of_mem e he')
      have hkind := hkinds e List.mem_cons_self
      have hkindsRest : ∀ e' ∈ rest, e'.kind ≠ 1 :=
        fun e' he' => hkinds e' (List.mem_cons_of_mem e he')
      -- the second move of the first field goes in front of the first moves of the rest
      rw [List.foldl_cons, List.foldl_cons, List.foldl_cons, apply_foldl_apply hfirst,
        Site.apply_apply hkind (hfits e List.mem_cons_self)]
      exact ih hrest hkindsRest hfitsRest

/-- What the entries of a table leave when the base moves by `delta`. -/
structure Moved (sites : List Site) (delta : UInt64) (before after : ByteArray) : Prop where
  size : after.size = before.size
  /-- Bytes that are in no field stay. -/
  outside : ∀ i, (∀ e ∈ sites, ¬ e.Covers i) → Bytes.byte after i = Bytes.byte before i
  /-- A field that no other one overlaps is moved. -/
  field : ∀ front e back, sites = front ++ e :: back → (∀ e' ∈ front ++ back, e.Disjoint e') →
    Bytes.leNat after e.target e.width = e.moved delta (Bytes.leNat before e.target e.width)

theorem moved_foldl_apply (hfits : ∀ e ∈ sites, e.Fits memory.size) :
    Moved sites delta memory (sites.foldl (Site.apply delta) memory) where
  size := size_foldl_apply
  outside _ h := byte_foldl_apply h
  field front e back hsites hdisjoint := by
    subst hsites
    have hfront : ∀ e' ∈ front, e.Disjoint e' :=
      fun e' he' => hdisjoint e' (List.mem_append_left back he')
    have hback : ∀ e' ∈ back, e.Disjoint e' :=
      fun e' he' => hdisjoint e' (List.mem_append_right front he')
    have hfitsAt : e.Fits (front.foldl (Site.apply delta) memory).size := by
      rw [size_foldl_apply]
      exact hfits e (List.mem_append_right front List.mem_cons_self)
    rw [List.foldl_append, List.foldl_cons, leNat_foldl_apply hback, Site.leNat_apply hfitsAt,
      leNat_foldl_apply hfront]

/-! ## whole tables -/

section Tables

variable {h : Headers} {source : ByteArray} {s : RelocationSection} {base base' : UInt64}

/-- The entries of the table of an image; there are none if the table is not
in the file. -/
def tableSites (h : Headers) (source : ByteArray) (s : RelocationSection) : List Site :=
  match h.relocations? with
  | none => []
  | some dir =>
    if s.rawPointer + dir.size ≤ source.size then (listing (tableOf source s dir)).sites else []

/-- The memory of an image after its relocations for a base. -/
def relocated (h : Headers) (source : ByteArray) (s : RelocationSection) (base : UInt64)
    (memory : ByteArray) : ByteArray :=
  (applyAll h source s base memory).value.2

theorem value_applyAll_imageBase (memory : ByteArray) :
    (applyAll h source s h.imageBase memory).value = (.ok (), memory) := by
  have hdistance : distance h h.imageBase = 0 := UInt64.sub_self _
  rw [value_applyAll]
  cases h.relocations? with
  | none => rfl
  | some dir => exact if_pos hdistance

theorem fst_applyAll_eq (hbase : base ≠ h.imageBase) (hbase' : base' ≠ h.imageBase)
    {memory memory' : ByteArray} (hsize : memory.size = memory'.size) :
    (applyAll h source s base memory).value.1 = (applyAll h source s base' memory').value.1 := by
  rw [value_applyAll, value_applyAll]
  cases h.relocations? with
  | none => rfl
  | some dir =>
    simp only
    rw [if_neg (distance_ne_zero hbase), if_neg (distance_ne_zero hbase')]
    cases table? source dir s with
    | none => rfl
    | some table =>
      have hanswer := (@agree_applyBlocks (distance h base) (distance h base') 0 table 0
        memory memory' hsize).1
      simp only
      generalize ends (applyBlocks (distance h base) table 0 0) memory = first at hanswer ⊢
      generalize ends (applyBlocks (distance h base') table 0 0) memory' = first' at hanswer ⊢
      obtain ⟨answer, left⟩ := first
      obtain ⟨answer', left'⟩ := first'
      change answer = answer' at hanswer
      subst hanswer
      cases answer with
      | error e => rfl
      | ok => rfl

theorem snd_applySites (ending : Except Status Unit) :
    (applySites delta sites ending memory).2 =
      (sites.takeWhile (·.Fits memory.size)).foldl (Site.apply delta) memory := by
  unfold applySites
  split
  · rfl
  · rfl

theorem fits_of_applySites {ending : Except Status Unit}
    (hok : (applySites delta sites ending memory).1 = .ok ()) :
    ∀ e ∈ sites, e.Fits memory.size := by
  induction sites generalizing memory with
  | nil => simp
  | cons e rest ih =>
    by_cases hfits : e.Fits memory.size
    · rw [applySites_cons_of_fits hfits] at hok
      have hrest := ih hok
      rw [size_apply] at hrest
      exact List.forall_mem_cons.mpr ⟨hfits, hrest⟩
    · rw [applySites_cons_of_not_fits hfits] at hok
      cases hok

theorem fits_of_mem_takeWhile {size : Nat} : ∀ e ∈ sites.takeWhile (·.Fits size), e.Fits size := by
  intro e he
  have hfits := List.mem_takeWhile_imp he
  exact of_decide_eq_true hfits

/-- The entries in front of the first one that cannot be applied are applied,
at the base that the image wants too. -/
theorem relocated_eq (base : UInt64) (memory : ByteArray) :
    relocated h source s base memory =
      ((tableSites h source s).takeWhile (·.Fits memory.size)).foldl
        (Site.apply (base - h.imageBase)) memory := by
  by_cases hbase : base = h.imageBase
  · rw [hbase, UInt64.sub_self, foldl_apply_zero fits_of_mem_takeWhile, relocated,
      value_applyAll_imageBase]
  · cases hdir : h.relocations? with
    | none =>
      rw [relocated, value_applyAll, tableSites, hdir]
      rfl
    | some dir =>
      rw [relocated, tableSites, hdir]
      simp only
      by_cases hinside : s.rawPointer + dir.size ≤ source.size
      · have hvalue := congrArg Prod.snd (applyAll_of_table hdir hbase hinside memory)
        simp only at hvalue
        rw [hvalue, if_pos hinside]
        exact snd_applySites _
      · rw [applyAll_of_no_table hdir hbase hinside, if_neg hinside]
        rfl

/-- If the answer is ok, all entries can be applied. -/
theorem fits_of_applyAll (hbase : base ≠ h.imageBase)
    (hok : (applyAll h source s base memory).value.1 = .ok ()) :
    ∀ e ∈ tableSites h source s, e.Fits memory.size := by
  rw [tableSites]
  cases hdir : h.relocations? with
  | none => simp
  | some dir =>
    simp only
    by_cases hinside : s.rawPointer + dir.size ≤ source.size
    · have hvalue := congrArg Prod.fst (applyAll_of_table hdir hbase hinside memory)
      rw [hok] at hvalue
      rw [if_pos hinside]
      exact fits_of_applySites hvalue.symm
    · rw [applyAll_of_no_table hdir hbase hinside] at hok
      cases hok

/-- If all entries can be applied, the answer is ok. -/
theorem applyAll_of_fits {dir : Directory} (hdir : h.relocations? = some dir)
    (hbase : base ≠ h.imageBase) (hinside : s.rawPointer + dir.size ≤ source.size)
    (hwhole : (listing (tableOf source s dir)).whole = true)
    (hfits : ∀ e ∈ (listing (tableOf source s dir)).sites, e.Fits memory.size) :
    (applyAll h source s base memory).value.1 = .ok () := by
  have hvalue := congrArg Prod.fst (applyAll_of_table hdir hbase hinside memory)
  rw [interpret, applySites_of_fits hfits, hwhole] at hvalue
  simp only at hvalue
  generalize (applyAll h source s base memory).value.1 = answer at hvalue ⊢
  cases answer with
  | error e => cases hvalue
  | ok => rfl

/-- Separate fields are moved from base to base as they are moved at once. -/
theorem relocated_relocated (hdisjoint : (tableSites h source s).Pairwise Site.Disjoint)
    (hkinds : ∀ e ∈ tableSites h source s, e.kind ≠ 1) (d₁ d₂ : UInt64) (memory : ByteArray) :
    relocated h source s (h.imageBase + d₂) (relocated h source s (h.imageBase + d₁) memory) =
      relocated h source s (h.imageBase + (d₁ + d₂)) memory := by
  have hdistance : ∀ d : UInt64, h.imageBase + d - h.imageBase = d := by
    intro d
    rw [UInt64.add_comm, UInt64.add_sub_cancel]
  have happlied := List.takeWhile_sublist (l := tableSites h source s) (·.Fits memory.size)
  rw [relocated_eq (h.imageBase + d₁), relocated_eq, relocated_eq, size_foldl_apply,
    hdistance, hdistance, hdistance]
  exact foldl_apply_foldl_apply (hdisjoint.sublist happlied)
    (fun e he => hkinds e (happlied.subset he)) fits_of_mem_takeWhile

/-- **Images at different bases**: all bases but the one that the image wants
get the same answer, and so does all memory of one size.  If it is ok, it is
ok at every base, and the fields are moved by the distance to that base.
Separate fields of which none holds an upper half are moved from base to base
as they are moved at once, and back. -/
theorem applyAll_at_bases (h : Headers) (source : ByteArray) (s : RelocationSection)
    (memory : ByteArray) :
    (∀ b₁ b₂ memory', b₁ ≠ h.imageBase → b₂ ≠ h.imageBase → memory.size = memory'.size →
      (applyAll h source s b₁ memory).value.1 = (applyAll h source s b₂ memory').value.1) ∧
    (∀ b₁, b₁ ≠ h.imageBase → (applyAll h source s b₁ memory).value.1 = .ok () →
      ∀ b, (applyAll h source s b memory).value.1 = .ok () ∧
        Moved (tableSites h source s) (b - h.imageBase) memory (relocated h source s b memory)) ∧
    ((tableSites h source s).Pairwise Site.Disjoint → (∀ e ∈ tableSites h source s, e.kind ≠ 1) →
      (∀ d₁ d₂, relocated h source s (h.imageBase + d₂)
          (relocated h source s (h.imageBase + d₁) memory) =
        relocated h source s (h.imageBase + (d₁ + d₂)) memory) ∧
      ∀ d, relocated h source s (h.imageBase + -d)
        (relocated h source s (h.imageBase + d) memory) = memory) := by
  refine ⟨fun b₁ b₂ memory' hb₁ hb₂ hsize => fst_applyAll_eq hb₁ hb₂ hsize, ?_, ?_⟩
  · intro b₁ hb₁ hok b
    have hfits := fits_of_applyAll hb₁ hok
    have hall : (tableSites h source s).takeWhile (·.Fits memory.size) = tableSites h source s :=
      List.takeWhile_eq_self_iff.mpr fun e he => decide_eq_true (hfits e he)
    constructor
    · by_cases hb : b = h.imageBase
      · rw [hb, value_applyAll_imageBase]
      · rw [← fst_applyAll_eq hb₁ hb rfl, hok]
    · rw [relocated_eq, hall]
      exact moved_foldl_apply hfits
  · intro hdisjoint hkinds
    refine ⟨fun d₁ d₂ => relocated_relocated hdisjoint hkinds d₁ d₂ memory, fun d => ?_⟩
    rw [relocated_relocated hdisjoint hkinds, UInt64.add_right_neg, UInt64.add_zero, relocated,
      value_applyAll_imageBase]

/-- The layered image with a lower half in place of the upper half. -/
def separateImage : ByteArray :=
  ⟨⟨(layeredFields.dropLast ++ [(2, 0x2004)]).flatMap fun (width, n) => Bytes.leList width n⟩⟩

/-- The entries of its table. -/
def separateSites : List Site := [⟨368, 10, 0⟩, ⟨368, 0, 0⟩, ⟨384, 3, 0⟩, ⟨384, 2, 4⟩]

theorem size_separateImage : separateImage.size = 424 := Bytes.size_flatMap_leList _

theorem listing_separate :
    listing (tableOf separateImage ⟨400, 24, 400, 24⟩ ⟨400, 24⟩) = ⟨separateSites, true⟩ := by
  decide +kernel

theorem tableSites_separate :
    tableSites layeredHeaders separateImage ⟨400, 24, 400, 24⟩ = separateSites := by
  have hdir : layeredHeaders.relocations? = some ⟨400, 24⟩ := by decide
  have hinside : 400 + 24 ≤ separateImage.size := by simp [size_separateImage]
  rw [tableSites, hdir]
  simp only
  rw [if_pos hinside, listing_separate]

/-- The image is moved up to a base and from there on to another one, and it
can be moved back. -/
theorem applyAll_at_bases_separate :
    (0x20000 : UInt64) ≠ layeredHeaders.imageBase ∧
      (applyAll layeredHeaders separateImage ⟨400, 24, 400, 24⟩ 0x20000 separateImage).value.1 =
        .ok () ∧
      (applyAll layeredHeaders separateImage ⟨400, 24, 400, 24⟩ 0x30000 (Bytes.zeros 424)).value.1 =
        .ok () ∧
      Bytes.leNat (relocated layeredHeaders separateImage ⟨400, 24, 400, 24⟩ 0x30000 separateImage)
        368 8 = 0x30170 ∧
      separateSites.Pairwise Site.Disjoint ∧ (∀ e ∈ separateSites, e.kind ≠ 1) ∧
      relocated layeredHeaders separateImage ⟨400, 24, 400, 24⟩ 0
          (relocated layeredHeaders separateImage ⟨400, 24, 400, 24⟩ 0x20000 separateImage) =
        separateImage := by
  have hbase : (0x20000 : UInt64) ≠ layeredHeaders.imageBase := by decide
  have hbase' : (0x30000 : UInt64) ≠ layeredHeaders.imageBase := by decide
  have hdir : layeredHeaders.relocations? = some ⟨400, 24⟩ := by decide
  have hinside : 400 + 24 ≤ separateImage.size := by simp [size_separateImage]
  have hfits : ∀ e ∈ separateSites, e.Fits separateImage.size := by
    rw [size_separateImage]
    decide
  have hok : (applyAll layeredHeaders separateImage ⟨400, 24, 400, 24⟩ 0x20000
      separateImage).value.1 = .ok () :=
    applyAll_of_fits hdir hbase hinside (by rw [listing_separate]) (by rwa [listing_separate])
  have hdisjoint : separateSites.Pairwise Site.Disjoint := by decide
  have hkinds : ∀ e ∈ separateSites, e.kind ≠ 1 := by decide
  obtain ⟨hanswer, hmoved, hseparate⟩ :=
    applyAll_at_bases layeredHeaders separateImage ⟨400, 24, 400, 24⟩ separateImage
  rw [tableSites_separate] at hmoved hseparate
  have hzeros := hanswer 0x20000 0x30000 (Bytes.zeros 424) hbase hbase'
    (by simp [size_separateImage])
  have hfield := (hmoved 0x20000 hbase hok 0x30000).2.field [] ⟨368, 10, 0⟩
    [⟨368, 0, 0⟩, ⟨384, 3, 0⟩, ⟨384, 2, 4⟩] rfl (by decide)
  have hold : Bytes.leNat separateImage 368 8 = 0x10170 := by decide +kernel
  have hnew : Site.moved ⟨368, 10, 0⟩ (0x30000 - layeredHeaders.imageBase) 0x10170 = 0x30170 := by
    decide
  change Bytes.leNat _ 368 8 = Site.moved _ _ (Bytes.leNat separateImage 368 8) at hfield
  rw [hold, hnew] at hfield
  have hback := (hseparate hdisjoint hkinds).2 0x10000
  exact ⟨hbase, hok, hzeros.symm.trans hok, hfield, hdisjoint, hkinds, hback⟩

end Tables

end EfiLoader.Pe.Fixup
