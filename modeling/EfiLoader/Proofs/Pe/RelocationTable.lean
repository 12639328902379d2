import EfiLoader.Proofs.Bytes.Stands
import EfiLoader.Proofs.Pe.Fixup
import EfiLoader.Proofs.Pe.Overlay

/-!
# EfiLoader.Proofs.Pe.RelocationTable

What a relocation table does, told in two steps.  `listing` reads a table
without a look at the image: it gives the entries of its blocks as one list,
up to the first block that is damaged.  `interpret` goes through that list and
moves field after field, up to the first entry that cannot be applied.

The loader does both at once, block by block; `applyAll_eq_interpret` says that
this is the same, for the status and for the memory that it leaves.
-/

namespace EfiLoader.Pe.Fixup

open Patching (ends)

/-! ## entries -/

/-- An entry of a table with the address of its page. -/
structure Site where
  page : Nat
  /-- The upper 4 bits of the entry. -/
  kind : Nat
  /-- Its lower 12 bits. -/
  offset : Nat
deriving DecidableEq

namespace Site

/-- The entry that is stored as a 16-bit word. -/
def ofWord (page word : Nat) : Site := ⟨page, word / 2 ^ 12, word % 2 ^ 12⟩

/-- Where the field is. -/
def target (e : Site) : Nat := e.page + e.offset

/-- Bytes of the field of an entry, by its kind. -/
def widthOf? : Nat → Option Nat
  | 0 => some 0
  | 1 => some 2
  | 2 => some 2
  | 3 => some 4
  | 10 => some 8
  | _ => none

/-- Bytes of the field, if there is one. -/
def width (e : Site) : Nat := (widthOf? e.kind).getD 0

/-- An entry can be applied to an image of `size` bytes: its kind is known, and
its field, if it has one, has an address of 32 bits and lies in the image. -/
@[mk_iff] structure Fits (e : Site) (size : Nat) : Prop where
  known : (widthOf? e.kind).isSome
  inside : e.width ≠ 0 → e.target < 2 ^ 32 ∧ e.target + e.width ≤ size

instance (e : Site) (size : Nat) : Decidable (e.Fits size) :=
  decidable_of_iff _ (e.fits_iff size).symm

/-- What a field with the number `old` holds after the base has moved by
`delta`. -/
def moved (e : Site) (delta : UInt64) (old : Nat) : Nat :=
  match e.kind with
  | 1 => (old + delta.toNat / 2 ^ 16) % 2 ^ 16
  | 2 => (old + delta.toNat) % 2 ^ 16
  | 3 => (old + delta.toNat) % 2 ^ 32
  | 10 => (old + delta.toNat) % 2 ^ 64
  | _ => old

/-- Move the field of an entry. -/
def apply (delta : UInt64) (memory : ByteArray) (e : Site) : ByteArray :=
  Bytes.overwrite memory e.target
    (Bytes.le e.width (e.moved delta (Bytes.leNat memory e.target e.width)))

/-- The status that an entry ends with that cannot be applied. -/
def failure (e : Site) : Status :=
  if (widthOf? e.kind).isSome then Status.loadError else Status.unsupported

end Site

/-! ## tables -/

/-- The 16-bit words in an array; an odd last byte is left out. -/
def words (bytes : ByteArray) : List Nat :=
  (List.range (bytes.size / 2)).map fun i => Bytes.leNat bytes (2 * i) 2

/-- What a table says. -/
structure Listing where
  /-- The entries of the blocks in front of the first damaged one. -/
  sites : List Site
  /-- Whether there is no damaged one. -/
  whole : Bool
deriving DecidableEq

/-- Read a table: blocks, each with the address of a page, its own size and
words for entries. -/
def listing (table : ByteArray) : Listing :=
  let page := Bytes.leNat table 0 4
  let size := Bytes.leNat table 4 4
  if table.size = 0 then
    ⟨[], true⟩
  else if _h : 8 ≤ table.size ∧ 8 ≤ size ∧ size ≤ table.size then
    let later := listing (Bytes.drop table size)
    ⟨(words (table.extract 8 size)).map (Site.ofWord page) ++ later.sites, later.whole⟩
  else
    ⟨[], false⟩
termination_by table.size
decreasing_by
  rw [Bytes.size_drop]
  omega

/-- Apply entries one after the other, up to the first one that cannot be
applied; `ending` is the answer if there is none. -/
def applySites (delta : UInt64) (sites : List Site) (ending : Except Status Unit)
    (memory : ByteArray) : Except Status Unit × ByteArray :=
  let applied := (sites.takeWhile (·.Fits memory.size)).foldl (Site.apply delta) memory
  match sites.dropWhile (·.Fits memory.size) with
  | [] => (ending, applied)
  | e :: _ => (.error e.failure, applied)

/-- Apply a table to the memory of an image whose base moves by `delta`. -/
def interpret (delta : UInt64) (table memory : ByteArray) : Except Status Unit × ByteArray :=
  applySites delta (listing table).sites
    (if (listing table).whole then .ok () else .error Status.loadError) memory

variable {delta : UInt64} {index page : Nat} {memory : ByteArray}

/-! ## one entry -/

/-- The entry of a block with the address of its page. -/
def Record.site (page : Nat) (r : Record) : Site := ⟨page, r.kind, r.offset⟩

theorem widthOf?_eq (n : Nat) : Site.widthOf? n = (Kind.ofNumber? n).map Kind.width := by
  unfold Site.widthOf?
  split
  · rfl
  · rfl
  · rfl
  · rfl
  · rfl
  · next h0 h1 h2 h3 h10 =>
      have hnone : Kind.ofNumber? n = none := by
        simp [Kind.ofNumber?, Kind.all, Kind.number, Ne.symm h0, Ne.symm h1, Ne.symm h2,
          Ne.symm h3, Ne.symm h10]
      rw [hnone]
      rfl

theorem number_of_ofNumber? {n : Nat} {k : Kind} (h : Kind.ofNumber? n = some k) :
    k.number = n := by
  have hfound := List.find?_some h
  simpa using hfound

theorem size_apply (e : Site) : (e.apply delta memory).size = memory.size :=
  Bytes.size_overwrite _ _ _

theorem width_eq_of_ofNumber? {e : Site} {k : Kind} (hk : Kind.ofNumber? e.kind = some k) :
    e.width = k.width := by
  rw [Site.width, widthOf?_eq, hk]
  rfl

/-- An entry moves its field as its kind says. -/
theorem apply_of_ofNumber? {e : Site} {k : Kind} (hk : Kind.ofNumber? e.kind = some k) :
    e.apply delta memory = k.patch delta memory e.target := by
  have hnumber := number_of_ofNumber? hk
  have hwidth := width_eq_of_ofNumber? hk
  have hmoved : e.moved delta (Bytes.leNat memory e.target k.width) =
      (Bytes.leNat memory e.target k.width + k.addend delta) % 256 ^ k.width := by
    unfold Site.moved
    rw [← hnumber]
    cases k with
    | absolute => simp [Kind.number, Kind.width, Bytes.leNat, Nat.mod_one]
    | high => rfl
    | low => rfl
    | highLow => rfl
    | dir64 => rfl
  rw [Site.apply, hwidth, hmoved, Bytes.le_mod, Kind.patch]

/-- An entry that fits is applied. -/
theorem ends_applyRecord_of_fits {r : Record} (hfits : (r.site page).Fits memory.size) :
    ends (applyRecord delta index page r) memory =
      (.ok (), (r.site page).apply delta memory) := by
  have hknown := hfits.known
  rw [widthOf?_eq, Option.isSome_map] at hknown
  obtain ⟨k, hk⟩ := Option.isSome_iff_exists.mp hknown
  have hwidth := width_eq_of_ofNumber? hk
  have hinside := hfits.inside
  rw [hwidth] at hinside
  rw [apply_of_ofNumber? hk]
  change Kind.ofNumber? r.kind = some k at hk
  change _ → page + r.offset < _ ∧ page + r.offset + _ ≤ _ at hinside
  rw [ends_applyRecord, hk]
  cases k with
  | absolute =>
      have hnone : Kind.absolute.patch delta memory (r.site page).target = memory :=
        Bytes.overwrite_empty _ _
      rw [hnone]
  | _ =>
      obtain ⟨haddress, hfield⟩ := hinside (by decide)
      simp only
      rw [if_neg (by omega), if_neg (by omega)]
      rfl

/-- An entry that does not fit is not applied, and nothing else happens. -/
theorem ends_applyRecord_of_not_fits {r : Record} (hfits : ¬ (r.site page).Fits memory.size) :
    ∃ e, ends (applyRecord delta index page r) memory = (.error e, memory) ∧
      Fault.status e = (r.site page).failure := by
  have hkind : (r.site page).kind = r.kind := rfl
  rw [ends_applyRecord]
  cases hk : Kind.ofNumber? r.kind with
  | none =>
      refine ⟨_, rfl, ?_⟩
      rw [Site.failure, hkind, widthOf?_eq, hk]
      rfl
  | some k =>
      have hwidth := @width_eq_of_ofNumber? (r.site page) k hk
      have hknown : (Site.widthOf? (r.site page).kind).isSome = true := by
        rw [hkind, widthOf?_eq, hk]
        rfl
      have hfailure : (r.site page).failure = Status.loadError := if_pos hknown
      have houtside : ¬ (k.width ≠ 0 → page + r.offset < 2 ^ 32 ∧
          page + r.offset + k.width ≤ memory.size) := by
        intro hinside
        rw [← hwidth] at hinside
        exact hfits ⟨hknown, hinside⟩
      rw [hfailure]
      cases k with
      | absolute => exact absurd (fun h => absurd rfl h) houtside
      | _ =>
          simp only
          split
          · exact ⟨_, rfl, rfl⟩
          · next haddress =>
              have hfield : memory.size < page + r.offset + _ :=
                Nat.not_le.mp fun hfield => houtside fun _ => ⟨by omega, hfield⟩
              rw [if_pos hfield]
              exact ⟨_, rfl, rfl⟩

/-! ## entries one after the other -/

variable {sites : List Site} {ending : Except Status Unit}

theorem applySites_cons_of_fits {e : Site} (hfits : e.Fits memory.size) :
    applySites delta (e :: sites) ending memory =
      applySites delta sites ending (e.apply delta memory) := by
  simp [applySites, hfits, size_apply]

theorem applySites_cons_of_not_fits {e : Site} (hfits : ¬ e.Fits memory.size) :
    applySites delta (e :: sites) ending memory = (.error e.failure, memory) := by
  simp [applySites, hfits]

/-- Entries that all fit are all applied. -/
theorem applySites_of_fits (hfits : ∀ e ∈ sites, e.Fits memory.size) :
    applySites delta sites ending memory = (ending, sites.foldl (Site.apply delta) memory) := by
  induction sites generalizing memory with
  | nil => rfl
  | cons e rest ih =>
      have hrest : ∀ e' ∈ rest, e'.Fits (e.apply delta memory).size := by
        rw [size_apply]
        exact fun e' he' => hfits e' (List.mem_cons_of_mem e he')
      rw [applySites_cons_of_fits (hfits e List.mem_cons_self), ih hrest, List.foldl_cons]

variable (index) in
/-- The entries of a block are applied, and then those after it. -/
theorem applySites_records_append (records : List Record) :
    applySites delta (records.map (Record.site page) ++ sites) ending memory =
      match ends (applyRecords delta index page records) memory with
      | (.ok (), memory) => applySites delta sites ending memory
      | (.error e, memory) => (.error (Fault.status e), memory) := by
  induction records generalizing memory with
  | nil => rfl
  | cons r rest ih =>
      rw [List.map_cons, List.cons_append, ends_applyRecords_cons]
      by_cases hfits : (r.site page).Fits memory.size
      · rw [applySites_cons_of_fits hfits, ends_applyRecord_of_fits hfits, ih]
      · obtain ⟨e, hends, hstatus⟩ := ends_applyRecord_of_not_fits hfits
        rw [applySites_cons_of_not_fits hfits, hends, ← hstatus]

/-! ## block after block -/

variable {table : ByteArray} {off : Nat}

/-- A block starts at offset `off` and ends in the table. -/
def BlockAt (table : ByteArray) (off : Nat) : Prop :=
  off + 8 ≤ table.size ∧ 8 ≤ Bytes.leNat table (off + 4) 4 ∧
    off + Bytes.leNat table (off + 4) 4 ≤ table.size

theorem read_of_blockAt (hblock : BlockAt table off) :
    Block.read table index off = .ok
      { page := Bytes.leNat table off 4
        size := Bytes.leNat table (off + 4) 4
        records := records table (off + 8) ((Bytes.leNat table (off + 4) 4 - 8) / 2) } := by
  obtain ⟨hheader, hsize, hinside⟩ := hblock
  unfold Block.read blockHeaderSize
  simp only
  rw [if_neg (by omega), if_neg (by omega), if_neg (by omega), if_neg (by omega),
    if_neg (by omega)]

variable (index) in
theorem read_of_not_blockAt (hblock : ¬ BlockAt table off) :
    ∃ e, Block.read table index off = .error e ∧ Fault.status e = Status.loadError := by
  unfold Block.read blockHeaderSize
  split
  · exact ⟨_, rfl, rfl⟩
  simp only
  split
  · exact ⟨_, rfl, rfl⟩
  split
  · exact ⟨_, rfl, rfl⟩
  split
  · exact ⟨_, rfl, rfl⟩
  split
  · exact ⟨_, rfl, rfl⟩
  · exact absurd ⟨by omega, by omega, by omega⟩ hblock

theorem map_site_records (count : Nat) :
    (records table off count).map (Record.site page) =
      (List.range count).map fun i => Site.ofWord page (Bytes.leNat table (off + 2 * i) 2) := by
  induction count generalizing off with
  | zero => rfl
  | succ count ih =>
      rw [records, List.map_cons, ih, List.range_succ_eq_map, List.map_cons, List.map_map]
      congr 1
      refine List.map_congr_left fun i _ => ?_
      have hoff : off + 2 + 2 * i = off + 2 * (i + 1) := by omega
      simp only [Function.comp_apply, Nat.succ_eq_add_one, hoff]

/-- The words of a block are its entries. -/
theorem map_ofWord_words {start stop : Nat} (h : stop ≤ table.size) :
    (words (table.extract start stop)).map (Site.ofWord page) =
      (records table start ((stop - start) / 2)).map (Record.site page) := by
  rw [map_site_records, words, List.map_map, ByteArray.size_extract, Nat.min_eq_left h]
  refine List.map_congr_left fun i hi => ?_
  have hinside : i < (stop - start) / 2 := List.mem_range.mp hi
  simp only [Function.comp_apply]
  rw [Bytes.leNat_extract (by omega)]

/-- A block in the middle of a table is listed, and then those after it. -/
theorem listing_drop_of_blockAt (hblock : BlockAt table off) :
    listing (Bytes.drop table off) =
      ⟨(records table (off + 8) ((Bytes.leNat table (off + 4) 4 - 8) / 2)).map
          (Record.site (Bytes.leNat table off 4)) ++
          (listing (Bytes.drop table (off + Bytes.leNat table (off + 4) 4))).sites,
        (listing (Bytes.drop table (off + Bytes.leNat table (off + 4) 4))).whole⟩ := by
  obtain ⟨hheader, hsize, hinside⟩ := hblock
  have hcount : off + Bytes.leNat table (off + 4) 4 - (off + 8) =
      Bytes.leNat table (off + 4) 4 - 8 := by omega
  rw [listing]
  simp only [Bytes.size_drop, Bytes.leNat_drop, Nat.add_zero, Bytes.drop_drop, Bytes.extract_drop]
  rw [if_neg (by omega), dif_pos (by omega), map_ofWord_words hinside, hcount]

theorem listing_drop_of_not_blockAt (hoff : off < table.size) (hblock : ¬ BlockAt table off) :
    listing (Bytes.drop table off) = ⟨[], false⟩ := by
  unfold BlockAt at hblock
  rw [listing]
  simp only [Bytes.size_drop, Bytes.leNat_drop, Nat.add_zero]
  rw [if_neg (by omega), dif_neg (by omega)]

theorem listing_drop_of_le (hoff : table.size ≤ off) :
    listing (Bytes.drop table off) = ⟨[], true⟩ := by
  rw [listing]
  simp only [Bytes.size_drop]
  rw [if_pos (by omega)]

/-- Blocks are applied from any offset on as they are listed from there on. -/
theorem interpret_drop :
    interpret delta (Bytes.drop table off) memory =
      match ends (applyBlocks delta table index off) memory with
      | (.ok _, memory) => (.ok (), memory)
      | (.error e, memory) => (.error (Fault.status e), memory) := by
  -- by induction on what is left of the table, which every block makes shorter
  generalize hleft : table.size - off = left
  induction left using Nat.strongRecOn generalizing index off memory with
  | _ left ih =>
    subst hleft
    rw [ends_applyBlocks]
    by_cases hend : table.size ≤ off
    · rw [if_neg (Nat.not_lt.mpr hend), interpret, listing_drop_of_le hend]
      rfl
    rw [if_pos (Nat.not_le.mp hend)]
    by_cases hblock : BlockAt table off
    · rw [read_of_blockAt hblock, interpret, listing_drop_of_blockAt hblock]
      obtain ⟨hheader, hsize, hinside⟩ := hblock
      generalize Bytes.leNat table (off + 4) 4 = size at hsize hinside ⊢
      simp only
      rw [applySites_records_append index]
      generalize ends (applyRecords delta index (Bytes.leNat table off 4)
        (records table (off + 8) ((size - 8) / 2))) memory = applied
      obtain ⟨answer, moved⟩ := applied
      cases answer with
      | error e => rfl
      | ok => exact ih _ (by omega) rfl
    · obtain ⟨e, hread, hstatus⟩ := read_of_not_blockAt index hblock
      rw [hread, interpret, listing_drop_of_not_blockAt (Nat.not_le.mp hend) hblock, ← hstatus]
      rfl

/-! ## whole tables -/

variable {h : Headers} {source : ByteArray} {s : RelocationSection} {base : UInt64}

theorem distance_ne_zero (hbase : base ≠ h.imageBase) : distance h base ≠ 0 := by
  intro hzero
  have hsum : distance h base + h.imageBase = base := UInt64.sub_add_cancel base h.imageBase
  rw [hzero, UInt64.zero_add] at hsum
  exact hbase hsum.symm

/-- The table that the relocations of an image are read from. -/
def tableOf (source : ByteArray) (s : RelocationSection) (dir : Directory) : ByteArray :=
  source.extract s.rawPointer (s.rawPointer + dir.size)

/-- An image that is not at the base it wants is relocated as its table is interpreted. -/
theorem applyAll_of_table {dir : Directory} (hdir : h.relocations? = some dir)
    (hbase : base ≠ h.imageBase) (hinside : s.rawPointer + dir.size ≤ source.size)
    (memory : ByteArray) :
    ((applyAll h source s base memory).value.1.mapError Fault.status,
        (applyAll h source s base memory).value.2) =
      interpret (base - h.imageBase) (tableOf source s dir) memory := by
  rw [value_applyAll, hdir]
  simp only
  rw [if_neg (distance_ne_zero hbase), table?, Bytes.slice?, if_pos hinside, ← distance, ← tableOf]
  generalize tableOf source s dir = table
  have hinterpret := @interpret_drop (distance h base) 0 memory table 0
  rw [Bytes.drop_zero] at hinterpret
  rw [hinterpret]
  simp only
  generalize ends (applyBlocks (distance h base) table 0 0) memory = applied
  obtain ⟨answer, moved⟩ := applied
  cases answer with
  | error e => rfl
  | ok => rfl

/-- Without its table it cannot be relocated. -/
theorem applyAll_of_no_table {dir : Directory} (hdir : h.relocations? = some dir)
    (hbase : base ≠ h.imageBase) (houtside : ¬ s.rawPointer + dir.size ≤ source.size)
    (memory : ByteArray) :
    (applyAll h source s base memory).value = (.error .tableOutside, memory) := by
  rw [value_applyAll, hdir]
  simp only
  rw [if_neg (distance_ne_zero hbase), table?, Bytes.slice?, if_neg houtside]

/-- **Relocation tables**: the relocations of an image that has a table and is
not at the base it wants are those of the list of entries that the table is
read as.  A table that is not in the file leaves the memory alone. -/
theorem applyAll_eq_interpret {dir : Directory} (hdir : h.relocationDirectory = some dir)
    (hsize : dir.size ≠ 0) (hbase : base ≠ h.imageBase) (memory : ByteArray) :
    ((applyAll h source s base memory).value.1.mapError Fault.status,
        (applyAll h source s base memory).value.2) =
      if s.rawPointer + dir.size ≤ source.size then
        interpret (base - h.imageBase)
          (source.extract s.rawPointer (s.rawPointer + dir.size)) memory
      else (.error Status.loadError, memory) := by
  have hrelocations : h.relocations? = some dir := relocations?_eq_some_iff.mpr ⟨hdir, hsize⟩
  by_cases hinside : s.rawPointer + dir.size ≤ source.size
  · rw [if_pos hinside]
    exact applyAll_of_table hrelocations hbase hinside memory
  · rw [if_neg hinside, applyAll_of_no_table hrelocations hbase hinside]
    rfl

/-- The entries of the table of the layered image. -/
def layeredSites : List Site := [⟨368, 10, 0⟩, ⟨368, 0, 0⟩, ⟨384, 3, 0⟩, ⟨384, 1, 4⟩]

theorem listing_layered : listing (layeredImage.extract 400 424) = ⟨layeredSites, true⟩ := by
  decide +kernel

theorem size_layeredImage : layeredImage.size = 424 := Bytes.size_flatMap_leList _

theorem fits_layered : ∀ e ∈ layeredSites, e.Fits layeredImage.size := by
  rw [size_layeredImage]
  decide

/-- The entries of the layered image are all applied. -/
theorem applyAll_eq_interpret_layered :
    layeredHeaders.relocationDirectory = some ⟨400, 24⟩ ∧ (24 : Nat) ≠ 0 ∧
      (0x20000 : UInt64) ≠ layeredHeaders.imageBase ∧
      (applyAll layeredHeaders layeredImage ⟨400, 24, 400, 24⟩ 0x20000
        layeredImage).value.1.mapError Fault.status = .ok () ∧
      (applyAll layeredHeaders layeredImage ⟨400, 24, 400, 24⟩ 0x20000 layeredImage).value.2 =
        layeredSites.foldl (Site.apply 0x10000) layeredImage := by
  have hbase : (0x20000 : UInt64) ≠ layeredHeaders.imageBase := by decide
  have hdelta : (0x20000 : UInt64) - layeredHeaders.imageBase = 0x10000 := by decide
  have hinside : 400 + 24 ≤ layeredImage.size := by simp [size_layeredImage]
  have hinterpret := @applyAll_eq_interpret layeredHeaders layeredImage ⟨400, 24, 400, 24⟩ 0x20000
    ⟨400, 24⟩ rfl (by decide) hbase layeredImage
  simp only at hinterpret
  rw [if_pos hinside, hdelta, interpret, listing_layered, applySites_of_fits fits_layered]
    at hinterpret
  obtain ⟨hstatus, hmemory⟩ := Prod.mk.inj hinterpret
  exact ⟨rfl, by decide, hbase, hstatus, hmemory⟩

end EfiLoader.Pe.Fixup
