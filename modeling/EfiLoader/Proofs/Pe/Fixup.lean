import EfiLoader.Pe.Fixup

/-!
# EfiLoader.Proofs.Pe.Fixup

What base relocations do to an image, apart from the lines that are written.
Each function that applies them has an equation for where it ends:

* `ends_applyRecord`, `ends_applyRecords_cons`, `ends_applyBlocks` — by the image it starts from;
* `value_applyAll` — for the whole table;
* `size_applyAll` — the memory of the image keeps its size.
-/

namespace EfiLoader.Pe.Fixup

open Log

/-! ## where patching ends -/

namespace Patching

/-- The answer of a computation that patches `region`, and the image it leaves. -/
def ends (m : Patching α) (region : ByteArray) : Except Error α × ByteArray :=
  (m.run.run region).run

theorem ends_bind (m : Patching α) (k : α → Patching β) (region : ByteArray) :
    ends (m >>= k) region = match ends m region with
      | (.ok a, region) => ends (k a) region
      | (.error e, region) => (.error e, region) := by
  simp only [ends, ExceptT.run_bind, StateT.run_bind, Id.run_bind]
  rcases (m.run.run region).run with ⟨_ | _, _⟩
  · rfl
  · rfl

@[simp] theorem ends_pure (a : α) (region : ByteArray) : ends (pure a) region = (.ok a, region) :=
  rfl

@[simp] theorem ends_throw (e : Error) (region : ByteArray) :
    ends (throw e : Patching α) region = (.error e, region) := rfl

@[simp] theorem ends_get (region : ByteArray) : ends get region = (.ok region, region) := rfl

@[simp] theorem ends_modify (f : ByteArray → ByteArray) (region : ByteArray) :
    ends (modify f) region = (.ok (), f region) := rfl

end Patching

open Patching (ends)

variable {adjust : UInt64} {index page : Nat} {region : ByteArray}

/-! ## entries -/

theorem ends_applyRecord (r : Record) :
    ends (applyRecord adjust index page r) region =
      match Kind.ofNumber? r.kind with
      | none => (.error (.unknownKind index r.kind), region)
      | some .absolute => (.ok (), region)
      | some kind =>
        if 0x100000000 ≤ page + r.offset then (.error .addressOverflow, region)
        else if region.size < page + r.offset + kind.width then
          (.error (.outside index (page + r.offset)), region)
        else (.ok (), kind.patch adjust region (page + r.offset)) := by
  unfold applyRecord
  rcases Kind.ofNumber? r.kind with _ | kind
  · rfl
  cases kind with
  | absolute => rfl
  | _ =>
    dsimp only
    by_cases hwide : 0x100000000 ≤ page + r.offset
    · rw [if_pos hwide, if_pos hwide, Patching.ends_bind, Patching.ends_throw]
    rw [if_neg hwide, if_neg hwide, Patching.ends_bind, Patching.ends_get]
    dsimp only
    split
    · rw [Patching.ends_bind, Patching.ends_throw]
    · rw [Patching.ends_modify]

theorem size_patch (k : Kind) (bytes : ByteArray) (off : Nat) :
    (k.patch adjust bytes off).size = bytes.size := Bytes.size_overwrite _ _ _

theorem size_applyRecord (r : Record) :
    (ends (applyRecord adjust index page r) region).2.size = region.size := by
  rw [ends_applyRecord]
  rcases Kind.ofNumber? r.kind with _ | kind
  · rfl
  cases kind with
  | absolute => rfl
  | _ =>
    dsimp only
    split
    · rfl
    · split
      · rfl
      · exact size_patch _ _ _

theorem ends_applyRecords_cons (r : Record) (rest : List Record) :
    ends (applyRecords adjust index page (r :: rest)) region =
      match ends (applyRecord adjust index page r) region with
      | (.ok (), region) => ends (applyRecords adjust index page rest) region
      | (.error e, region) => (.error e, region) := by
  rw [applyRecords, Patching.ends_bind]
  rcases ends (applyRecord adjust index page r) region with ⟨_ | _, _⟩
  · rfl
  · rfl

theorem size_applyRecords (records : List Record) :
    (ends (applyRecords adjust index page records) region).2.size = region.size := by
  induction records generalizing region with
  | nil => rfl
  | cons r rest ih =>
    have hsize : (ends (applyRecord adjust index page r) region).2.size = region.size :=
      size_applyRecord r
    rw [ends_applyRecords_cons]
    generalize ends (applyRecord adjust index page r) region = applied at hsize ⊢
    rcases applied with ⟨e | _, moved⟩
    · exact hsize
    · exact ih.trans hsize

/-! ## blocks -/

variable {table : ByteArray} {off : Nat}

theorem ends_applyBlocks :
    ends (applyBlocks adjust table index off) region =
      if off < table.size then
        match Block.read table index off with
        | .error e => (.error e, region)
        | .ok b =>
          match ends (applyRecords adjust index b.page b.records) region with
          | (.ok (), region) => ends (applyBlocks adjust table (index + 1) (off + b.size)) region
          | (.error e, region) => (.error e, region)
      else (.ok index, region) := by
  rw [applyBlocks]
  by_cases hoff : off < table.size
  · rw [if_pos hoff, if_pos hoff]
    split
    · next e hread => rw [hread, Patching.ends_throw]
    · next b hread =>
      rw [Patching.ends_bind]
      simp only [hread]
      rcases ends (applyRecords adjust index b.page b.records) region with ⟨_ | _, _⟩
      · rfl
      · rfl
  · rw [if_neg hoff, if_neg hoff, Patching.ends_pure]

theorem size_applyBlocks :
    (ends (applyBlocks adjust table index off) region).2.size = region.size := by
  induction hrest : table.size - off using Nat.strongRecOn generalizing index off region with
  | _ n ih =>
    rw [ends_applyBlocks]
    split
    · next hoff =>
      rcases hread : Block.read table index off with e | b
      · rfl
      dsimp only
      have hsize : (ends (applyRecords adjust index b.page b.records) region).2.size =
          region.size := size_applyRecords b.records
      have hblock := Block.blockHeaderSize_le hread
      generalize ends (applyRecords adjust index b.page b.records) region = applied at hsize ⊢
      rcases applied with ⟨e | _, moved⟩
      · exact hsize
      · exact (ih _ (by simp only [blockHeaderSize] at hblock; omega) rfl).trans hsize
    · rfl

/-! ## the whole table -/

variable (h : Headers) (source : ByteArray) (s : RelocationSection) (base : UInt64)

theorem value_applyAll (region : ByteArray) :
    (applyAll h source s base region).value =
      match h.relocations? with
      | none => (.ok (), region)
      | some dir =>
        if distance h base = 0 then (.ok (), region)
        else
          match table? source dir s with
          | none => (.error .tableOutside, region)
          | some table =>
            match ends (applyBlocks (distance h base) table 0 0) region with
            | (.error e, region) => (.error e, region)
            | (.ok _, region) => (.ok (), region) := by
  unfold applyAll
  rcases h.relocations? with _ | dir
  · rfl
  dsimp only
  split
  · rfl
  rcases table? source dir s with _ | table
  · rfl
  dsimp only
  rw [Logged.value_bind]
  change Logged.value (match ends (applyBlocks (distance h base) table 0 0) region with
    | (.error e, region) => _
    | (.ok _, region) => _) = _
  rcases ends (applyBlocks (distance h base) table 0 0) region with ⟨e | _, moved⟩
  · rfl
  · rfl

/-- Relocations do not change the size of the image. -/
theorem size_applyAll (region : ByteArray) :
    (applyAll h source s base region).value.2.size = region.size := by
  rw [value_applyAll]
  rcases h.relocations? with _ | dir
  · rfl
  dsimp only
  split
  · rfl
  rcases table? source dir s with _ | table
  · rfl
  dsimp only
  have hsize : (ends (applyBlocks (distance h base) table 0 0) region).2.size = region.size :=
    size_applyBlocks
  generalize ends (applyBlocks (distance h base) table 0 0) region = applied at hsize ⊢
  rcases applied with ⟨e | _, moved⟩
  · exact hsize
  · exact hsize

end EfiLoader.Pe.Fixup
