import EfiLoader.Pe.Placement

/-!
# EfiLoader.Proofs.Pe.Placement

What placing sections does to an image under construction, apart from the
lines it writes.  Each function of the placement has an equation for where it
ends:

* `ends_noteRelocations`, `ends_place`, `ends_placeAll_some` — for one section;
* `value_placeSections` — for the whole table;
* `size_placeSections` — the memory of the image keeps its size.
-/

namespace EfiLoader.Pe

open Log

/-! ## where a placement ends -/

namespace Placing

/-- The answer of a placement that starts from `p`, and the image it leaves. -/
def ends (m : Placing α) (p : Placement) : Except PlacementError α × Placement :=
  (m.run.run p).value

theorem ends_bind (m : Placing α) (k : α → Placing β) (p : Placement) :
    ends (m >>= k) p = match ends m p with
      | (.ok a, p) => ends (k a) p
      | (.error e, p) => (.error e, p) := by
  simp only [ends, ExceptT.run_bind, StateT.run_bind, Logged.value_bind]
  rcases (m.run.run p).value with ⟨_ | _, _⟩
  · rfl
  · rfl

@[simp] theorem ends_pure (a : α) (p : Placement) : ends (pure a) p = (.ok a, p) := rfl

@[simp] theorem ends_throw (e : PlacementError) (p : Placement) :
    ends (throw e : Placing α) p = (.error e, p) := rfl

@[simp] theorem ends_get (p : Placement) : ends get p = (.ok p, p) := rfl

@[simp] theorem ends_modify (f : Placement → Placement) (p : Placement) :
    ends (modify f) p = (.ok (), f p) := rfl

@[simp] theorem ends_note (line : Entry) (p : Placement) :
    ends (liftM (note line) : Placing Unit) p = (.ok (), p) := rfl

/-- A warning on the way changes nothing. -/
theorem ends_ite_note {c : Prop} [Decidable c] (line : Entry) (k : Unit → Placing α)
    (p : Placement) :
    ends (if c then (liftM (note line) : Placing Unit) >>= k else k ()) p = ends (k ()) p := by
  by_cases hc : c
  · rw [if_pos hc, ends_bind, ends_note]
  · rw [if_neg hc]

end Placing

open Placing (ends)

variable {h : Headers} {source : ByteArray} {limit : Nat} {s : SectionHeader} {p : Placement}

/-! ## one section -/

/-- What is noted of the section with the base relocations. -/
def SectionHeader.relocations (s : SectionHeader) : RelocationSection :=
  ⟨s.virtualAddress, s.virtualSize, s.rawPointer, s.rawSize⟩

/-- Whether the relocation directory is in a section of an image with `limit`
bytes. -/
def SectionHeader.MatchesDirectory (s : SectionHeader) (h : Headers) (limit : Nat) : Prop :=
  s.rawSize ≠ 0 ∧ s.virtualSize ≠ 0 ∧ s.virtualAddress + s.virtualSize ≤ limit ∧
    s.holdsDirectory h

instance : Decidable (s.MatchesDirectory h limit) :=
  inferInstanceAs (Decidable (_ ∧ _ ∧ _ ∧ _))

theorem ends_noteRelocations :
    ends (noteRelocations h limit s) p =
      if s.name = relocationName then
        if p.sawRelocations then (.error .duplicateRelocations, p)
        else if s.MatchesDirectory h limit then
          (.ok (), { p with sawRelocations := true, relocations := some s.relocations })
        else (.ok (), { p with sawRelocations := true })
      else (.ok (), p) := by
  unfold noteRelocations
  by_cases hname : s.name = relocationName
  · rw [if_pos hname, if_pos hname, Placing.ends_bind]
    cases hsaw : p.sawRelocations with
    | true => simp only [Placing.ends_get, hsaw, if_true, Placing.ends_bind, Placing.ends_throw]
    | false =>
      simp only [Placing.ends_get, hsaw, Bool.false_eq_true, if_false, Placing.ends_bind,
        Placing.ends_modify]
      by_cases hmatch : s.MatchesDirectory h limit
      · rw [if_pos hmatch]
        unfold SectionHeader.MatchesDirectory at hmatch
        rw [if_pos hmatch, Placing.ends_modify]
        rfl
      · rw [if_neg hmatch]
        unfold SectionHeader.MatchesDirectory at hmatch
        rw [if_neg hmatch, Placing.ends_note]
  · rw [if_neg hname, if_neg hname, Placing.ends_pure]

/-- The image with the content of one more section. -/
def Placement.put (p : Placement) (h : Headers) (source : ByteArray) (s : SectionHeader) :
    Placement :=
  { p with
    region := Bytes.overwrite p.region s.virtualAddress (s.content source)
    foundEntry := p.foundEntry || s.holdsEntry h }

theorem ends_place :
    ends (place h source limit s) p = match ends (noteRelocations h limit s) p with
      | (.error e, p) => (.error e, p)
      | (.ok (), p) =>
        if s.discardable ∧ s.virtualSize = 0 then (.ok (), p)
        else if s.virtualSize = 0 then (.error (.emptyExtent s.nameText), p)
        else if limit < s.virtualAddress + s.virtualSize then
          (.error (.outside s.nameText s.virtualAddress s.virtualSize), p)
        else if s.overlapsHeaders h then (.error (.insideHeaders s.nameText), p)
        else (.ok (), p.put h source s) := by
  unfold place
  rw [Placing.ends_bind]
  rcases ends (noteRelocations h limit s) p with ⟨e | _, p⟩
  · rfl
  dsimp only
  by_cases hskip : s.discardable ∧ s.virtualSize = 0
  · rw [if_pos hskip, if_pos hskip, Placing.ends_pure]
  rw [if_neg hskip, if_neg hskip]
  by_cases hempty : s.virtualSize = 0
  · rw [if_pos hempty, if_pos hempty, Placing.ends_bind, Placing.ends_throw]
  rw [if_neg hempty, if_neg hempty]
  by_cases houtside : limit < s.virtualAddress + s.virtualSize
  · rw [if_pos houtside, if_pos houtside, Placing.ends_bind, Placing.ends_throw]
  rw [if_neg houtside, if_neg houtside]
  by_cases hheaders : s.overlapsHeaders h
  · rw [if_pos hheaders, if_pos hheaders, Placing.ends_bind, Placing.ends_throw]
  rw [if_neg hheaders, if_neg hheaders, Placing.ends_bind, Placing.ends_modify]
  dsimp only
  rw [Placing.ends_ite_note, Placing.ends_bind, Placing.ends_get]
  dsimp only
  cases hfound : p.foundEntry with
  | true => simp [Placement.put, hfound]
  | false =>
    cases hentry : s.holdsEntry h with
    | true => simp [Placement.put, hfound, hentry, Placing.ends_bind]
    | false => simp [Placement.put, hfound, hentry]

/-- A section that is only looked at leaves the memory of the image alone. -/
theorem region_noteRelocations : (ends (noteRelocations h limit s) p).2.region = p.region := by
  rw [ends_noteRelocations]
  split
  · split
    · rfl
    · split
      · rfl
      · rfl
  · rfl

theorem size_place : (ends (place h source limit s) p).2.region.size = p.region.size := by
  have hregion : (ends (noteRelocations h limit s) p).2.region = p.region :=
    region_noteRelocations
  rw [ends_place]
  generalize ends (noteRelocations h limit s) p = noted at hregion ⊢
  rcases noted with ⟨e | _, q⟩
  · exact congrArg ByteArray.size hregion
  dsimp only at hregion ⊢
  rw [← hregion]
  split
  · rfl
  split
  · rfl
  split
  · rfl
  split
  · rfl
  · exact Bytes.size_overwrite _ _ _

/-! ## all sections -/

variable {rest : List (Option SectionHeader)}

theorem ends_placeAll_some :
    ends (placeAll h source limit (some s :: rest)) p = match ends (place h source limit s) p with
      | (.error e, p) => (.error e, p)
      | (.ok (), p) => ends (placeAll h source limit rest) p := by
  rw [placeAll, Placing.ends_bind]
  rcases ends (place h source limit s) p with ⟨_ | _, _⟩
  · rfl
  · rfl

theorem size_placeAll (sections : List (Option SectionHeader)) :
    (ends (placeAll h source limit sections) p).2.region.size = p.region.size := by
  induction sections generalizing p with
  | nil => rfl
  | cons s rest ih =>
    cases s with
    | none => rfl
    | some s =>
      have hsize : (ends (place h source limit s) p).2.region.size = p.region.size := size_place
      rw [ends_placeAll_some]
      generalize ends (place h source limit s) p = placed at hsize ⊢
      rcases placed with ⟨e | _, q⟩
      · exact hsize
      · exact ih.trans hsize

variable (h source) in
theorem value_placeSections (region : ByteArray) :
    (placeSections h source region).value =
      match ends (placeAll h source (min region.size h.imageSize) (h.sectionHeaders source))
        { region } with
      | (.error e, p) => (.error e, p.region)
      | (.ok (), p) => (.ok p.relocations, p.region) := by
  unfold placeSections
  rw [Logged.value_bind]
  change Logged.value (match ends (placeAll h source (min region.size h.imageSize)
    (h.sectionHeaders source)) { region } with
    | (.error e, p) => _
    | (.ok (), p) => _) = _
  rcases ends (placeAll h source (min region.size h.imageSize) (h.sectionHeaders source))
    { region } with ⟨e | _, p⟩
  · rfl
  · dsimp only
    split
    · rfl
    · rfl

variable (h source) in
/-- Placing sections does not change the size of the image. -/
theorem size_placeSections (region : ByteArray) :
    (placeSections h source region).value.2.size = region.size := by
  have hsize : (ends (placeAll h source (min region.size h.imageSize) (h.sectionHeaders source))
      { region }).2.region.size = region.size := size_placeAll _
  rw [value_placeSections]
  generalize ends (placeAll h source (min region.size h.imageSize) (h.sectionHeaders source))
    { region } = placed at hsize ⊢
  rcases placed with ⟨e | _, p⟩
  · exact hsize
  · exact hsize

end EfiLoader.Pe
