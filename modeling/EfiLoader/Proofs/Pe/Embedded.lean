import EfiLoader.Proofs.Pe.Search

/-!
# EfiLoader.Proofs.Pe.Embedded

What a search by name answers, said of the section table as a whole.  Of the
sections with the name the last one counts, but all of them have to lie in the
image; sections with other names do not count at all.

* `searchFrom_eq` — what is found among given sections;
* `lookup_of_parse` — what is found in an image that has headers;
* `value_find` — what comes along with the loader is found name by name;
* `lookup_by_name` — the searches of an image, with the status of every refusal.
-/

namespace EfiLoader.Pe

variable {image other : ByteArray} {name : List UInt8} {h h' : Headers}

/-! ## sections with a name -/

/-- The range of the image that a section says it has. -/
def SectionHeader.range (s : SectionHeader) : Range :=
  ⟨s.virtualAddress, s.virtualAddress + s.virtualSize⟩

/-- The ranges of the sections with a name, in the order of the table. -/
def Headers.rangesOf (h : Headers) (image : ByteArray) (name : List UInt8) : List Range :=
  ((h.sections image).filter (·.name = name)).map SectionHeader.range

/-- What a search of an image for a name ends with: the bytes that were found, if
there are any, or a status. -/
def lookup (image : ByteArray) (name : List UInt8) : Except Status (Option ByteArray) :=
  (embeddedSection image name).value.mapError Fault.status

/-- What is found where all sections with a name lie in these ranges: the bytes of
the last one, or what was found before if there is none.  All have to be in the
image. -/
def select (image : ByteArray) (ranges : List Range) (found : Option ByteArray) :
    Except Status (Option ByteArray) :=
  if ∃ r ∈ ranges, image.size < r.stop then .error Status.loadError
  else .ok ((ranges.getLast?.map (·.slice image)).or found)

/-! ## searching a table -/

/-- The first range counts if it is in the image, unless there are more. -/
theorem select_cons (r : Range) (ranges : List Range) (found : Option ByteArray) :
    select image (r :: ranges) found =
      if image.size < r.stop then .error Status.loadError
      else select image ranges (some (r.slice image)) := by
  have hlast : (((r :: ranges).getLast?.map (·.slice image)).or found) =
      (ranges.getLast?.map (·.slice image)).or (some (r.slice image)) := by
    rw [List.getLast?_cons]
    cases ranges.getLast? with
    | none => rfl
    | some last => rfl
  unfold select
  rw [hlast]
  by_cases hinside : image.size < r.stop
  · simp [hinside]
  · simp [hinside]

/-- Sizes are stored in 32 bits. -/
theorem virtualSize_lt {s : SectionHeader} (hs : s ∈ h.sections image) :
    s.virtualSize < 0x100000000 := by
  obtain ⟨index, -, rfl⟩ := List.mem_map.mp hs
  exact Bytes.leNat_lt _ _ _

/-- The memory of a section is there if the section lies in the image. -/
theorem bytesAt?_section {s : SectionHeader} (hs : s.virtualSize < 0x100000000) :
    bytesAt? image s.virtualAddress s.virtualSize =
      if s.range.stop ≤ image.size then some (s.range.slice image) else none := by
  rw [bytesAt?, Range.checked?, if_pos hs, Range.inside?,
    apply_ite (Option.map (Range.slice · image))]
  rfl

/-- A search passes over all sections.  It fails if one with the name is not in the
image, and finds the last one otherwise. -/
theorem searchFrom_eq {sections : List SectionHeader}
    (hsizes : ∀ s ∈ sections, s.virtualSize < 0x100000000) (found : Option ByteArray) :
    (searchFrom image name found (sections.map some)).mapError Fault.status =
      select image ((sections.filter (·.name = name)).map SectionHeader.range) found := by
  -- what has been found before is what the rest of the table may replace
  induction sections generalizing found with
  | nil => rfl
  | cons s rest ih =>
      have hrest := fun found => ih (fun t ht => hsizes t (List.mem_cons_of_mem s ht)) found
      rw [List.map_cons, searchFrom]
      by_cases hname : s.name = name
      · rw [if_pos hname, bytesAt?_section (hsizes s List.mem_cons_self),
          List.filter_cons_of_pos (by simpa using hname), List.map_cons, select_cons]
        by_cases hinside : s.range.stop ≤ image.size
        · rw [if_pos hinside, if_neg (Nat.not_lt.mpr hinside)]
          exact hrest _
        · rw [if_neg hinside, if_pos (Nat.not_le.mp hinside)]
          rfl
      · rw [if_neg hname, List.filter_cons_of_neg (by simpa using hname)]
        exact hrest found

/-! ## searching an image -/

theorem lookup_of_parse_error {e : HeaderError} (hp : Headers.parse image .native = .error e) :
    lookup image name = .error (Fault.status e) := by
  have hvalue : (Headers.parseNoted image .native).value = .error e := by
    rw [Headers.value_parseNoted, hp]
  rw [lookup, embeddedSection, Logged.value_bind, hvalue]
  rfl

/-- In an application, the sections with the name are all that is looked at. -/
theorem lookup_of_parse (hp : Headers.parse image .native = .ok h) :
    lookup image name =
      if h.subsystem = efiApplication then select image (h.rangesOf image name) none
      else .error Status.unsupported := by
  rw [lookup, value_embeddedSection hp, Headers.search]
  by_cases happlication : h.subsystem = efiApplication
  · rw [if_neg (not_not_intro happlication), if_pos happlication,
      sectionHeaders_eq (fits_of_parse hp)]
    exact searchFrom_eq (fun s hs => virtualSize_lt hs) none
  · rw [if_pos happlication, if_neg happlication]
    rfl

/-! ## the sections of the loader -/

/-- The first search that fails ends the sequence; log lines do not count. -/
theorem value_bind {α β : Type} (m : ExceptT EmbeddedError Logged α)
    (f : α → ExceptT EmbeddedError Logged β) :
    (m >>= f).run.value.mapError Fault.status =
      m.run.value.mapError Fault.status >>= fun a => (f a).run.value.mapError Fault.status := by
  rw [ExceptT.run_bind, Logged.value_bind]
  cases m.run.value with
  | error e => rfl
  | ok a => rfl

/-- What comes along with the loader is looked up name by name. -/
theorem value_find (image : ByteArray) :
    (Embedded.find image).run.value.mapError Fault.status = do
      let linux ← lookup image (sectionName ".linux")
      let initrd ← lookup image (sectionName ".initrd")
      let cmdline ← lookup image (sectionName ".cmdline")
      return { linux, initrd, cmdline } := by
  unfold Embedded.find
  rw [value_bind]
  refine bind_congr fun linux => ?_
  rw [value_bind]
  refine bind_congr fun initrd => ?_
  rw [value_bind]
  rfl

/-- It is found if all three searches succeed. -/
theorem value_find_eq_ok_iff {e : Embedded} :
    (Embedded.find image).run.value = .ok e ↔
      lookup image (sectionName ".linux") = .ok e.linux ∧
        lookup image (sectionName ".initrd") = .ok e.initrd ∧
        lookup image (sectionName ".cmdline") = .ok e.cmdline := by
  rw [← mapError_eq_ok_iff (f := Fault.status), value_find]
  simp only [bind_eq_ok_iff, pure, Except.pure, Except.ok.injEq]
  constructor
  · rintro ⟨linux, hlinux, initrd, hinitrd, cmdline, hcmdline, rfl⟩
    exact ⟨hlinux, hinitrd, hcmdline⟩
  · rintro ⟨hlinux, hinitrd, hcmdline⟩
    exact ⟨_, hlinux, _, hinitrd, _, hcmdline, rfl⟩

/-! ## the theorem -/

/-- Two images have the same sections with a name: they are equally large, both or
neither are applications, and the sections lie at the same places and have the same
bytes.  What sections with other names there are is left open. -/
structure SameNamed (image other : ByteArray) (name : List UInt8) : Prop where
  size : other.size = image.size
  sections : ∃ h h', Headers.parse image .native = .ok h ∧ Headers.parse other .native = .ok h' ∧
    (h'.subsystem = efiApplication ↔ h.subsystem = efiApplication) ∧
    h'.rangesOf other name = h.rangesOf image name ∧
    ∀ r ∈ h.rangesOf image name, r.slice other = r.slice image

/-- Sections with other names make no difference. -/
theorem SameNamed.lookup_eq (hsame : SameNamed image other name) :
    lookup other name = lookup image name := by
  obtain ⟨h, h', hparse, hparse', happlication, hranges, hslices⟩ := hsame.sections
  have hlast : (h.rangesOf image name).getLast?.map (·.slice other) =
      (h.rangesOf image name).getLast?.map (·.slice image) :=
    Option.map_congr fun r hr => hslices r (List.mem_of_getLast? hr)
  rw [lookup_of_parse hparse, lookup_of_parse hparse', select, select, hranges, hsame.size,
    hlast]
  simp only [happlication]

/-- **Searches by name**: an image without headers of the platform ends them with the
status of its headers, one that is no application is not supported, and a section with
the name that is not in the image is an error of loading, even if there are others;
otherwise the last section with the name is found, if there is one.  What comes along
with the loader is found if all of its names can be searched for, and each search is
about the sections with its own name only. -/
theorem lookup_by_name (image : ByteArray) :
    (∀ name, lookup image name = match Headers.parse image .native with
      | .error e => .error (Fault.status e)
      | .ok h =>
        if h.subsystem ≠ efiApplication then .error Status.unsupported
        else if ∃ s ∈ h.sections image, s.name = name ∧
          image.size < s.virtualAddress + s.virtualSize then .error Status.loadError
        else .ok (((h.sections image).filter (·.name = name)).getLast?.map fun s =>
          image.extract s.virtualAddress (s.virtualAddress + s.virtualSize))) ∧
    (∀ e, (Embedded.find image).run.value = .ok e ↔
      lookup image (sectionName ".linux") = .ok e.linux ∧
        lookup image (sectionName ".initrd") = .ok e.initrd ∧
        lookup image (sectionName ".cmdline") = .ok e.cmdline) ∧
    ∀ other name, SameNamed image other name → lookup other name = lookup image name := by
  refine ⟨fun name => ?_, fun e => value_find_eq_ok_iff, fun other name => SameNamed.lookup_eq⟩
  cases hp : Headers.parse image .native with
  | error e => exact lookup_of_parse_error hp
  | ok h =>
      have houtside : (∃ r ∈ h.rangesOf image name, image.size < r.stop) ↔
          ∃ s ∈ h.sections image, s.name = name ∧
            image.size < s.virtualAddress + s.virtualSize := by
        simp only [Headers.rangesOf, List.mem_map, List.mem_filter, decide_eq_true_eq]
        constructor
        · rintro ⟨_, ⟨s, ⟨hs, hname⟩, rfl⟩, houtside⟩
          exact ⟨s, hs, hname, houtside⟩
        · rintro ⟨s, hs, hname, houtside⟩
          exact ⟨s.range, ⟨s, ⟨hs, hname⟩, rfl⟩, houtside⟩
      have hlast : (h.rangesOf image name).getLast?.map (·.slice image) =
          ((h.sections image).filter (·.name = name)).getLast?.map fun s =>
            image.extract s.virtualAddress (s.virtualAddress + s.virtualSize) := by
        rw [Headers.rangesOf, List.getLast?_map, Option.map_map]
        rfl
      rw [lookup_of_parse hp, select, Option.or_none, hlast]
      simp only [houtside, ite_not]

end EfiLoader.Pe
