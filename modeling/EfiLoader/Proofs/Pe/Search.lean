import EfiLoader.Pe.Embedded
import EfiLoader.Proofs.Pe.Extent
import EfiLoader.Proofs.Pe.Overlay

/-!
# EfiLoader.Proofs.Pe.Search

Sections that are found by their name.  A search goes on to the end of the table,
so what it finds is the memory of the last section with the name:

* `searchFrom_append_of_absent` — sections with other names are passed over;
* `search_of_alone` — a section that nobody shares its name with is found;
* `sections_of_headers` — the sections of a file are those of its memory, which has
  the same headers.
-/

namespace EfiLoader.Pe

variable {image source : ByteArray} {name : List UInt8} {h : Headers} {s : SectionHeader}

/-! ## passing sections over -/

theorem searchFrom_append_of_absent {front : List SectionHeader} (found : Option ByteArray)
    (back : List (Option SectionHeader)) (habsent : ∀ s ∈ front, s.name ≠ name) :
    searchFrom image name found (front.map some ++ back) = searchFrom image name found back := by
  induction front with
  | nil => rfl
  | cons s rest ih =>
    rw [List.map_cons, List.cons_append, searchFrom, if_neg (habsent s List.mem_cons_self)]
    exact ih fun t ht => habsent t (List.mem_cons_of_mem s ht)

theorem searchFrom_of_absent {sections : List SectionHeader} (found : Option ByteArray)
    (habsent : ∀ s ∈ sections, s.name ≠ name) :
    searchFrom image name found (sections.map some) = .ok found := by
  rw [← List.append_nil (sections.map some), searchFrom_append_of_absent found [] habsent]
  rfl

/-! ## finding one -/

/-- **A section with a name of its own** is what a search for the name finds. -/
theorem search_of_alone (happlication : h.subsystem = efiApplication) (hf : h.Fits image) {i : Nat}
    (hs : (h.sections image)[i]? = some s)
    (halone : ∀ j t, (h.sections image)[j]? = some t → j ≠ i → t.name ≠ s.name)
    {bytes : ByteArray} (hbytes : bytesAt? image s.virtualAddress s.virtualSize = some bytes) :
    h.search image s.name = .ok (some bytes) := by
  have hfront : ∀ t ∈ (h.sections image).take i, t.name ≠ s.name := fun t ht => by
    obtain ⟨j, hj⟩ := List.mem_iff_getElem?.mp ht
    have hlt : j < i := by
      have hlength := (List.getElem?_eq_some_iff.mp hj).1
      rw [List.length_take] at hlength
      omega
    rw [List.getElem?_take_of_lt hlt] at hj
    exact halone j t hj (Nat.ne_of_lt hlt)
  have hback : ∀ t ∈ (h.sections image).drop (i + 1), t.name ≠ s.name := fun t ht => by
    obtain ⟨j, hj⟩ := List.mem_iff_getElem?.mp ht
    rw [List.getElem?_drop] at hj
    exact halone _ t hj (by omega)
  have hsplit : h.sections image =
      (h.sections image).take i ++ s :: (h.sections image).drop (i + 1) := by
    obtain ⟨hi, rfl⟩ := List.getElem?_eq_some_iff.mp hs
    rw [List.getElem_cons_drop, List.take_append_drop]
  rw [Headers.search, if_neg (not_not_intro happlication), sectionHeaders_eq hf, hsplit,
    List.map_append, searchFrom_append_of_absent _ _ hfront, List.map_cons, searchFrom, if_pos rfl,
    hbytes]
  exact searchFrom_of_absent _ hback

theorem value_embeddedSection (hp : Headers.parse image .native = .ok h) :
    (embeddedSection image name).value = h.search image name := by
  have hvalue : (Headers.parseNoted image .native).value = .ok h := by
    rw [Headers.value_parseNoted, hp]
  rw [embeddedSection, Logged.value_bind, hvalue]
  rfl

/-! ## files and their memory -/

/-- Memory that begins with the headers of a file has its headers and sections. -/
theorem sections_of_headers {platform : Platform} (hp : Headers.parse source platform = .ok h)
    (hsize : h.headersSize ≤ image.size)
    (hsame : image.extract 0 h.headersSize = source.extract 0 h.headersSize) :
    Headers.parse image platform = .ok h ∧ h.sections image = h.sections source := by
  have hfits := fits_of_parse hp
  have hfront := (parse_front_eq_ok_iff hfits.file).mpr ⟨hp, Nat.le_refl _⟩
  rw [← hsame] at hfront
  refine ⟨((parse_front_eq_ok_iff hsize).mp hfront).1, ?_⟩
  apply List.map_congr_left
  intro i hi
  have htable := hfits.table
  have hentry : (i + 1) * sectionHeaderSize ≤ h.sectionCount * sectionHeaderSize :=
    Nat.mul_le_mul_right _ (List.mem_range.mp hi)
  rw [Nat.succ_mul] at hentry
  have hend : h.sectionTable + i * sectionHeaderSize + sectionHeaderSize ≤ h.headersSize := by
    omega
  rw [← sectionHeader_front hend, hsame, sectionHeader_front hend]

end EfiLoader.Pe
