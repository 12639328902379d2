import EfiLoader.Pe.Builder
import EfiLoader.Proofs.Loader.Pages
import Mathlib.Algebra.GroupWithZero.Nat

/-!
# EfiLoader.Proofs.Pe.Builder.Layout

Where the content of sections stands in the file of an image that is made.
Content without a place of its own follows the headers and the content before
it, each piece filled up to its raw size:

* `contentStart` — where the content of a section starts, as a sum of raw sizes;
* `layoutFrom_getElem?` — the extent that a section gets;
* `Sequential` — images in which every start fits its 32-bit field;
* `contentStart_add_le` — content ends before that of later sections starts.
-/

namespace EfiLoader.Pe

/-- Bytes that the content of the section gets in the file. -/
def NewSection.rawBytes (s : NewSection) (alignment : Nat) : UInt32 :=
  s.rawSize.getD (UInt32.ofNat (Builder.roundUp s.data.size alignment))

namespace Builder

/-! ## starts -/

/-- Bytes that the content of sections gets in the file. -/
def contentSum (alignment : Nat) (sections : List NewSection) : Nat :=
  (sections.map fun s => (s.rawBytes alignment).toNat).sum

/-- Where the content of section `index` starts: behind the headers and the
content of the sections before it. -/
def contentStart (b : Builder) (index : Nat) : Nat :=
  roundUp b.headersEnd b.effectiveAlignment +
    contentSum b.effectiveAlignment (b.sections.take index)

variable {b : Builder} {s : NewSection} {i j : Nat}

theorem contentSum_cons (alignment : Nat) (s : NewSection) (rest : List NewSection) :
    contentSum alignment (s :: rest) =
      (s.rawBytes alignment).toNat + contentSum alignment rest := by
  rw [contentSum, contentSum, List.map_cons, List.sum_cons]

theorem contentSum_append (alignment : Nat) (front back : List NewSection) :
    contentSum alignment (front ++ back) =
      contentSum alignment front + contentSum alignment back := by
  rw [contentSum, contentSum, contentSum, List.map_append, List.sum_append]

theorem contentSum_le {alignment n : Nat} {sections : List NewSection}
    (h : ∀ s ∈ sections, (s.rawBytes alignment).toNat ≤ n) :
    contentSum alignment sections ≤ sections.length * n := by
  induction sections with
  | nil => exact Nat.zero_le _
  | cons s rest ih =>
    have hfirst := h s List.mem_cons_self
    have hrest := ih fun s hs => h s (List.mem_cons_of_mem _ hs)
    rw [contentSum_cons, List.length_cons, Nat.succ_mul]
    omega

theorem effectiveAlignment_pos (b : Builder) : 0 < b.effectiveAlignment := by
  unfold effectiveAlignment
  split
  · decide
  · next h =>
    have hne : b.fileAlignment.toNat ≠ 0 := fun h0 => h (UInt32.toNat_inj.mp h0)
    omega

/-- Content never starts in the headers. -/
theorem headersEnd_le_contentStart (b : Builder) (i : Nat) : b.headersEnd ≤ b.contentStart i := by
  obtain ⟨-, hle, -⟩ := PageBuffer.bounds_of_roundUp b.effectiveAlignment_pos b.headersEnd
  exact Nat.le_trans hle (Nat.le_add_right _ _)

theorem contentStart_succ (hs : b.sections[i]? = some s) :
    b.contentStart (i + 1) = b.contentStart i + (s.rawBytes b.effectiveAlignment).toNat := by
  rw [contentStart, contentStart, List.take_add_one, hs, contentSum_append, Option.toList_some,
    contentSum_cons, contentSum, contentSum, List.map_nil, List.sum_nil, Nat.add_zero,
    Nat.add_assoc]

theorem contentStart_mono (b : Builder) (hij : i ≤ j) : b.contentStart i ≤ b.contentStart j := by
  have hsplit := List.take_append_drop i (b.sections.take j)
  rw [List.take_take, Nat.min_eq_left hij] at hsplit
  rw [contentStart, contentStart, ← hsplit, contentSum_append]
  omega

/-- **Content is apart**: it ends before that of a later section starts. -/
theorem contentStart_add_le (hs : b.sections[i]? = some s) (hij : i < j) :
    b.contentStart i + (s.rawBytes b.effectiveAlignment).toNat ≤ b.contentStart j := by
  rw [← contentStart_succ hs]
  exact b.contentStart_mono hij

/-! ## extents -/

theorem length_layoutFrom (alignment next : Nat) (sections : List NewSection) :
    (layoutFrom alignment next sections).length = sections.length := by
  induction sections generalizing next with
  | nil => rfl
  | cons s rest ih =>
    rw [layoutFrom]
    split
    · rw [List.length_cons, List.length_cons, ih]
    · split
      · rw [List.length_cons, List.length_cons, ih]
      · rw [List.length_cons, List.length_cons, ih]

@[simp] theorem length_layout (b : Builder) : b.layout.length = b.sections.length :=
  length_layoutFrom _ _ _

/-- What a section gets if its content starts at `start`. -/
def extentAt (s : NewSection) (alignment start : Nat) : Extent :=
  ⟨if s.rawBytes alignment = 0 then 0 else UInt32.ofNat start, s.rawBytes alignment⟩

/-- What section `index` gets if all content is in sequence. -/
def extent (b : Builder) (index : Nat) (s : NewSection) : Extent :=
  extentAt s b.effectiveAlignment (b.contentStart index)

/-- Sections without a place of their own get the one after those before them. -/
theorem layoutFrom_getElem? {alignment next : Nat} {sections : List NewSection}
    (hfree : ∀ s ∈ sections, s.rawPointer = none) (hs : sections[i]? = some s) :
    (layoutFrom alignment next sections)[i]? =
      some (extentAt s alignment (next + contentSum alignment (sections.take i))) := by
  induction sections generalizing next i with
  | nil => cases hs
  | cons first rest ih =>
    have hrest : ∀ s ∈ rest, s.rawPointer = none := fun s hs => hfree s (List.mem_cons_of_mem _ hs)
    have hfirst := hfree first List.mem_cons_self
    have hlayout : layoutFrom alignment next (first :: rest) =
        extentAt first alignment next ::
          layoutFrom alignment (next + (first.rawBytes alignment).toNat) rest := by
      rw [layoutFrom, hfirst]
      change (if first.rawBytes alignment = 0 then _ else _) = _
      by_cases hzero : first.rawBytes alignment = 0
      · have hnext : next + (first.rawBytes alignment).toNat = next := by
          rw [hzero]
          rfl
        rw [if_pos hzero, hnext, extentAt, if_pos hzero]
        rfl
      · rw [if_neg hzero, extentAt, if_neg hzero]
        rfl
    rw [hlayout]
    cases i with
    | zero =>
      cases hs
      rfl
    | succ i =>
      rw [List.getElem?_cons_succ] at hs ⊢
      rw [ih hrest hs, List.take_succ_cons, contentSum_cons, Nat.add_assoc]

/-! ## images with content in sequence -/

/-- The content of sections is laid out in the order of the sections, and all
starts fit their 32-bit fields. -/
structure Sequential (b : Builder) : Prop where
  free : ∀ s ∈ b.sections, s.rawPointer = none
  start_lt : ∀ i s, b.sections[i]? = some s → s.rawBytes b.effectiveAlignment ≠ 0 →
    b.contentStart i < 2 ^ 32

theorem size_extent (b : Builder) (i : Nat) (s : NewSection) :
    (b.extent i s).size = s.rawBytes b.effectiveAlignment :=
  rfl

theorem pointer_extent_of_zero (hzero : s.rawBytes b.effectiveAlignment = 0) :
    (b.extent i s).pointer = 0 := by
  rw [extent, extentAt, if_pos hzero]

namespace Sequential

/-- All starts fit if there is room for content behind the last one. -/
theorem of_lt (hfree : ∀ s ∈ b.sections, s.rawPointer = none)
    (hend : b.contentStart b.sections.length < 2 ^ 32) : b.Sequential where
  free := hfree
  start_lt := fun i _ hs _ =>
    have hi : i < b.sections.length := (List.getElem?_eq_some_iff.mp hs).1
    Nat.lt_of_le_of_lt (b.contentStart_mono (Nat.le_of_lt hi)) hend

theorem layout_getElem? (hb : b.Sequential) (hs : b.sections[i]? = some s) :
    b.layout[i]? = some (b.extent i s) :=
  layoutFrom_getElem? hb.free hs

/-- Content stands where it starts. -/
theorem pointer_extent (hb : b.Sequential) (hs : b.sections[i]? = some s)
    (hne : s.rawBytes b.effectiveAlignment ≠ 0) :
    (b.extent i s).pointer.toNat = b.contentStart i := by
  rw [extent, extentAt, if_neg hne]
  exact UInt32.toNat_ofNat_of_lt' (hb.start_lt i s hs hne)

end Sequential

end Builder

end EfiLoader.Pe
