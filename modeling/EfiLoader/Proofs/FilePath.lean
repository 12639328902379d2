import EfiLoader.FilePath
import EfiLoader.Proofs.Text.Utf16

/-!
# EfiLoader.Proofs.FilePath

Paths that the file system takes:

* `Spells` — units that spell a path, and nothing else;
* `spells_encode?` — a path with backslashes that is not too long is spelled so.
-/

namespace EfiLoader.FilePath

open Text

variable {path : String}

/-- The units spell the path: they are its UTF-16 units and one NUL, at the end.  There is
no slash among them, and they are read back as the path. -/
structure Spells (path : String) (units : List UInt16) : Prop where
  eq : units = Utf16.encode path ++ [0]
  once : units.count 0 = 1
  slash : UInt16.ofNat '/'.toNat ∉ units
  text : String.ofList (Utf16.decode (Utf16.untilNul units)) = path

theorem spells_of_not_mem (hslash : '/' ∉ path.toList) (hnul : Utf16.nul ∉ path.toList) :
    Spells path (Utf16.encode path ++ [0]) := by
  have hzero : 0 ∉ Utf16.encode path := fun hmem => hnul (Utf16.zero_mem_encodeChars_iff.mp hmem)
  refine ⟨rfl, ?_, ?_, ?_⟩
  · rw [List.count_append, List.count_eq_zero.mpr hzero]
    rfl
  · rw [List.mem_append, not_or]
    exact ⟨fun hmem => hslash ((Utf16.mem_encodeChars_iff (by decide)).mp hmem), by decide⟩
  · rw [Utf16.untilNul_append_of_not_mem hzero, Utf16.untilNul_cons_zero, List.append_nil,
      Utf16.encode, Utf16.decode_encodeChars, String.ofList_toList]

/-- A path with backslashes and no NUL, which is not too long, is taken as it is. -/
theorem spells_encode? (hne : path ≠ "") (hslash : '/' ∉ path.toList)
    (hnul : Utf16.nul ∉ path.toList) (hlength : (Utf16.encode path).length < maxUnits) :
    ∃ units, encode? path = some units ∧ Spells path units := by
  have hsame : (path.toList.map fun c => if c = '/' then '\\' else c) = path.toList := by
    refine (List.map_congr_left fun c hc => ?_).trans (List.map_id _)
    rw [if_neg (ne_of_mem_of_not_mem hc hslash), id]
  have hunits : Utf16.encodeChars path.toList ≠ [] := by
    intro hnone
    have htext := Utf16.decode_encodeChars path.toList
    rw [hnone] at htext
    exact hne (String.toList_eq_nil_iff.mp htext.symm)
  have hzero : 0 ∉ Utf16.encodeChars path.toList := fun hmem =>
    hnul (Utf16.zero_mem_encodeChars_iff.mp hmem)
  refine ⟨_, ?_, spells_of_not_mem hslash hnul⟩
  rw [encode?, hsame, if_neg, Utf16.encode]
  rintro (hnone | hlong | hmem)
  · exact hunits hnone
  · exact Nat.not_le.mpr hlength hlong
  · exact hzero hmem

end EfiLoader.FilePath
