import EfiLoader.Proofs.FilePath
import EfiLoader.Proofs.Options.CommandLine

/-!
# EfiLoader.Proofs.Options.Units

Options as UTF-16 units.  A text and its units are the same options, and the paths
in them are paths that the file system takes, though the two limits are kept in
different places and count different things:

* `length_encodeChars_le` — a text has no more units than UTF-8 bytes;
* `Choices.Fit.read`, `Choices.Fit.foldl` — words choose paths that fit, one word at
  a time;
* `fit_parse` — so does a line of them;
* `ofUnits_of_text` — the options that are read from units.
-/

namespace EfiLoader.Options

open Text Log

/-! ## units and bytes -/

/-- A character has no more units than UTF-8 bytes. -/
theorem length_encodeChar_le (c : Char) : (Utf16.encodeChar c).length ≤ c.utf8Size := by
  unfold Utf16.encodeChar
  by_cases hone : c.toNat < 0x10000
  · rw [if_pos hone]
    exact c.utf8Size_pos
  · have hlarge : 0x10000 ≤ c.val.toNat := Nat.not_lt.mp hone
    have hsize : c.utf8Size = 4 := by
      simp only [Char.utf8Size, UInt32.le_iff_toNat_le, UInt32.toNat_ofNatLT]
      rw [if_neg (by omega), if_neg (by omega), if_neg (by omega)]
    rw [if_neg hone, hsize]
    exact Nat.le_add_left 2 2

theorem length_encodeChars_le (cs : List Char) :
    (Utf16.encodeChars cs).length ≤ byteLength cs := by
  induction cs with
  | nil => exact Nat.le_refl 0
  | cons c cs ih =>
    have hc := length_encodeChar_le c
    rw [Utf16.encodeChars_cons, List.length_append, byteLength, List.foldr_cons, ← byteLength]
    omega

/-! ## paths -/

/-- A path that fits: it has backslashes, no NUL, and no more bytes than a path may. -/
structure PathValue (path : String) : Prop where
  bytes : byteLength path.toList ≤ maxPath
  slash : '/' ∉ path.toList
  nul : Utf16.nul ∉ path.toList

theorem byteLength_backslashed (cs : List Char) : byteLength (backslashed cs) = byteLength cs := by
  induction cs with
  | nil => rfl
  | cons c cs ih =>
    have hsize : (if c = '/' then '\\' else c).utf8Size = c.utf8Size := by
      by_cases hc : c = '/'
      · rw [if_pos hc, hc]
        rfl
      · rw [if_neg hc]
    rw [backslashed, List.map_cons, ← backslashed, byteLength, byteLength, List.foldr_cons,
      List.foldr_cons, ← byteLength, ← byteLength, ih, hsize]

theorem pathValue_empty : PathValue "" := ⟨by decide, by decide, by decide⟩

theorem pathValue_default : PathValue defaultImage := ⟨by decide, by decide, by decide⟩

/-- A value without NUL is a path that fits, or stands for none. -/
theorem pathValue_of_value {value : List Char} (h : Utf16.nul ∉ value) :
    PathValue (String.ofList (path value)) := by
  unfold path
  by_cases hfits : byteLength value ≤ maxPath
  · rw [if_pos hfits]
    refine ⟨?_, ?_, ?_⟩
    · rwa [String.toList_ofList, byteLength_backslashed]
    · rw [String.toList_ofList, backslashed, List.mem_map]
      rintro ⟨c, -, hc⟩
      by_cases hslash : c = '/'
      · rw [if_pos hslash] at hc
        exact absurd hc (by decide)
      · rw [if_neg hslash] at hc
        exact hslash hc
    · rw [String.toList_ofList, backslashed, List.mem_map]
      rintro ⟨c, hmem, hc⟩
      by_cases hslash : c = '/'
      · rw [if_pos hslash] at hc
        exact absurd hc (by decide)
      · rw [if_neg hslash] at hc
        exact h (hc ▸ hmem)
  · rw [if_neg hfits]
    exact pathValue_empty

/-- A path that fits is one that the file system takes. -/
theorem PathValue.spells {path : String} (h : PathValue path) (hne : path ≠ "") :
    ∃ units, FilePath.encode? path = some units ∧ FilePath.Spells path units := by
  refine FilePath.spells_encode? hne h.slash h.nul ?_
  have hlength := length_encodeChars_le path.toList
  have hbytes := h.bytes
  rw [maxPath] at hbytes
  rw [Utf16.encode, FilePath.maxUnits]
  omega

/-! ## words -/

/-- The paths that are chosen fit. -/
structure Choices.Fit (c : Choices) : Prop where
  image : PathValue c.image
  initrd : PathValue c.initrd

/-- A value that is read is part of its word. -/
theorem nul_not_mem_value {key : String} {word value : List Char}
    (h : readFor? key word = some value) (hword : Utf16.nul ∉ word) : Utf16.nul ∉ value := by
  have hcompleted : Utf16.nul ∉ completed word := by
    unfold completed
    split
    · exact hword
    · exact List.not_mem_append hword (by decide)
  intro hmem
  rw [valueFor?_eq_some_iff.mp h] at hcompleted
  simp [hmem] at hcompleted

theorem pathValue_getD {key : String} {word : List Char} {old : String}
    (hword : Utf16.nul ∉ word) (hold : PathValue old) :
    PathValue (((readFor? key word).map fun value => String.ofList (path value)).getD old) := by
  cases hvalue : readFor? key word with
  | none => exact hold
  | some value => exact pathValue_of_value (nul_not_mem_value hvalue hword)

/-- So they do after one more word. -/
theorem Choices.Fit.read {c : Choices} (h : c.Fit) {word : List Char}
    (hword : Utf16.nul ∉ word) : (c.read word).Fit :=
  ⟨pathValue_getD hword h.image, pathValue_getD hword h.initrd⟩

theorem Choices.Fit.foldl {c : Choices} (h : c.Fit) {ws : List (List Char)}
    (hws : ∀ w ∈ ws, Utf16.nul ∉ w) : (ws.foldl Choices.read c).Fit := by
  induction ws generalizing c with
  | nil => exact h
  | cons word ws ih =>
    rw [List.forall_mem_cons] at hws
    exact ih (h.read hws.1) hws.2

/-- The characters of a word are in the text. -/
theorem mem_text_of_joined {ws : List (List Char)} {text : List Char} (h : Joined ws text) :
    ∀ w ∈ ws, ∀ c ∈ w, c ∈ text := by
  induction h with
  | nil hgap =>
    intro w hw
    exact (List.not_mem_nil hw).elim
  | cons hgap hword hapart hrest ih =>
    intro w hw c hc
    rcases List.mem_cons.mp hw with rfl | hw
    · exact List.mem_append_left _ (List.mem_append_right _ hc)
    · exact List.mem_append_right _ (ih w hw c hc)

theorem mem_of_mem_optionWords {ws : List (List Char)} {w : List Char} (h : w ∈ optionWords ws) :
    w ∈ ws := by
  cases ws with
  | nil => exact h
  | cons first rest =>
    rw [optionWords] at h
    split at h
    · exact List.mem_cons_of_mem _ h
    · exact h

/-- The paths of a line without NUL fit. -/
theorem fit_parse {line : List Char} (h : Utf16.nul ∉ line) : (parse line).value.choices.Fit := by
  have hjoined := joined_words line
  rw [choices_parse hjoined, chosenAsRead]
  refine Choices.Fit.foldl ⟨pathValue_empty, pathValue_empty⟩ fun w hw hmem => ?_
  have hw' := mem_of_mem_optionWords (List.mem_filter.mp hw).1
  exact h (mem_text_of_joined hjoined w hw' _ hmem)

/-! ## the theorem -/

/-- **Options as units.**  The units of a text, with a NUL behind them, are the options
that the text is up to its first NUL.  What follows the first NUL of any units makes no
difference.  And the payload and the initrd that any units choose have paths that the
file system takes: it is given their units and one NUL, at the end, without a slash,
which are read back as the path. -/
theorem ofUnits_of_text :
    (∀ text : String, ofUnits (terminatedUnits text) =
      parse (text.toList.takeWhile (· != Utf16.nul))) ∧
    (∀ units rest, ofUnits (units ++ 0 :: rest) = ofUnits units) ∧
    ∀ units path, path = (ofUnits units).value.imagePath ∨
        (ofUnits units).value.initrdPath? = some path →
      ∃ name, FilePath.encode? path = some name ∧ FilePath.Spells path name := by
  refine ⟨?_, ?_, ?_⟩
  · intro text
    rw [ofUnits, terminatedUnits, Utf16.untilNul_append_zero, Utf16.encode,
      Utf16.untilNul_encodeChars, Utf16.decode_encodeChars]
  · intro units rest
    rw [ofUnits, Utf16.untilNul_append_zero, ofUnits]
  · intro units path hpath
    have hfit : (ofUnits units).value.choices.Fit :=
      fit_parse (Utf16.nul_not_mem_decode (Utf16.zero_not_mem_untilNul units))
    rcases hpath with rfl | hinitrd
    · unfold imagePath
      by_cases hempty : (ofUnits units).value.image.isEmpty = true
      · rw [if_pos hempty]
        exact pathValue_default.spells (by decide)
      · rw [if_neg hempty]
        exact PathValue.spells hfit.image (by simpa using hempty)
    · unfold initrdPath? at hinitrd
      split at hinitrd
      · cases hinitrd
      · next hempty =>
        cases hinitrd
        exact PathValue.spells hfit.initrd (by simpa using hempty)

end EfiLoader.Options
