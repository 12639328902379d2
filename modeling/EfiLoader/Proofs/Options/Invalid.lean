import EfiLoader.Proofs.Options.CommandLine

/-!
# EfiLoader.Proofs.Options.Invalid

Settings that cannot be honoured.  A line with one more of them, wherever it is
behind the first word, gives the options that the line gives without it, if the
setting is no path.  A path that is too long takes back what has been chosen
before it, and counts as no path at all:

* `Invalid` — what is wrong with a setting;
* `foldl_read` — each choice is the last one that is made;
* `parse_of_invalid` — what an invalid setting does to a line.
-/

namespace EfiLoader.Options

open Text Log

/-! ## settings -/

/-- The word that gives `value` to `key`. -/
def settingWord (key : String) (value : List Char) : List Char :=
  settingStart ++ (key.toList ++ '=' :: value)

/-- A setting cannot be honoured: its key is unknown, its value is no log level or
no loader, or its path has more than 128 bytes. -/
inductive Invalid : String → List Char → Prop where
  | key {key : String} {value : List Char} (h : key ∉ ["image", "initrd", "log", "loader"]) :
      Invalid key value
  | log {value : List Char}
      (h : value.map Char.toUpper ∉
        ["OFF", "ERROR", "WARN", "INFO", "DEBUG", "TRACE"].map String.toList) :
      Invalid "log" value
  | loader {value : List Char} (h : value ∉ ["builtin", "firmware"].map String.toList) :
      Invalid "loader" value
  | path {key : String} {value : List Char} (hkey : key ∈ ["image", "initrd"])
      (h : 128 < (String.ofList value).utf8ByteSize) : Invalid key value

/-- The path that words give to `key`: that of the last one which gives it any. -/
def lastPath? (key : String) (ws : List (List Char)) : Option String :=
  (ws.filterMap (readFor? key)).getLast?.map fun value => String.ofList (path value)

/-! ## the last choice counts -/

variable {ws : List (List Char)} {key : String} {value : List Char}

/-- What is replaced again and again is the last replacement in the end. -/
theorem foldl_getD {f : β → Option α} (x : α) (l : List β) :
    l.foldl (fun x w => (f w).getD x) x = (l.filterMap f).getLast?.getD x := by
  induction l generalizing x with
  | nil => rfl
  | cons w l ih =>
    rw [List.foldl_cons, ih, List.filterMap_cons]
    cases f w with
    | none => rfl
    | some y => simp [List.getLast?_cons]

/-- Each choice is the last one that a word makes. -/
theorem foldl_read (c : Choices) (ws : List (List Char)) :
    ws.foldl Choices.read c = {
      image := (lastPath? "image" ws).getD c.image
      initrd := (lastPath? "initrd" ws).getD c.initrd
      verbosity := (ws.filterMap fun word =>
        (readFor? "log" word).bind Verbosity.ofWord?).getLast?.getD c.verbosity
      mode := (ws.filterMap fun word =>
        (readFor? "loader" word).bind loaderOfWord?).getLast?.getD c.mode } := by
  have hpath (key : String) : lastPath? key ws =
      (ws.filterMap fun word => (readFor? key word).map fun value =>
        String.ofList (path value)).getLast? := by
    rw [lastPath?, ← List.getLast?_map, List.map_filterMap]
  rw [hpath, hpath, ← foldl_getD, ← foldl_getD, ← foldl_getD, ← foldl_getD]
  clear hpath
  induction ws generalizing c with
  | nil => rfl
  | cons word ws ih => exact ih (c.read word)

/-- A word for which a value is read is a setting. -/
theorem isSetting_of_readFor? {word : List Char} (h : readFor? key word = some value) :
    isSetting word = true := by
  rw [isSetting, List.isPrefixOf_iff_prefix]
  by_cases hmem : '=' ∈ word
  · rw [readFor?, completed, if_pos hmem] at h
    exact ⟨_, (valueFor?_eq_some_iff.mp h).symm⟩
  · rw [readFor?_of_not_mem hmem] at h
    split at h
    · next hword => exact ⟨_, hword.symm⟩
    · cases h

/-- Words that are no settings make no choice. -/
theorem foldl_filter_read (c : Choices) (ws : List (List Char)) :
    (ws.filter isSetting).foldl Choices.read c = ws.foldl Choices.read c := by
  rw [List.foldl_filter]
  congr
  funext c word
  split
  · rfl
  · next hword =>
    have hnone (key : String) : readFor? key word = none :=
      Option.eq_none_iff_forall_ne_some.mpr fun _ hvalue => hword (isSetting_of_readFor? hvalue)
    unfold readFor? at hnone
    unfold Choices.read Choices.choose
    rw [hnone, hnone, hnone, hnone]
    rfl

/-! ## one invalid setting -/

theorem isSetting_settingWord (key : String) (value : List Char) :
    isSetting (settingWord key value) = true := by
  rw [isSetting, List.isPrefixOf_iff_prefix]
  exact ⟨_, rfl⟩

theorem readFor?_settingWord (hkey : '=' ∉ key.toList) (value : List Char) {key' : String}
    (hkey' : '=' ∉ key'.toList) :
    readFor? key' (settingWord key value) = if key = key' then some value else none := by
  rw [settingWord, readFor?_of_splitSetting (splitSetting_append hkey) key' hkey']
  simp only [String.toList_inj]

theorem ofWord?_eq_none {word : List Char}
    (h : word.map Char.toUpper ∉
      ["OFF", "ERROR", "WARN", "INFO", "DEBUG", "TRACE"].map String.toList) :
    Verbosity.ofWord? word = none := by
  have hnames : ["OFF", "ERROR", "WARN", "INFO", "DEBUG", "TRACE"] =
      Verbosity.all.map Verbosity.name := by decide
  rw [hnames, List.map_map] at h
  rw [Verbosity.ofWord?, List.find?_eq_none]
  intro v hv hsame
  exact h (List.mem_map.mpr ⟨v, hv, by simpa using hsame⟩)

theorem loaderOfWord?_eq_none {word : List Char}
    (h : word ∉ ["builtin", "firmware"].map String.toList) : loaderOfWord? word = none := by
  simp only [List.map_cons, List.map_nil, List.mem_cons, List.not_mem_nil, or_false, not_or] at h
  rw [loaderOfWord?, if_neg h.1, if_neg h.2]

/-- An invalid setting chooses nothing, but a path that is too long is given up
with the one that was chosen before it. -/
theorem read_of_invalid (hkey : '=' ∉ key.toList) (h : Invalid key value) (c : Choices) :
    c.read (settingWord key value) =
      if key = "image" then { c with image := "" }
      else if key = "initrd" then { c with initrd := "" } else c := by
  have hvalue {key' : String} (hkey' : '=' ∉ key'.toList) :=
    readFor?_settingWord hkey value hkey'
  unfold readFor? at hvalue
  unfold Choices.read Choices.choose
  rw [hvalue (by decide), hvalue (by decide), hvalue (by decide), hvalue (by decide)]
  cases h with
  | key hother =>
    simp only [List.mem_cons, List.not_mem_nil, or_false, not_or] at hother
    simp [hother]
  | log hlevel => simp [ofWord?_eq_none hlevel]
  | loader hloader => simp [loaderOfWord?_eq_none hloader]
  | path hpath hlong =>
    have hlimit : ¬(String.ofList value).utf8ByteSize ≤ maxPath := Nat.not_le.mpr hlong
    have hempty : path value = [] := by
      rw [path, byteLength_eq, if_neg hlimit]
    simp only [List.mem_cons, List.not_mem_nil, or_false] at hpath
    rcases hpath with rfl | rfl
    · simp [hempty]
    · simp [hempty]

/-! ## in a line -/

variable {front back : List (List Char)} {line line' : List Char}

theorem optionWords_append (hfront : front ≠ []) (ws : List (List Char)) :
    optionWords (front ++ ws) = optionWords front ++ ws := by
  obtain ⟨first, rest, rfl⟩ := List.exists_cons_of_ne_nil hfront
  rw [List.cons_append, optionWords, optionWords]
  split
  · rfl
  · rfl

/-- What a line chooses, when its first words have made their choices. -/
theorem choices_parse_append (hfront : front ≠ []) (hline : Joined (front ++ back) line) :
    (parse line).value.choices =
      back.foldl Choices.read ((optionWords front).foldl Choices.read {}) := by
  rw [choices_parse hline, chosenAsRead, foldl_filter_read, optionWords_append hfront,
    List.foldl_append]

/-- Settings behind the first word do not matter for the command line. -/
theorem cmdline_parse_insert {word : List Char} (hfront : front ≠ [])
    (hword : isSetting word = true) (hline : Joined (front ++ back) line)
    (hmore : Joined (front ++ word :: back) line') :
    (parse line').value.cmdline = (parse line).value.cmdline := by
  rw [(cmdline_of_joined hline).1, (cmdline_of_joined hmore).1, ← filter_optionWords_eq_offered,
    ← filter_optionWords_eq_offered, optionWords_append hfront, optionWords_append hfront,
    List.filter_append, List.filter_append, List.filter_cons_of_neg (by simp [hword])]

/-- Options are their choices and their command line. -/
theorem eq_of_choices {o o' : Options} (hchoices : o.choices = o'.choices)
    (hcmdline : o.cmdline = o'.cmdline) : o = o' := by
  cases o
  cases o'
  cases hchoices
  cases hcmdline
  rfl

/-! ## the theorem -/

/-- **Invalid settings**: one that stands behind the first word of a line changes
nothing if it is no path, or if a later word gives one to its key.  Otherwise the
path that has been given before it is lost, and nothing else changes. -/
theorem parse_of_invalid (hfront : front ≠ []) (hkey : '=' ∉ key.toList)
    (hinvalid : Invalid key value) (hline : Joined (front ++ back) line)
    (hmore : Joined (front ++ settingWord key value :: back) line') :
    (key ∉ ["image", "initrd"] ∨ (lastPath? key back).isSome →
      (parse line').value = (parse line).value) ∧
    (key = "image" → lastPath? "image" back = none →
      (parse line').value = { (parse line).value with image := "" }) ∧
    (key = "initrd" → lastPath? "initrd" back = none →
      (parse line').value = { (parse line).value with initrd := "" }) := by
  have hcmdline := cmdline_parse_insert hfront (isSetting_settingWord key value) hline hmore
  have hchoices := choices_parse_append hfront hline
  have hchoices' := choices_parse_append hfront hmore
  rw [List.foldl_cons, read_of_invalid hkey hinvalid, foldl_read] at hchoices'
  rw [foldl_read] at hchoices
  refine ⟨?_, ?_, ?_⟩
  · intro hharmless
    refine eq_of_choices (hchoices'.trans (Eq.trans ?_ hchoices.symm)) hcmdline
    by_cases himage : key = "image"
    · subst himage
      obtain ⟨p, hp⟩ := Option.isSome_iff_exists.mp (hharmless.resolve_left (by decide))
      rw [if_pos rfl, hp]
      rfl
    by_cases hinitrd : key = "initrd"
    · subst hinitrd
      obtain ⟨p, hp⟩ := Option.isSome_iff_exists.mp (hharmless.resolve_left (by decide))
      rw [if_neg himage, if_pos rfl, hp]
      rfl
    rw [if_neg himage, if_neg hinitrd]
  · rintro rfl hnone
    rw [if_pos rfl, hnone] at hchoices'
    refine eq_of_choices (hchoices'.trans ?_) hcmdline
    change _ = { (parse line).value.choices with image := "" }
    rw [hchoices]
    rfl
  · rintro rfl hnone
    rw [if_neg (by decide), if_pos rfl, hnone] at hchoices'
    refine eq_of_choices (hchoices'.trans ?_) hcmdline
    change _ = { (parse line).value.choices with initrd := "" }
    rw [hchoices]
    rfl

/-- A path with one byte too many. -/
def longPath : List Char := List.replicate 129 'x'

/-- Words that choose an image. -/
def choosesImage : List (List Char) := ["quiet".toList, "zloader.image=a.efi".toList]

theorem joined_choosesImage : Joined choosesImage "quiet zloader.image=a.efi".toList := by
  rw [← words_eq_iff]
  decide +kernel

theorem joined_choosesImage_longPath :
    Joined (choosesImage ++ [settingWord "image" longPath])
      ("quiet zloader.image=a.efi zloader.image=".toList ++ longPath) := by
  rw [← words_eq_iff]
  decide +kernel

/-- An image that is too long is lost with the one before it. -/
theorem parse_of_invalid_longPath :
    ∃ line line', Joined choosesImage line ∧
      Joined (choosesImage ++ [settingWord "image" longPath]) line' ∧
      (parse line').value = { (parse line).value with image := "" } := by
  have hinvalid : Invalid "image" longPath := .path (by decide) (by decide +kernel)
  have hline : Joined (choosesImage ++ []) "quiet zloader.image=a.efi".toList := by
    rw [List.append_nil]
    exact joined_choosesImage
  exact ⟨_, _, joined_choosesImage, joined_choosesImage_longPath,
    (parse_of_invalid (by decide) (by decide) hinvalid hline joined_choosesImage_longPath).2.1 rfl
      rfl⟩

/-- So an invalid setting can take back a valid one. -/
theorem parse_loses_valid_image :
    ∃ line line', Joined choosesImage line ∧ Invalid "image" longPath ∧
      Joined (choosesImage ++ [settingWord "image" longPath]) line' ∧
      (parse line).value.image = "a.efi" ∧ (parse line').value.image = "" := by
  have himage := congrArg Choices.image (choices_parse joined_choosesImage)
  have himage' := congrArg Choices.image (choices_parse joined_choosesImage_longPath)
  have hvalid : (chosenAsRead (optionWords choosesImage)).image = "a.efi" := by decide
  have hlost : (chosenAsRead (optionWords (choosesImage ++ [settingWord "image" longPath]))).image =
      "" := by decide +kernel
  exact ⟨_, _, joined_choosesImage, .path (by decide) (by decide +kernel),
    joined_choosesImage_longPath, himage.trans hvalid, himage'.trans hlost⟩

end EfiLoader.Options
