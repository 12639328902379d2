import EfiLoader.Options
import EfiLoader.Proofs.Text.Words
import Mathlib.Data.List.Basic

/-!
# EfiLoader.Proofs.Options

What the options choose.  Settings count wherever they stand, each after those
before it, and words of the command line do not come between them:

* `valueFor?` — the value that a word gives to a key;
* `choices_apply` — what one word does;
* `choices_applyAll` — what all words do, by induction;
* `choices_of_joined` — what a line does.  Two kinds of words are not taken as they
  stand: a setting that begins the line and could be the path of the loader itself
  is lost, and the key of a path without a `=` takes back the path.
-/

namespace EfiLoader.Options

open Text Log

/-! ## settings -/

/-- Whether a word is a setting. -/
def isSetting (word : List Char) : Bool := settingStart.isPrefixOf word

/-- The value that a word gives to a key: what follows the key and a `=`. -/
def valueFor? (key : String) (word : List Char) : Option (List Char) :=
  List.isPrefixOf? (settingStart ++ key.toList ++ ['=']) word

/-- A word as it is read: without a `=` it is a key with the empty value. -/
def completed (word : List Char) : List Char := if '=' ∈ word then word else word ++ ['=']

/-- The value that is read for a key. -/
def readFor? (key : String) (word : List Char) : Option (List Char) :=
  valueFor? key (completed word)

/-- What the options choose besides the command line. -/
structure Choices where
  image : String := ""
  initrd : String := ""
  verbosity : Verbosity := ⟨some .info⟩
  mode : LoaderChoice := .builtin
deriving DecidableEq

/-- The choices after one more word.  A word that gives no value to a key, or
none that is known, leaves the choice as it is. -/
def Choices.choose (c : Choices) (word : List Char) : Choices where
  image := ((valueFor? "image" word).map fun value => String.ofList (path value)).getD c.image
  initrd := ((valueFor? "initrd" word).map fun value => String.ofList (path value)).getD c.initrd
  verbosity := ((valueFor? "log" word).bind Verbosity.ofWord?).getD c.verbosity
  mode := ((valueFor? "loader" word).bind loaderOfWord?).getD c.mode

/-- The choices after one more word that is read. -/
def Choices.read (c : Choices) (word : List Char) : Choices := c.choose (completed word)

/-- What settings among words choose, from left to right. -/
def chosen (ws : List (List Char)) : Choices := (ws.filter isSetting).foldl Choices.choose {}

/-- What they choose as they are read. -/
def chosenAsRead (ws : List (List Char)) : Choices := (ws.filter isSetting).foldl Choices.read {}

/-- Whether a word is the key of a path, with nothing behind it. -/
def isPathKey (word : List Char) : Bool :=
  word == settingStart ++ "image".toList || word == settingStart ++ "initrd".toList

/-- The choices of options. -/
def choices (o : Options) : Choices := ⟨o.image, o.initrd, o.verbosity, o.mode⟩

/-! ## keys and values -/

theorem ne_of_not_mem {key : List Char} (h : '=' ∉ key) : ∀ c ∈ key, (c != '=') = true := by
  intro c hc
  simpa using ne_of_mem_of_not_mem hc h

theorem splitSetting_append {key value : List Char} (hkey : '=' ∉ key) :
    splitSetting (key ++ '=' :: value) = (key, value) := by
  have hall := ne_of_not_mem hkey
  simp [splitSetting, List.takeWhile_append_of_pos hall, List.dropWhile_append_of_pos hall]

theorem splitSetting_of_not_mem {setting : List Char} (h : '=' ∉ setting) :
    splitSetting setting = (setting, []) := by
  have hall := ne_of_not_mem h
  simp only [splitSetting, List.takeWhile_eq_self_iff.mpr hall,
    List.dropWhile_eq_nil_iff.mpr hall, List.drop_nil]

theorem valueFor?_eq_some_iff {key : String} {word value : List Char} :
    valueFor? key word = some value ↔ word = settingStart ++ (key.toList ++ '=' :: value) := by
  rw [valueFor?, List.isPrefixOf?_eq_some_iff_append_eq, eq_comm]
  simp

theorem not_mem_settingStart : '=' ∉ settingStart := by decide

/-- The key of a setting that is read, and its value, are what it is taken apart into. -/
theorem completed_setting {setting k v : List Char} (h : splitSetting setting = (k, v)) :
    completed (settingStart ++ setting) = settingStart ++ (k ++ '=' :: v) ∧ '=' ∉ k := by
  by_cases hmem : '=' ∈ setting
  · obtain ⟨key, value, rfl, hkey⟩ := List.eq_append_cons_of_mem hmem
    rw [splitSetting_append hkey] at h
    cases h
    rw [completed, if_pos (List.mem_append_right _ hmem)]
    exact ⟨rfl, hkey⟩
  · have hnone : '=' ∉ settingStart ++ setting :=
      List.not_mem_append not_mem_settingStart hmem
    rw [splitSetting_of_not_mem hmem] at h
    cases h
    rw [completed, if_neg hnone, List.append_assoc]
    exact ⟨rfl, hmem⟩

theorem readFor?_of_splitSetting {setting k v : List Char} (h : splitSetting setting = (k, v))
    (key : String) (hkey : '=' ∉ key.toList) :
    readFor? key (settingStart ++ setting) = if k = key.toList then some v else none := by
  obtain ⟨hcompleted, hk⟩ := completed_setting h
  ext value
  rw [readFor?, hcompleted, valueFor?_eq_some_iff, List.append_cancel_left_eq]
  constructor
  · intro hsame
    have hparts := congrArg splitSetting hsame
    rw [splitSetting_append hk, splitSetting_append hkey] at hparts
    cases hparts
    rw [if_pos rfl]
  · intro hsome
    split at hsome
    · next hsame =>
      cases hsome
      rw [hsame]
    · cases hsome

/-- A word without a `=` gives no value. -/
theorem valueFor?_of_not_mem {word : List Char} (h : '=' ∉ word) (key : String) :
    valueFor? key word = none := by
  refine Option.eq_none_iff_forall_ne_some.mpr fun value hvalue => h ?_
  rw [valueFor?_eq_some_iff.mp hvalue]
  simp

/-- If it is read then its value is empty. -/
theorem readFor?_of_not_mem {word : List Char} (h : '=' ∉ word) (key : String) :
    readFor? key word = if word = settingStart ++ key.toList then some [] else none := by
  ext value
  rw [readFor?, completed, if_neg h, valueFor?_eq_some_iff, ← List.append_assoc]
  constructor
  · intro hsame
    have hvalue : value = [] := by
      by_contra hne
      have hlast := congrArg List.dropLast hsame
      rw [List.dropLast_concat, List.dropLast_append_cons,
        List.dropLast_cons_of_ne_nil hne] at hlast
      exact h (hlast ▸ by simp)
    subst hvalue
    rw [if_pos (List.append_cancel_right hsame)]
  · intro hsome
    split at hsome
    · next hword =>
      cases hsome
      rw [hword]
    · cases hsome

/-- Words but the keys of paths choose what they choose when they are read. -/
theorem Choices.read_eq_choose {word : List Char} (h : isPathKey word = false) (c : Choices) :
    c.read word = c.choose word := by
  by_cases hmem : '=' ∈ word
  · rw [Choices.read, completed, if_pos hmem]
  · have hnone := valueFor?_of_not_mem hmem
    have hread := readFor?_of_not_mem hmem
    simp only [isPathKey, Bool.or_eq_false_iff, beq_eq_false_iff_ne] at h
    -- the empty value is no level and no loader
    have hlevel : (readFor? "log" word).bind Verbosity.ofWord? = none := by
      rw [hread]
      split
      · decide
      · rfl
    have hloader : (readFor? "loader" word).bind loaderOfWord? = none := by
      rw [hread]
      split
      · decide
      · rfl
    have himage : readFor? "image" word = none := (hread _).trans (if_neg h.1)
    have hinitrd : readFor? "initrd" word = none := (hread _).trans (if_neg h.2)
    unfold readFor? at hlevel hloader himage hinitrd
    simp only [Choices.read, Choices.choose, hlevel, hloader, himage, hinitrd, hnone]
    rfl

/-! ## one word -/

theorem value_notedPath (value : List Char) :
    (notedPath value).value = String.ofList (path value) := by
  unfold notedPath
  split
  · rfl
  · rfl

/-- A setting makes the choice that it stands for. -/
theorem choices_set (o : Options) (token setting : List Char) :
    (o.set token setting).value.choices = o.choices.read (settingStart ++ setting) := by
  rcases h : splitSetting setting with ⟨key, value⟩
  have hvalue := readFor?_of_splitSetting h
  unfold readFor? at hvalue
  unfold set Choices.read Choices.choose
  rw [h, hvalue "image" (by decide), hvalue "initrd" (by decide), hvalue "log" (by decide),
    hvalue "loader" (by decide)]
  dsimp only
  -- one key at a time: the other three choices stay as they are
  by_cases himage : key = "image".toList
  · subst himage
    rw [if_pos rfl, if_pos rfl, if_neg (by decide), if_neg (by decide), if_neg (by decide),
      Logged.value_bind, value_notedPath]
    rfl
  simp only [if_neg himage]
  by_cases hinitrd : key = "initrd".toList
  · subst hinitrd
    rw [if_pos rfl, if_pos rfl, if_neg (by decide), if_neg (by decide), Logged.value_bind,
      value_notedPath]
    rfl
  simp only [if_neg hinitrd]
  by_cases hlog : key = "log".toList
  · subst hlog
    rw [if_pos rfl, if_pos rfl, if_neg (by decide), Option.bind_some]
    cases Verbosity.ofWord? value with
    | some verbosity => rfl
    | none => rfl
  simp only [if_neg hlog]
  by_cases hloader : key = "loader".toList
  · subst hloader
    rw [if_pos rfl, if_pos rfl, Option.bind_some]
    cases loaderOfWord? value with
    | some mode => rfl
    | none => rfl
  simp only [if_neg hloader]
  rfl

/-- A word of the command line makes none. -/
theorem choices_pass (o : Options) (token : List Char) :
    (o.pass token).value.choices = o.choices := by
  unfold pass
  split
  · rfl
  · rfl

theorem choices_apply (o : Options) (token : List Char) :
    (o.apply token).value.choices =
      if isSetting token then o.choices.read token else o.choices := by
  unfold apply isSetting
  split
  · next h =>
    obtain ⟨setting, rfl⟩ := List.isPrefixOf_iff_prefix.mp h
    rw [List.drop_left, choices_set]
  · exact choices_pass o token

/-! ## all words -/

theorem choices_applyAll (o : Options) (ws : List (List Char)) :
    (o.applyAll ws).value.choices = (ws.filter isSetting).foldl Choices.read o.choices := by
  -- the options change from word to word, and so do the choices
  induction ws generalizing o with
  | nil => rfl
  | cons word ws ih =>
    rw [applyAll, Logged.value_bind, ih, choices_apply, List.filter_cons]
    split
    · rfl
    · rfl

/-- Whether the first word is a setting that is taken for the path of the loader
itself. -/
def mistaken (ws : List (List Char)) : Bool :=
  ws.head?.any fun first => isSetting first && namesExecutable first

theorem optionWords_of_mistaken {ws : List (List Char)} (h : mistaken ws = true) :
    optionWords ws = ws.tail := by
  cases ws with
  | nil => rfl
  | cons first rest =>
    obtain ⟨-, hpath⟩ : isSetting first = true ∧ namesExecutable first = true := by
      simpa [mistaken] using h
    rw [optionWords, if_pos hpath, List.tail_cons]

/-- Otherwise no setting is left out. -/
theorem filter_optionWords {ws : List (List Char)} (h : mistaken ws = false) :
    (optionWords ws).filter isSetting = ws.filter isSetting := by
  cases ws with
  | nil => rfl
  | cons first rest =>
    have hfirst : isSetting first = true → namesExecutable first = false := by
      simpa [mistaken] using h
    rw [optionWords]
    split
    · next hpath =>
      have hother : ¬isSetting first = true := by
        intro hsetting
        rw [hfirst hsetting] at hpath
        cases hpath
      rw [List.filter_cons_of_neg hother]
    · rfl

/-- What a line chooses depends on its words only. -/
theorem choices_parse {ws : List (List Char)} {line : List Char} (h : Joined ws line) :
    (parse line).value.choices = chosenAsRead (optionWords ws) := by
  rw [parse, words_of_joined h, choices_applyAll]
  rfl

/-- Without keys of paths the words are taken as they stand. -/
theorem chosenAsRead_eq {ws : List (List Char)} (h : ∀ word ∈ ws, isPathKey word = false) :
    chosenAsRead ws = chosen ws := by
  refine List.foldl_ext _ _ _ fun c word hword => Choices.read_eq_choose (h word ?_) c
  exact (List.mem_filter.mp hword).1

/-! ## the theorem -/

/-- **Settings count wherever they stand**: the image, the initrd, the verbosity
and the loader of a line are what its settings choose from left to right, and
lines with the same settings choose the same, whatever else is in them.  Two kinds
of settings are excepted.  A first word that is a setting and could also be the path
of the loader is lost; and the key of a path with nothing behind it is read as if it
gave the empty path. -/
theorem choices_of_joined {ws : List (List Char)} {line : List Char} (h : Joined ws line) :
    (mistaken ws = false → (∀ word ∈ ws, isPathKey word = false) →
      (parse line).value.choices = chosen ws) ∧
    (mistaken ws = false → (parse line).value.choices = chosenAsRead ws) ∧
    (mistaken ws = true → (parse line).value.choices = chosenAsRead ws.tail) ∧
    ∀ ws' line', Joined ws' line' → ws'.filter isSetting = ws.filter isSetting →
      mistaken ws = false → mistaken ws' = false →
      (parse line').value.choices = (parse line).value.choices := by
  have hall : mistaken ws = false → (parse line).value.choices = chosenAsRead ws := by
    intro hseen
    rw [choices_parse h, chosenAsRead, filter_optionWords hseen, chosenAsRead]
  refine ⟨?_, hall, ?_, ?_⟩
  · intro hseen hkeys
    rw [hall hseen, chosenAsRead_eq hkeys]
  · intro hlost
    rw [choices_parse h, optionWords_of_mistaken hlost]
  · intro ws' line' h' hsame hseen hseen'
    rw [hall hseen, choices_parse h', chosenAsRead, chosenAsRead, filter_optionWords hseen', hsame]

/-- An image and a verbosity, the image first. -/
def imageFirst : List (List Char) := ["zloader.image=a.efi".toList, "zloader.log=debug".toList]

theorem joined_imageFirst : Joined imageFirst "zloader.image=a.efi zloader.log=debug".toList := by
  rw [← words_eq_iff]
  decide +kernel

/-- A word of the command line before them. -/
theorem choices_of_joined_quiet :
    ∃ line, Joined ("quiet".toList :: imageFirst) line ∧
      (parse line).value.choices = { image := "a.efi", verbosity := ⟨some .debug⟩ } := by
  have hjoined : Joined ("quiet".toList :: imageFirst)
      "quiet zloader.image=a.efi\tzloader.log=debug\n".toList := by
    rw [← words_eq_iff]
    decide +kernel
  refine ⟨_, hjoined, ?_⟩
  rw [(choices_of_joined hjoined).1 (by decide) (by decide)]
  decide

/-- An image, and the key of it with nothing behind it. -/
def imageThenKey : List (List Char) :=
  ["quiet".toList, "zloader.image=a.efi".toList, "zloader.image".toList]

theorem joined_imageThenKey :
    Joined imageThenKey "quiet zloader.image=a.efi zloader.image".toList := by
  rw [← words_eq_iff]
  decide +kernel

/-- Without that word the image is lost, although the words choose one.  It is also
lost to its key. -/
theorem parse_loses_settings :
    (∃ line, Joined imageFirst line ∧ (parse line).value.image = "" ∧
      (chosen imageFirst).image = "a.efi") ∧
    ∃ line, Joined imageThenKey line ∧ (parse line).value.image = "" ∧
      (chosen imageThenKey).image = "a.efi" := by
  have hfirst := congrArg Choices.image (choices_parse joined_imageFirst)
  have hkey := congrArg Choices.image (choices_parse joined_imageThenKey)
  have hlost : (chosenAsRead (optionWords imageFirst)).image = "" := by decide
  have hlost' : (chosenAsRead (optionWords imageThenKey)).image = "" := by decide
  exact ⟨⟨_, joined_imageFirst, hfirst.trans hlost, by decide⟩,
    _, joined_imageThenKey, hkey.trans hlost', by decide⟩

end EfiLoader.Options
