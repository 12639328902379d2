import EfiLoader.Proofs.Options
import Mathlib.Data.List.Chain

/-!
# EfiLoader.Proofs.Options.CommandLine

What the command line of the kernel is made of.  Words that are no settings are
offered to it from left to right, and each is taken whole or not at all:

* `spaced` — words with single spaces between them;
* `fill` — the words that are taken;
* `cmdline_applyAll` — options take the words that `fill` does;
* `cmdline_of_joined` — the command line of a line of options.
-/

namespace EfiLoader.Options

open Text Log

/-! ## words with spaces between them -/

/-- Words with single spaces between them. -/
def spaced (ws : List (List Char)) : List Char := [' '].intercalate ws

/-- The bytes of words with single spaces between them. -/
def spacedBytes (ws : List (List Char)) : Nat := (String.ofList (spaced ws)).utf8ByteSize

/-- A text that has a space neither at an end nor beside another space. -/
structure SingleSpaced (text : List Char) : Prop where
  front : text.head? ≠ some ' '
  back : text.getLast? ≠ some ' '
  between : text.IsChain fun c d => ¬(c = ' ' ∧ d = ' ')

variable {taken ws : List (List Char)} {word : List Char}

@[simp] theorem spaced_nil : spaced [] = [] := rfl

@[simp] theorem spaced_singleton (word : List Char) : spaced [word] = word :=
  List.intercalate_singleton

theorem spaced_cons_cons (first second : List Char) (rest : List (List Char)) :
    spaced (first :: second :: rest) = first ++ ' ' :: spaced (second :: rest) := by
  rw [spaced, List.intercalate_cons_cons, List.append_assoc]
  rfl

theorem spaced_ne_nil (hword : word ≠ []) (ws : List (List Char)) : spaced (word :: ws) ≠ [] := by
  cases ws with
  | nil => rwa [spaced_singleton]
  | cons second rest => simp [spaced_cons_cons]

/-- One more word goes behind a space, unless it is the first. -/
theorem spaced_append_singleton (htaken : ∀ w ∈ taken, w ≠ []) (word : List Char) :
    spaced (taken ++ [word]) =
      if (spaced taken).isEmpty then word else spaced taken ++ ' ' :: word := by
  induction taken with
  | nil => simp
  | cons first rest ih =>
    have hfirst : first ≠ [] := htaken first List.mem_cons_self
    cases rest with
    | nil =>
      rw [List.cons_append, List.nil_append, spaced_cons_cons, spaced_singleton, spaced_singleton,
        if_neg (by simpa using hfirst)]
    | cons second rest =>
      have hsecond : second ≠ [] := htaken second (by simp)
      have hrest : (spaced (second :: rest)).isEmpty = false :=
        List.isEmpty_eq_false_iff.mpr (spaced_ne_nil hsecond rest)
      have htail := ih fun w hw => htaken w (List.mem_cons_of_mem _ hw)
      rw [hrest, if_neg Bool.false_ne_true] at htail
      rw [List.cons_append, List.cons_append, spaced_cons_cons, ← List.cons_append, htail,
        spaced_cons_cons, if_neg (by simp), List.append_assoc, List.cons_append]

theorem byteLength_eq (cs : List Char) : byteLength cs = (String.ofList cs).utf8ByteSize := by
  induction cs with
  | nil => rfl
  | cons c cs ih =>
    rw [byteLength, List.foldr_cons, ← byteLength, ih]
    simp

theorem byteLength_append (a b : List Char) :
    byteLength (a ++ b) = byteLength a + byteLength b := by
  simp [byteLength_eq]

/-- More words take more bytes. -/
theorem spacedBytes_le_append (htaken : ∀ w ∈ taken, w ≠ []) (hws : ∀ w ∈ ws, w ≠ []) :
    spacedBytes taken ≤ spacedBytes (taken ++ ws) := by
  induction ws generalizing taken with
  | nil => rw [List.append_nil]
  | cons word ws ih =>
    have hone : spacedBytes taken ≤ spacedBytes (taken ++ [word]) := by
      rw [spacedBytes, spacedBytes, ← byteLength_eq, ← byteLength_eq,
        spaced_append_singleton htaken]
      split
      · next hempty =>
        rw [List.isEmpty_iff.mp hempty]
        exact Nat.zero_le _
      · rw [byteLength_append]
        exact Nat.le_add_right _ _
    obtain ⟨hword, hrest⟩ := List.forall_mem_cons.mp hws
    have hmore := @ih (taken ++ [word])
      (List.forall_mem_append.mpr ⟨htaken, List.forall_mem_singleton.mpr hword⟩) hrest
    rw [List.append_assoc, List.singleton_append] at hmore
    exact Nat.le_trans hone hmore

/-! ## words are those of the text -/

theorem isBlank_space : isBlank ' ' = true := by decide

/-- White space in front of a text belongs to no word. -/
theorem joined_cons {c : Char} {text : List Char} (hc : isBlank c = true) (h : Joined ws text) :
    Joined ws (c :: text) := by
  have hcons {gap : List Char} (hgap : ∀ d ∈ gap, isBlank d = true) :
      ∀ d ∈ c :: gap, isBlank d = true := by
    intro d hd
    rcases List.mem_cons.mp hd with rfl | hd
    · exact hc
    · exact hgap d hd
  cases h with
  | nil hgap => exact .nil (hcons hgap)
  | cons hgap hword hapart hrest =>
    rw [← List.cons_append, ← List.cons_append]
    exact .cons (hcons hgap) hword hapart hrest

/-- Words with spaces between them are the words of that text. -/
theorem joined_spaced (hws : ∀ w ∈ ws, IsWord w) : Joined ws (spaced ws) := by
  have hgap : ∀ c ∈ ([] : List Char), isBlank c = true := nofun
  induction ws with
  | nil => exact .nil hgap
  | cons first rest ih =>
    have hfirst := hws first List.mem_cons_self
    have hrest := ih fun w hw => hws w (List.mem_cons_of_mem _ hw)
    cases rest with
    | nil =>
      have hend : ∀ c ∈ ([] : List Char).head?, isBlank c = true := nofun
      simpa using Joined.cons hgap hfirst hend (.nil hgap)
    | cons second rest =>
      rw [spaced_cons_cons]
      have hapart : ∀ c ∈ (' ' :: spaced (second :: rest)).head?, isBlank c = true := by
        intro c hc
        cases hc
        exact isBlank_space
      exact Joined.cons hgap hfirst hapart (joined_cons isBlank_space hrest)

theorem ne_space_of_isWord (hword : IsWord word) {c : Char} (hc : c ∈ word) : c ≠ ' ' := by
  rintro rfl
  have hshown := hword.not_blank _ hc
  rw [isBlank_space] at hshown
  cases hshown

theorem singleSpaced_of_isWord (hword : IsWord word) : SingleSpaced word := by
  have hshown : ∀ c ∈ word, c ≠ ' ' := fun c hc => ne_space_of_isWord hword hc
  refine ⟨fun hfirst => ?_, fun hlast => ?_, ?_⟩
  · exact hshown ' ' (List.mem_of_head? hfirst) rfl
  · exact hshown ' ' (List.mem_of_getLast? hlast) rfl
  · rw [List.isChain_iff_getElem]
    intro i hi hboth
    exact hshown _ (List.getElem_mem _) hboth.1

/-- A word with a space behind it can be put in front of a text. -/
theorem SingleSpaced.cons_word {text : List Char} (h : SingleSpaced text) (hne : text ≠ [])
    (hword : IsWord word) : SingleSpaced (word ++ ' ' :: text) := by
  obtain ⟨hfirst, hlast, hchain⟩ := singleSpaced_of_isWord hword
  refine ⟨?_, ?_, ?_⟩
  · rwa [List.head?_append_of_ne_nil _ hword.ne_nil]
  · obtain ⟨c, cs, rfl⟩ := List.exists_cons_of_ne_nil hne
    have hback := h.back
    simpa [List.getLast?_cons] using hback
  · rw [List.isChain_append, List.isChain_cons]
    refine ⟨hchain, ⟨?_, h.between⟩, ?_⟩
    · rintro c hc ⟨-, rfl⟩
      exact h.front hc
    · rintro c hc _ - ⟨rfl, -⟩
      exact hlast hc

/-- Words with spaces between them have no other spaces. -/
theorem singleSpaced_spaced (hws : ∀ w ∈ ws, IsWord w) : SingleSpaced (spaced ws) := by
  induction ws with
  | nil => exact ⟨nofun, nofun, .nil⟩
  | cons first rest ih =>
    have hfirst := hws first List.mem_cons_self
    have hrest := ih fun w hw => hws w (List.mem_cons_of_mem _ hw)
    cases rest with
    | nil =>
      rw [spaced_singleton]
      exact singleSpaced_of_isWord hfirst
    | cons second rest =>
      have hsecond := hws second (List.mem_cons_of_mem _ List.mem_cons_self)
      rw [spaced_cons_cons]
      exact hrest.cons_word (spaced_ne_nil hsecond.ne_nil rest) hfirst

/-! ## which words are taken -/

/-- The words in a command line that has `taken` in it, after more words have
been offered from left to right.  Each is taken whole if the line has at most 1024
bytes with it, and left out otherwise. -/
def fill (taken : List (List Char)) : List (List Char) → List (List Char)
  | [] => taken
  | word :: rest =>
    if spacedBytes (taken ++ [word]) ≤ 1024 then fill (taken ++ [word]) rest
    else fill taken rest

/-- Words are taken in their order. -/
theorem exists_fill (taken ws : List (List Char)) :
    ∃ more, fill taken ws = taken ++ more ∧ more.Sublist ws := by
  induction ws generalizing taken with
  | nil => exact ⟨[], (List.append_nil _).symm, .slnil⟩
  | cons word ws ih =>
    rw [fill]
    split
    · obtain ⟨more, hmore, hsub⟩ := ih (taken ++ [word])
      refine ⟨word :: more, ?_, hsub.cons_cons word⟩
      rw [hmore, List.append_assoc, List.singleton_append]
    · obtain ⟨more, hmore, hsub⟩ := ih taken
      exact ⟨more, hmore, hsub.cons word⟩

/-- They never take too many bytes. -/
theorem spacedBytes_fill_le (htaken : spacedBytes taken ≤ 1024) (ws : List (List Char)) :
    spacedBytes (fill taken ws) ≤ 1024 := by
  induction ws generalizing taken with
  | nil => exact htaken
  | cons word ws ih =>
    rw [fill]
    split
    · next hfits => exact ih hfits
    · exact ih htaken

/-- All words are taken if there is room for all. -/
theorem fill_of_le (htaken : ∀ w ∈ taken, w ≠ []) (hws : ∀ w ∈ ws, w ≠ [])
    (hfits : spacedBytes (taken ++ ws) ≤ 1024) : fill taken ws = taken ++ ws := by
  induction ws generalizing taken with
  | nil => exact (List.append_nil _).symm
  | cons word ws ih =>
    obtain ⟨hword, hrest⟩ := List.forall_mem_cons.mp hws
    have hmore : ∀ w ∈ taken ++ [word], w ≠ [] :=
      List.forall_mem_append.mpr ⟨htaken, List.forall_mem_singleton.mpr hword⟩
    have hassoc : taken ++ word :: ws = taken ++ [word] ++ ws := by
      rw [List.append_assoc, List.singleton_append]
    rw [hassoc] at hfits ⊢
    rw [fill, if_pos (Nat.le_trans (spacedBytes_le_append hmore hrest) hfits),
      ih hmore hrest hfits]

/-! ## options take them -/

theorem cmdline_set (o : Options) (token setting : List Char) :
    (o.set token setting).value.cmdline = o.cmdline := by
  unfold set
  dsimp only
  split
  · rfl
  split
  · rfl
  split
  · split
    · rfl
    · rfl
  split
  · split
    · rfl
    · rfl
  · rfl

theorem appendWord?_spaced (htaken : ∀ w ∈ taken, w ≠ []) (word : List Char) :
    appendWord? (spaced taken) word =
      if spacedBytes (taken ++ [word]) ≤ 1024 then some (spaced (taken ++ [word])) else none := by
  rw [appendWord?, ← spaced_append_singleton htaken, byteLength_eq]
  rfl

/-- A word that is no setting is taken if there is room for it. -/
theorem cmdline_pass {o : Options} (htaken : ∀ w ∈ taken, w ≠ [])
    (ho : o.cmdline = String.ofList (spaced taken)) (word : List Char) :
    (o.pass word).value.cmdline = String.ofList
      (spaced (if spacedBytes (taken ++ [word]) ≤ 1024 then taken ++ [word] else taken)) := by
  rw [pass, ho, String.toList_ofList, appendWord?_spaced htaken]
  by_cases hfits : spacedBytes (taken ++ [word]) ≤ 1024
  · rw [if_pos hfits, if_pos hfits]
    rfl
  · rw [if_neg hfits, if_neg hfits]
    exact ho

theorem cmdline_apply (o : Options) (word : List Char) :
    (o.apply word).value.cmdline =
      if isSetting word then o.cmdline else (o.pass word).value.cmdline := by
  unfold apply isSetting
  split
  · exact cmdline_set o _ _
  · rfl

/-- Options take the words that are no settings as far as there is room. -/
theorem cmdline_applyAll {o : Options} (htaken : ∀ w ∈ taken, w ≠ [])
    (hws : ∀ w ∈ ws, w ≠ []) (ho : o.cmdline = String.ofList (spaced taken)) :
    (o.applyAll ws).value.cmdline =
      String.ofList (spaced (fill taken (ws.filter (!isSetting ·)))) := by
  -- the options change from word to word, and so do the words that they have taken
  induction ws generalizing o taken with
  | nil => exact ho
  | cons word ws ih =>
    obtain ⟨hword, hrest⟩ := List.forall_mem_cons.mp hws
    have happly := cmdline_apply o word
    rw [applyAll, Logged.value_bind]
    by_cases hsetting : isSetting word = true
    · rw [if_pos hsetting, ho] at happly
      rw [ih htaken hrest happly, List.filter_cons_of_neg (by simp [hsetting])]
    · rw [if_neg hsetting, cmdline_pass htaken ho] at happly
      rw [List.filter_cons_of_pos (by simpa using hsetting), fill]
      by_cases hfits : spacedBytes (taken ++ [word]) ≤ 1024
      · rw [if_pos hfits] at happly ⊢
        exact ih (List.forall_mem_append.mpr ⟨htaken, List.forall_mem_singleton.mpr hword⟩) hrest
          happly
      · rw [if_neg hfits] at happly ⊢
        exact ih htaken hrest happly

/-! ## which words are offered -/

/-- What follows the last dot of a word is `efi`, in any letter case. -/
def EndsInEfi (word : List Char) : Prop :=
  ∃ stem extension, word = stem ++ '.' :: extension ∧ '.' ∉ extension ∧
    extension.map Char.toLower = ['e', 'f', 'i']

theorem namesExecutable_iff : namesExecutable word = true ↔ EndsInEfi word := by
  have hefi : "efi".toList = ['e', 'f', 'i'] := by decide
  by_cases hdot : '.' ∈ word
  · -- the last dot is the first one from behind
    obtain ⟨behind, front, hword, hbehind⟩ :=
      List.eq_append_cons_of_mem (List.mem_reverse.mpr hdot)
    have hsplit : word = front.reverse ++ '.' :: behind.reverse := by
      rw [← List.reverse_reverse word, hword]
      simp
    have hlast : (word.reverse.takeWhile (· != '.')).reverse = behind.reverse := by
      rw [hword, List.takeWhile_append_of_pos fun c hc => by
        simpa using ne_of_mem_of_not_mem hc hbehind]
      simp
    rw [namesExecutable, hlast, hefi]
    rw [List.contains_iff_mem.mpr hdot, Bool.true_and, beq_iff_eq]
    constructor
    · intro hext
      exact ⟨_, _, hsplit, by simpa using hbehind, hext⟩
    · rintro ⟨stem, extension, hword', hext, hefi'⟩
      have hsame : behind = extension.reverse := by
        have hrev : extension.reverse ++ '.' :: stem.reverse = behind ++ '.' :: front := by
          rw [← hword, hword']
          simp
        have htake := congrArg (List.takeWhile (· != '.')) hrev
        rw [List.takeWhile_append_of_pos fun c hc => by
            simpa using ne_of_mem_of_not_mem (List.mem_reverse.mp hc) hext,
          List.takeWhile_append_of_pos fun c hc => by
            simpa using ne_of_mem_of_not_mem hc hbehind] at htake
        simpa using htake.symm
      rw [hsame, List.reverse_reverse]
      exact hefi'
  · constructor
    · intro hnames
      simp only [namesExecutable, Bool.and_eq_true, List.contains_iff_mem] at hnames
      exact absurd hnames.1 hdot
    · rintro ⟨stem, extension, rfl, -, -⟩
      simp at hdot

instance (word : List Char) : Decidable (EndsInEfi word) :=
  decidable_of_iff _ namesExecutable_iff

/-- The words of a line that are offered to the command line: all but settings,
and a first one that ends in `.efi`. -/
def offered (ws : List (List Char)) : List (List Char) :=
  (if ∃ first ∈ ws.head?, EndsInEfi first then ws.tail else ws).filter
    fun word => ¬settingStart <+: word

theorem filter_optionWords_eq_offered (ws : List (List Char)) :
    (optionWords ws).filter (!isSetting ·) = offered ws := by
  have hkind : (fun word => !isSetting word) =
      fun word => decide (¬settingStart <+: word) := by
    funext word
    rw [isSetting, Bool.eq_iff_iff, Bool.not_eq_true', decide_eq_true_iff,
      ← List.isPrefixOf_iff_prefix, Bool.not_eq_true]
  rw [offered, hkind]
  cases ws with
  | nil => rfl
  | cons first rest =>
    rw [optionWords]
    by_cases hpath : namesExecutable first = true
    · rw [if_pos hpath, if_pos ⟨first, rfl, namesExecutable_iff.mp hpath⟩]
      rfl
    · rw [if_neg hpath, if_neg]
      rintro ⟨_, hfirst, hends⟩
      cases hfirst
      exact hpath (namesExecutable_iff.mpr hends)

/-! ## the theorem -/

theorem isWord_of_joined {text : List Char} (h : Joined ws text) : ∀ w ∈ ws, IsWord w := by
  induction h with
  | nil => nofun
  | cons _ hword _ _ ih =>
    intro w hw
    rcases List.mem_cons.mp hw with rfl | hw
    · exact hword
    · exact ih w hw

theorem mem_of_mem_offered {w : List Char} (hw : w ∈ offered ws) : w ∈ ws := by
  have hmem := List.mem_of_mem_filter hw
  split at hmem
  · exact List.mem_of_mem_tail hmem
  · exact hmem

/-- **The command line**: it is made of the words that are offered to it and
taken, with single spaces between them.  It never has more than 1024 bytes, the
words in it are whole and in their order, there are no other spaces, and all
words are in it if there is room for all. -/
theorem cmdline_of_joined {ws : List (List Char)} {line : List Char} (h : Joined ws line) :
    (parse line).value.cmdline = String.ofList (spaced (fill [] (offered ws))) ∧
    (parse line).value.cmdline.utf8ByteSize ≤ 1024 ∧
    (fill [] (offered ws)).Sublist (offered ws) ∧
    words (parse line).value.cmdline.toList = fill [] (offered ws) ∧
    SingleSpaced (parse line).value.cmdline.toList ∧
    (spacedBytes (offered ws) ≤ 1024 →
      (parse line).value.cmdline = String.ofList (spaced (offered ws))) := by
  have hwords : ∀ w ∈ offered ws, IsWord w := fun w hw =>
    isWord_of_joined h w (mem_of_mem_offered hw)
  obtain ⟨more, hmore, hsub⟩ := exists_fill [] (offered ws)
  rw [List.nil_append] at hmore
  rw [← hmore] at hsub
  have htaken : ∀ w ∈ fill [] (offered ws), IsWord w := fun w hw => hwords w (hsub.subset hw)
  have hnone : ∀ w ∈ ([] : List (List Char)), w ≠ [] := nofun
  have hstart : spacedBytes [] ≤ 1024 := by decide
  have hcmdline : (parse line).value.cmdline = String.ofList (spaced (fill [] (offered ws))) := by
    have hne : ∀ w ∈ optionWords (words line), w ≠ [] := by
      intro w hw
      rw [words_of_joined h] at hw
      refine (isWord_of_joined h w ?_).ne_nil
      cases ws with
      | nil => exact hw
      | cons first rest =>
        rw [optionWords] at hw
        split at hw
        · exact List.mem_cons_of_mem _ hw
        · exact hw
    rw [parse, cmdline_applyAll hnone hne rfl, words_of_joined h,
      filter_optionWords_eq_offered]
  rw [hcmdline, String.toList_ofList]
  refine ⟨rfl, spacedBytes_fill_le hstart _, hsub, words_of_joined (joined_spaced htaken),
    singleSpaced_spaced htaken, ?_⟩
  intro hfits
  rw [fill_of_le hnone (fun w hw => (hwords w hw).ne_nil) hfits, List.nil_append]

/-- The path of the loader, a word that nearly fills the command line, one that
does not fit behind it, a setting, and one that does. -/
def crowded : List (List Char) :=
  ["\\EFI\\BOOTX64.EFI".toList, List.replicate 1020 'a', "abcd".toList, "zloader.log=debug".toList,
    "ro".toList]

theorem joined_crowded : Joined crowded (spaced crowded) := by
  rw [← words_eq_iff]
  decide +kernel

/-- The word that does not fit is left out whole, and the one after it is not. -/
theorem cmdline_of_joined_crowded :
    ∃ line, Joined crowded line ∧
      (parse line).value.cmdline = String.ofList (List.replicate 1020 'a' ++ " ro".toList) := by
  have htaken : spaced (fill [] (offered crowded)) = List.replicate 1020 'a' ++ " ro".toList := by
    decide +kernel
  refine ⟨_, joined_crowded, ?_⟩
  rw [(cmdline_of_joined joined_crowded).1, htaken]

end EfiLoader.Options
