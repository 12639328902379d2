import EfiLoader.Text.Words
import Mathlib.Data.List.TakeWhile

/-!
# EfiLoader.Proofs.Text.Words

Texts and their words.  `Joined ws text` says that a text is made of the words
`ws`, with white space between them and perhaps at the ends.  Every text is made
of its words and of no others (`words_eq_iff`).

`Trimmed p cs text` says that `text` is what is left of `cs` when what satisfies `p` is
taken off both ends, and `trimmed_trimBoth` that this is so of what `trimBoth` leaves.
-/

namespace EfiLoader.Text

/-- Some characters, none of them white space. -/
structure IsWord (w : List Char) : Prop where
  ne_nil : w ≠ []
  not_blank : ∀ c ∈ w, isBlank c = false

/-- Words one after the other, each before a gap or the end of the text. -/
inductive Joined : List (List Char) → List Char → Prop where
  | nil {gap : List Char} (hgap : ∀ c ∈ gap, isBlank c = true) : Joined [] gap
  | cons {gap word text : List Char} {ws : List (List Char)}
      (hgap : ∀ c ∈ gap, isBlank c = true) (hword : IsWord word)
      (hapart : ∀ c ∈ text.head?, isBlank c = true) (hrest : Joined ws text) :
      Joined (word :: ws) (gap ++ word ++ text)

/-! ## one word at a time -/

variable {c : Char} {text rest : List Char} {ws : List (List Char)}

theorem words_of_dropWhile_eq_nil (h : text.dropWhile isBlank = []) : words text = [] := by
  rw [words]
  split
  · rfl
  · next h' =>
    rw [h] at h'
    cases h'

theorem words_of_dropWhile_eq_cons (h : text.dropWhile isBlank = c :: rest) :
    words text = (c :: rest).takeWhile (!isBlank ·) :: words (rest.dropWhile (!isBlank ·)) := by
  rw [words]
  split
  · next h' =>
    rw [h] at h'
    cases h'
  · next h' =>
    rw [h] at h'
    cases h'
    rfl

/-- A word ends where a gap begins. -/
theorem takeWhile_of_apart (h : ∀ c ∈ text.head?, isBlank c = true) :
    text.takeWhile (!isBlank ·) = [] ∧ text.dropWhile (!isBlank ·) = text := by
  cases text with
  | nil => exact ⟨rfl, rfl⟩
  | cons c rest =>
    have hc : isBlank c = true := h c rfl
    simp [hc]

/-! ## all of them -/

theorem words_of_joined (h : Joined ws text) : words text = ws := by
  induction h with
  | nil hgap => exact words_of_dropWhile_eq_nil (List.dropWhile_eq_nil_iff.mpr hgap)
  | @cons gap word text ws hgap hword hapart hrest ih =>
    obtain ⟨hne, hword⟩ := hword
    obtain ⟨htake, hdrop⟩ := takeWhile_of_apart hapart
    obtain ⟨c, rest, rfl⟩ := List.exists_cons_of_ne_nil hne
    have hshown : ∀ d ∈ c :: rest, (!isBlank d) = true := by
      intro d hd
      rw [hword d hd]
      rfl
    -- the gap ends at the word, as the word ends where `text` begins
    have hfirst : (gap ++ (c :: rest) ++ text).dropWhile isBlank = c :: (rest ++ text) := by
      rw [List.append_assoc, List.dropWhile_append_of_pos hgap, List.cons_append,
        List.dropWhile_cons_of_neg (by simp [hword c List.mem_cons_self])]
    rw [words_of_dropWhile_eq_cons hfirst, ← List.cons_append,
      List.takeWhile_append_of_pos hshown, htake, List.append_nil,
      List.dropWhile_append_of_pos fun d hd => hshown d (List.mem_cons_of_mem _ hd), hdrop, ih]

theorem joined_words (text : List Char) : Joined (words text) text := by
  induction text using words.induct with
  | case1 text h =>
    rw [words_of_dropWhile_eq_nil h]
    exact .nil (List.dropWhile_eq_nil_iff.mp h)
  | case2 text c rest h ih =>
    have hc : isBlank c = false := by
      have hhead := List.head?_dropWhile_not isBlank text
      rw [h] at hhead
      simpa using hhead
    have hword : IsWord ((c :: rest).takeWhile (!isBlank ·)) := by
      constructor
      · simp [hc]
      · intro d hd
        simpa using List.mem_takeWhile_imp hd
    have hapart : ∀ d ∈ (rest.dropWhile (!isBlank ·)).head?, isBlank d = true := by
      intro d hd
      have hhead := List.head?_dropWhile_not (!isBlank ·) rest
      rw [Option.mem_def.mp hd] at hhead
      simpa using hhead
    have hparts : text.takeWhile isBlank ++ (c :: rest).takeWhile (!isBlank ·) ++
        rest.dropWhile (!isBlank ·) = text := by
      have hdrop : rest.dropWhile (!isBlank ·) = (c :: rest).dropWhile (!isBlank ·) := by
        simp [hc]
      rw [hdrop, List.append_assoc, List.takeWhile_append_dropWhile, ← h,
        List.takeWhile_append_dropWhile]
    have hgap : ∀ d ∈ text.takeWhile isBlank, isBlank d = true := fun d =>
      List.mem_takeWhile_imp
    have hjoined := Joined.cons hgap hword hapart ih
    rw [hparts] at hjoined
    rw [words_of_dropWhile_eq_cons h]
    exact hjoined

/-- **Words**: a text is made of its words, and of no others. -/
theorem words_eq_iff : words text = ws ↔ Joined ws text := by
  constructor
  · rintro rfl
    exact joined_words text
  · exact words_of_joined

/-! ## both ends -/

/-- `text` is in `cs`, with characters around it that satisfy `p`, and does not begin or
end with one. -/
structure Trimmed (p : Char → Bool) (cs text : List Char) : Prop where
  around : ∃ front back, cs = front ++ text ++ back ∧ (∀ c ∈ front, p c = true) ∧
    ∀ c ∈ back, p c = true
  head : ∀ c ∈ text.head?, p c = false
  last : ∀ c ∈ text.getLast?, p c = false

section Trimmed

variable {p : Char → Bool} {cs : List Char}

theorem head?_dropWhile_eq_false (p : Char → Bool) (cs : List Char) :
    ∀ c ∈ (cs.dropWhile p).head?, p c = false := by
  intro c hc
  have hhead := List.head?_dropWhile_not p cs
  rwa [Option.mem_def.mp hc] at hhead

theorem trimmed_trimBoth (p : Char → Bool) (cs : List Char) : Trimmed p cs (trimBoth p cs) := by
  have hfront := List.takeWhile_append_dropWhile (p := p) (l := cs)
  have hback : trimBoth p cs ++ ((cs.dropWhile p).reverse.takeWhile p).reverse =
      cs.dropWhile p := by
    rw [trimBoth, ← List.reverse_append, List.takeWhile_append_dropWhile, List.reverse_reverse]
  refine ⟨⟨cs.takeWhile p, ((cs.dropWhile p).reverse.takeWhile p).reverse, ?_, ?_, ?_⟩, ?_, ?_⟩
  · rw [List.append_assoc, hback, hfront]
  · exact fun c => List.mem_takeWhile_imp
  · exact fun c hc => List.mem_takeWhile_imp (List.mem_reverse.mp hc)
  · intro c hc
    -- what is left begins where dropping from the front has stopped
    have hhead : c ∈ (cs.dropWhile p).head? := by
      rw [← hback, List.head?_append, Option.mem_def.mp hc]
      rfl
    exact head?_dropWhile_eq_false p cs c hhead
  · intro c hc
    rw [trimBoth, List.getLast?_reverse] at hc
    exact head?_dropWhile_eq_false p _ c hc

end Trimmed

end EfiLoader.Text
