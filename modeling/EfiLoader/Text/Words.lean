/-!
# EfiLoader.Text.Words

White space and words.  White space is the Unicode property `White_Space`;
words are the maximal runs of other characters.
-/

namespace EfiLoader.Text

/-- The code points with the property `White_Space`, as inclusive ranges. -/
def blankRanges : List (Nat × Nat) :=
  [(0x0009, 0x000D), (0x0020, 0x0020), (0x0085, 0x0085), (0x00A0, 0x00A0), (0x1680, 0x1680),
   (0x2000, 0x200A), (0x2028, 0x2029), (0x202F, 0x202F), (0x205F, 0x205F), (0x3000, 0x3000)]

/-- Whether a character is white space. -/
def isBlank (c : Char) : Bool := blankRanges.any fun r => r.1 ≤ c.toNat && c.toNat ≤ r.2

/-- The words of a list of characters, in order. -/
def words (cs : List Char) : List (List Char) :=
  match _h : cs.dropWhile isBlank with
  | [] => []
  | c :: rest =>
    (c :: rest).takeWhile (!isBlank ·) :: words (rest.dropWhile (!isBlank ·))
termination_by cs.length
decreasing_by
  have h₁ : (cs.dropWhile isBlank).length ≤ cs.length := (List.dropWhile_sublist _).length_le
  have h₂ : (rest.dropWhile (!isBlank ·)).length ≤ rest.length :=
    (List.dropWhile_sublist _).length_le
  rw [_h, List.length_cons] at h₁
  omega

/-- `cs` without the characters at both ends that satisfy `p`. -/
def trimBoth (p : Char → Bool) (cs : List Char) : List Char :=
  (((cs.dropWhile p).reverse).dropWhile p).reverse

end EfiLoader.Text
