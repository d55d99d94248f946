/-!
# White space

The Unicode property White_Space, and the two operations that look at it: trimming and splitting a
text into words.
-/

namespace SemanticStore.Text

/-- The characters with the property White_Space, as closed ranges of code points. -/
def blankRanges : List (Nat × Nat) :=
  [(0x09, 0x0D), (0x20, 0x20), (0x85, 0x85), (0xA0, 0xA0), (0x1680, 0x1680), (0x2000, 0x200A),
   (0x2028, 0x2029), (0x202F, 0x202F), (0x205F, 0x205F), (0x3000, 0x3000)]

/-- A code point lies in one of the closed ranges. -/
def inRanges (ranges : List (Nat × Nat)) (n : Nat) : Bool :=
  ranges.any fun r => r.1 ≤ n && n ≤ r.2

def isBlank (c : Char) : Bool := inRanges blankRanges c.toNat

/-- The text without the white space at its two ends. -/
def trim (s : List Char) : List Char :=
  ((s.dropWhile isBlank).reverse.dropWhile isBlank).reverse

/-- The text holds nothing but white space. -/
def isBlankText (s : String) : Bool := s.toList.all isBlank

theorem dropWhile_isBlank_eq_nil_iff {s : List Char} :
    s.dropWhile isBlank = [] ↔ s.all isBlank = true := by
  constructor
  · intro h
    have hany := List.any_dropWhile (p := isBlank) (l := s)
    rw [h] at hany
    simpa using hany
  · intro h
    rw [← List.append_nil s, List.dropWhile_append_of_pos (List.all_eq_true.mp h)]
    rfl

/-- A text is trimmed to nothing just if all of it is white space. -/
theorem trim_eq_nil_iff {s : String} : trim s.toList = [] ↔ isBlankText s = true := by
  unfold trim isBlankText
  rw [List.reverse_eq_nil_iff, dropWhile_isBlank_eq_nil_iff, List.all_reverse,
    ← dropWhile_isBlank_eq_nil_iff (s := s.toList)]
  constructor
  · intro h
    -- a character that is not dropped at the front would stay at the end
    by_cases hne : s.toList.dropWhile isBlank = []
    · exact hne
    · have hhead := List.head_dropWhile_not isBlank hne
      rw [List.all_eq_true.mp h _ (List.head_mem hne)] at hhead
      cases hhead
  · intro h
    rw [h]
    rfl

/-- The runs of a text between separating characters; `run` holds the characters since the last
separator, newest first. -/
def runsFrom (separates : Char → Bool) (run : List Char) : List Char → List (List Char)
  | [] => if run = [] then [] else [run.reverse]
  | c :: rest =>
      if separates c then
        if run = [] then runsFrom separates [] rest
        else run.reverse :: runsFrom separates [] rest
      else runsFrom separates (c :: run) rest

/-- The maximal runs of characters that do not separate, in order. -/
def runs (separates : Char → Bool) (s : List Char) : List (List Char) := runsFrom separates [] s

/-- The maximal runs of characters that are not white space, in order. -/
def words (s : List Char) : List (List Char) := runs isBlank s

end SemanticStore.Text
