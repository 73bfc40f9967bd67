import GitInvocation.Text.Ranges
/-!
# Blank text

White space is the Unicode property `White_Space`, here and everywhere in the library. A value
made of nothing else is blank, and most operations treat a blank value like an absent one.
-/
namespace GitInvocation.Text

/-- The property `White_Space`, as inclusive ranges of code points. -/
def blankRanges : List (Nat × Nat) :=
  [(0x9, 0xD), (0x20, 0x20), (0x85, 0x85), (0xA0, 0xA0), (0x1680, 0x1680), (0x2000, 0x200A),
   (0x2028, 0x2029), (0x202F, 0x202F), (0x205F, 0x205F), (0x3000, 0x3000)]

def isBlank (c : Char) : Bool := inRanges blankRanges c

/-- Drops the longest run of characters with `p` at the end. -/
def dropTrailing (p : Char → Bool) (s : List Char) : List Char :=
  (s.reverse.dropWhile p).reverse

def trimChars (s : List Char) : List Char := dropTrailing isBlank (s.dropWhile isBlank)

/-- The text without the white space around it. -/
def trim (s : String) : String := String.ofList (trimChars s.toList)

/-- True of a text that holds nothing but white space, the empty text included. -/
def blank (s : String) : Bool := s.toList.all isBlank

/-- The value, unless it is blank. -/
def nonBlank? (s : Option String) : Option String := s.filter fun v => !blank v

end GitInvocation.Text
