import TaggedJson.Text.Ranges
/-! White space as Unicode's `White_Space` property has it, and text without any at its ends. -/
namespace TaggedJson.Text

/-- The code points with the property, as inclusive ranges in ascending order. -/
def blankRanges : List (Nat × Nat) :=
  [(0x9, 0xD), (0x20, 0x20), (0x85, 0x85), (0xA0, 0xA0), (0x1680, 0x1680), (0x2000, 0x200A),
    (0x2028, 0x2029), (0x202F, 0x202F), (0x205F, 0x205F), (0x3000, 0x3000)]

def isBlank (c : Char) : Bool := inRanges blankRanges c

def dropBlanks (chars : List Char) : List Char := chars.dropWhile isBlank

/-- Blanks are dropped at both ends and kept inside. -/
def trimBlanks (chars : List Char) : List Char :=
  (dropBlanks (dropBlanks chars).reverse).reverse

end TaggedJson.Text
