import ObjScript.Text.Range

/-!
# Blanks

The characters that separate tokens and are trimmed from the ends of a line: the white space of
Unicode together with the four information separators.  Only the line feed ends a line.
-/

namespace ObjScript.Text

/-- All blank characters. -/
def blankRanges : List Range :=
  [(0x9, 0xD), (0x1C, 0x20), (0x85, 0x85), (0xA0, 0xA0), (0x1680, 0x1680), (0x2000, 0x200A),
   (0x2028, 0x2029), (0x202F, 0x202F), (0x205F, 0x205F), (0x3000, 0x3000)]

/-- A blank character. -/
def isBlank (c : Char) : Bool :=
  inRanges blankRanges c

/-- The text without the blanks at its start. -/
def trimStart (s : List Char) : List Char :=
  s.dropWhile isBlank

/-- The text without the blanks at either end. -/
def trim (s : List Char) : List Char :=
  (trimStart (trimStart s).reverse).reverse

end ObjScript.Text
