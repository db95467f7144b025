import AnnotationChecker.Text.Ranges
/-!
# White space

The characters with the property White_Space, and trimming them off both ends of a text.
-/

namespace AnnotationChecker.Text

/-- Code points with the property White_Space. -/
def whiteSpace : Ranges :=
  [(0x9, 0xd), (0x20, 0x20), (0x85, 0x85), (0xa0, 0xa0), (0x1680, 0x1680), (0x2000, 0x200a), (0x2028, 0x2029),
   (0x202f, 0x202f), (0x205f, 0x205f), (0x3000, 0x3000)]

/-- Drops the white space in front of a text. -/
def trimStart (cs : List Char) : List Char := cs.dropWhile whiteSpace.has

/-- Drops the white space at both ends of a text. -/
def trim (cs : List Char) : List Char := (trimStart (trimStart cs).reverse).reverse

end AnnotationChecker.Text
