import CrateFold.Text.Ranges

/-!
# White space

`isBlank` is white space of any script together with the four information separators; `trim` and
`trimEnd` remove it at the ends of a text.
-/

namespace CrateFold.Text

/-- White space characters. -/
def blanks : Ranges :=
  [(0x9, 0xd), (0x1c, 0x20), (0x85, 0x85), (0xa0, 0xa0), (0x1680, 0x1680), (0x2000, 0x200a),
   (0x2028, 0x2029), (0x202f, 0x202f), (0x205f, 0x205f), (0x3000, 0x3000)]

/-- Whether a character is white space. -/
def isBlank (c : Char) : Bool := blanks.has c.toNat

/-- A list without the elements at its end that satisfy `p`. -/
def dropEndWhile {α : Type} (p : α → Bool) (l : List α) : List α := (l.reverse.dropWhile p).reverse

/-- Text without the white space at its end. -/
def trimEnd (s : List Char) : List Char := dropEndWhile isBlank s

/-- Text without the white space at both ends. -/
def trim (s : List Char) : List Char := trimEnd (s.dropWhile isBlank)

end CrateFold.Text
