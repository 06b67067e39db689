/-!
# Splitting and joining text

Text is split at each occurrence of a separator, from left to right; the pieces between are kept,
the empty ones too, so there is always one piece more than there are separators.
-/

namespace CrateFold.Text

/-- Puts a character in front of the first piece. -/
def consFirst (c : Char) : List (List Char) → List (List Char)
  | [] => [[c]]
  | piece :: rest => (c :: piece) :: rest

/-- The pieces of a text between occurrences of a character. -/
def splitAtChar (mark : Char) : List Char → List (List Char)
  | [] => [[]]
  | c :: rest => if c == mark then [] :: splitAtChar mark rest else consFirst c (splitAtChar mark rest)

/-- The pieces of a text between double colons. -/
def splitAtColons : List Char → List (List Char)
  | [] => [[]]
  | ':' :: ':' :: rest => [] :: splitAtColons rest
  | c :: rest => consFirst c (splitAtColons rest)

/-- The lines of a text. -/
def lines (s : String) : List String := (splitAtChar '\n' s.toList).map String.ofList

/-- The first characters of a text, at most `n`. -/
def takeChars (n : Nat) (s : String) : String := String.ofList (s.toList.take n)

/-- A text of `n` equal characters. -/
def repeated (n : Nat) (c : Char) : String := String.ofList (List.replicate n c)

end CrateFold.Text
