/-!
# The case of letters

Only the letters of ASCII have another case. Texts can be compared in lower case, or letter by
letter.
-/

namespace Easel.Text

/-- The text in lower case. -/
def lower (s : List Char) : List Char := s.map Char.toLower

/-- Whether two texts have equally many characters and each pair of them is the same in lower
case. -/
def alike (s t : List Char) : Bool :=
  s.length == t.length && (s.zip t).all fun p => p.1.toLower == p.2.toLower

end Easel.Text
