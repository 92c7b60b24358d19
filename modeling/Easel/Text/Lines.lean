/-!
# Lines

The lines of a text. A line end is a line feed, or a carriage return and a line feed; what follows
the last line end is a line only if it is not empty.
-/

namespace Easel.Text

/-- The text up to the first line feed and, if there is one, the text after it. -/
def splitLine : List Char → List Char × Option (List Char)
  | [] => ([], none)
  | '\n' :: rest => ([], some rest)
  | c :: rest =>
    let (line, more) := splitLine rest
    (c :: line, more)

theorem length_of_splitLine {s line rest : List Char} (h : splitLine s = (line, some rest)) :
    rest.length < s.length := by
  fun_induction splitLine s generalizing line with
  | case1 => simp at h
  | case2 r => simp_all
  | case3 c r _ line' more heq ih =>
    simp only [Prod.mk.injEq] at h
    have := ih (heq.trans (by rw [h.2]))
    simp only [List.length_cons]
    omega

/-- A line without the carriage return at its end. -/
def dropReturn (line : List Char) : List Char :=
  if line.getLast? = some '\r' then line.dropLast else line

/-- The lines of a text. -/
def lines (s : List Char) : List (List Char) :=
  match _h : splitLine s with
  | (line, none) => if line.isEmpty then [] else [line]
  | (line, some rest) => dropReturn line :: lines rest
termination_by s.length
decreasing_by exact length_of_splitLine _h

end Easel.Text
