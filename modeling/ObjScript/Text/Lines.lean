/-!
# Lines

Only the line feed ends a line.  A text can be read as lines that each end with one (`endedLines`, where
the last may go without), or as the stretches between line feeds (`splitLines`, which are one more).
-/

namespace ObjScript.Text

/-- Adds a character to the front of the first line. -/
def consFirst (c : Char) : List (List Char) → List (List Char)
  | [] => [[c]]
  | line :: rest => (c :: line) :: rest

/-- The lines of a text without their line feeds; the last line may go without one. -/
def endedLines : List Char → List (List Char)
  | [] => []
  | c :: cs => if c = '\n' then [] :: endedLines cs else consFirst c (endedLines cs)

/-- The stretches between the line feeds of a text. -/
def splitLines : List Char → List (List Char)
  | [] => [[]]
  | c :: cs => if c = '\n' then [] :: splitLines cs else consFirst c (splitLines cs)

end ObjScript.Text
