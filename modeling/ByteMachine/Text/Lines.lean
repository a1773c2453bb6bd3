/-!
# Lines

A text is cut behind its line feeds, and each segment loses its line end: a line feed, or a carriage
return with a line feed behind it. A last segment that no line feed ends keeps all it has, also a
carriage return. Nothing stands behind a last line feed, so closing the last line adds none.
-/

namespace ByteMachine.Text

/-- Put a character in front of a text that has been cut: a line feed is a segment of its own, any
other character joins the first segment. -/
def prependChar (c : Char) (following : List (List Char)) : List (List Char) :=
  if c = '\n' then [c] :: following
  else match following with
    | [] => [[c]]
    | first :: others => (c :: first) :: others

/-- Cut a text behind its line feeds. -/
def segments (text : List Char) : List (List Char) :=
  text.foldr prependChar []

/-- A line without a carriage return at its end. -/
def dropReturn (line : List Char) : List Char :=
  if line.getLast? = some '\r' then line.dropLast else line

/-- A segment without its line end. -/
def dropLineEnd (segment : List Char) : List Char :=
  if segment.getLast? = some '\n' then dropReturn segment.dropLast else segment

/-- Lines of a text. -/
def lines (text : List Char) : List (List Char) :=
  (segments text).map dropLineEnd

/-- Lines as a text, each closed by a line feed. -/
def unlines (lines : List String) : String :=
  String.join (lines.map fun line => line ++ "\n")

end ByteMachine.Text
