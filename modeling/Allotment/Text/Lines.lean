/-! Text as lines. -/

namespace Allotment.Text

/-- A line without the carriage return at its end, if it has one. -/
def withoutReturn (line : String) : String :=
  let chars := line.toList
  if chars.getLast? = some '\r' then String.ofList chars.dropLast else line

/-- The lines of a text that ends with a line break. -/
def brokenLines (text : String) : List String := (text.splitOn "\n").map withoutReturn

end Allotment.Text
