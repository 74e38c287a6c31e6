/-!
# Cutting texts

`cutAt` cuts a text around the first occurrence of a character, `lines` cuts it into lines. A line
ends in a line feed, with or without a carriage return before it; the last line may lack the line
feed and is absent when it is empty.
-/

namespace CacheDelay.Text

/-- The parts of `cs` before and after the first `sep`, if there is one. -/
def cutAt (sep : Char) (cs : List Char) : Option (List Char × List Char) :=
  match cs.dropWhile (· != sep) with
  | [] => none
  | _ :: rest => some (cs.takeWhile (· != sep), rest)

/-- `cs` without one trailing carriage return. -/
def dropReturn (cs : List Char) : List Char :=
  if cs.getLast? = some '\r' then cs.dropLast else cs

/-- The lines among the pieces between line feeds. Each piece but the last was ended by a line
feed. -/
def linesOfPieces : List (List Char) → List (List Char)
  | [] => []
  | [last] => if last.isEmpty then [] else [last]
  | piece :: rest => dropReturn piece :: linesOfPieces rest

/-- The lines of `cs`. -/
def lines (cs : List Char) : List (List Char) :=
  linesOfPieces (cs.splitOn '\n')

example : lines "a\r\n\nb\r".toList = ["a".toList, [], "b\r".toList] := by decide

end CacheDelay.Text
