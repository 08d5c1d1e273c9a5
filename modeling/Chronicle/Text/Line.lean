/-!
# Lines

A line ends with a line end, and a carriage return right before the line end belongs to it. What
follows the last line end of a text is a line as well, unless it is empty.
-/

namespace Chronicle
namespace Text

/-- The pieces of a text between separators; there is always one. -/
def piecesOf (separator : Char) : List Char → List (List Char)
  | [] => [[]]
  | c :: rest =>
    if c = separator then [] :: piecesOf separator rest
    else
      match piecesOf separator rest with
      | piece :: more => (c :: piece) :: more
      | [] => [[c]]

/-- There is always a piece. -/
theorem piecesOf_ne_nil (separator : Char) (cs : List Char) : piecesOf separator cs ≠ [] := by
  cases cs with
  | nil => simp [piecesOf]
  | cons c rest =>
    rw [piecesOf]
    split
    · simp
    · split <;> simp

/-- The pieces of a text between separators, as texts. -/
def pieces (separator : Char) (s : String) : List String :=
  (piecesOf separator s.toList).map String.ofList

/-- Lines, each but the last followed by a line end. -/
def joinLines (lines : List String) : String :=
  "\n".intercalate lines

/-- Lines, each followed by a line end. -/
def printLines (lines : List String) : String :=
  String.join (lines.map (· ++ "\n"))

/-- A text whose lines after the first stand four spaces further in. -/
def indent (s : String) : String :=
  "\n    ".intercalate (pieces '\n' s)

/-- What stands before a line end without the carriage return that belongs to the line end. -/
def withoutReturn (line : List Char) : List Char :=
  if line.getLast? = some '\r' then line.dropLast else line

/-- The lines of a text. -/
def lines (s : String) : List String :=
  let all := piecesOf '\n' s.toList
  let last := all.getLast?.toList.filter fun line => !line.isEmpty
  (all.dropLast.map withoutReturn ++ last).map String.ofList

/-- The rest of a line that starts with a label. -/
def afterLabel? (label line : String) : Option String :=
  if line.startsWith label then some (String.ofList (line.toList.drop label.length)) else none

end Text
end Chronicle
