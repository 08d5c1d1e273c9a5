/-!
# Columns

A column is a text filled up with spaces on its right to a given number of characters; a text that
is longer stays as it is. A ruler is a line of `=` signs.
-/

namespace Chronicle
namespace Text

/-- The text, filled up with spaces to `width` characters. -/
def column (width : Nat) (s : String) : String :=
  s ++ String.ofList (List.replicate (width - s.length) ' ')

/-- A line of `width` equals signs. -/
def ruler (width : Nat) : String :=
  String.ofList (List.replicate width '=')

end Text
end Chronicle
