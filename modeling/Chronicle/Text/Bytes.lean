/-!
# Bytes as text

Bytes are read as characters in UTF-8. A byte that is no part of a character is spelled out as the
replacement character and an escape for the second half of a surrogate pair. In a JSON document the
escape makes the string around the byte void, since the character before it keeps it from completing
a pair; after a backslash, and outside strings, the character is a fault.
-/

namespace Chronicle
namespace Text

/-- What stands for a byte that is no part of a character. -/
def strayByte : List Char := "\uFFFD\\udc00".toList

/-- The characters of the bytes from index `i` on. -/
def charsFrom (b : ByteArray) (i : Nat) : List Char :=
  if i < b.size then
    match b.utf8DecodeChar? i with
    | some c => c :: charsFrom b (i + c.utf8Size)
    | none => strayByte ++ charsFrom b (i + 1)
  else []
termination_by b.size - i
decreasing_by
  · have := c.utf8Size_pos
    omega
  · omega

/-- Bytes as a text. -/
def ofBytes (b : ByteArray) : String :=
  String.ofList (charsFrom b 0)

end Text
end Chronicle
