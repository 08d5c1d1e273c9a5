import Chronicle.Text.Bytes

/-!
# Bytes of a text

The bytes of a text are read as that text (`Text.ofBytes_toUTF8`): no byte of it is a stray one. The
reader stands at an index into the bytes, so the induction is over the characters that are still
behind it.
-/

namespace Chronicle
namespace Text

theorem utf8DecodeChar?_append (read : List Char) (c : Char) (rest : List Char) :
    (read ++ c :: rest).utf8Encode.utf8DecodeChar? read.utf8Encode.size = some c := by
  rw [ByteArray.utf8DecodeChar?_eq_utf8DecodeChar?_extract, List.utf8Encode_append,
    ByteArray.size_append, ByteArray.extract_append_eq_right rfl rfl]
  exact List.utf8DecodeChar?_utf8Encode_cons

/-- Behind the characters that were read stand the others. -/
theorem charsFrom_append (read rest : List Char) :
    charsFrom (read ++ rest).utf8Encode read.utf8Encode.size = rest := by
  induction rest generalizing read with
  | nil =>
      rw [List.append_nil, charsFrom, if_neg (Nat.lt_irrefl _)]
  | cons c rest ih =>
      have hdecode := utf8DecodeChar?_append read c rest
      have hlt : read.utf8Encode.size < (read ++ c :: rest).utf8Encode.size :=
        ByteArray.lt_size_of_isSome_utf8DecodeChar? (by rw [hdecode]; rfl)
      have hnext : (read ++ [c]).utf8Encode.size = read.utf8Encode.size + c.utf8Size := by
        rw [List.utf8Encode_append, ByteArray.size_append, List.utf8Encode_singleton]
        simp
      have hrest := ih (read ++ [c])
      rw [List.append_assoc, List.singleton_append, hnext] at hrest
      rw [charsFrom, if_pos hlt, hdecode]
      exact congrArg (c :: ·) hrest

/-- The bytes of a text are read as the text. -/
theorem ofBytes_toUTF8 (s : String) : ofBytes s.toUTF8 = s := by
  have hchars := charsFrom_append [] s.toList
  rw [List.nil_append, String.utf8Encode_toList] at hchars
  exact String.toList_injective ((String.toList_ofList).trans hchars)

end Text
end Chronicle
