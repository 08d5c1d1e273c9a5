import Chronicle.Text.Invisible

/-!
# Texts as literals

A literal is a text in double quotes. The quote and the backslash have a backslash before them; tab,
line feed, carriage return and the null character are named by a letter or `0`; other characters
that show nothing of their own are written `\u{…}` with their code point in hexadecimal. All else
stands for itself.
-/

namespace Chronicle
namespace Text

/-- A character as it is written inside a literal. -/
def literalChar (c : Char) : List Char :=
  match c with
  | '"' => ['\\', '"']
  | '\\' => ['\\', '\\']
  | '\t' => ['\\', 't']
  | '\n' => ['\\', 'n']
  | '\r' => ['\\', 'r']
  | '\x00' => ['\\', '0']
  | c =>
    if isInvisible c then
      ['\\', 'u', '{'] ++ Nat.toDigits 16 c.toNat ++ ['}']
    else [c]

/-- A text as a literal. -/
def literal (s : String) : String :=
  "\"" ++ String.ofList (s.toList.flatMap literalChar) ++ "\""

end Text
end Chronicle
