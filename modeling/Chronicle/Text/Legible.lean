/-!
# What a terminal shows

A terminal takes some characters for itself: most control characters, and the sequences that an
escape character begins. `legible` keeps the others. Of the control characters it keeps those that
move on within a text: tab, line end, form feed and carriage return.

| sequence | begins with an escape and | ends with |
| --- | --- | --- |
| control sequence | `[` | a character from `@` to `~` |
| command | `]` | a bell |
| device string | `P` and a header | the byte `9C` |
| string | `X`, `^` or `_` | the byte `9C` |
| all others | any number from the space to `/` | a character from `0` to `~` |

The header of a device string is parameters, from `0` to `;` but with any of `<` to `?` in the first
place, then intermediates, from the space to `/`. The first character up to `~` that is neither in
its place ends the header. Every sequence is broken off by another escape, by a cancel (`U+0018`) and
by a substitute (`U+001A`).

A move within a control sequence or within one of the others is kept, and with it the characters
after it, up to the first that is not to be shown. There the sequence goes on, unless a character
beyond ASCII was kept in between, which ends it.
-/

namespace Chronicle
namespace Text

/-- Where a terminal is in a text. -/
inductive Mode
  | plain
  | escaped
  | shortSequence
  | controlSequence
  | command
  | deviceHeader
  | deviceParameters
  | deviceIntermediates
  | string
deriving DecidableEq, Repr

/-- A control character that moves on within a text. -/
def isMove (c : Char) : Bool :=
  c == '\t' || c == '\n' || c == '\x0C' || c == '\r'

/-- A character that is shown outside sequences: no control character of ASCII but a move. -/
def isShown (c : Char) : Bool :=
  (' ' ≤ c && c ≠ '\x7F') || isMove c

/-- The mode after an escape and a character. -/
def Mode.ofIntroducer (c : Char) : Mode :=
  if c = '[' then .controlSequence
  else if c = ']' then .command
  else if c = 'P' then .deviceHeader
  else if c = 'X' || c = '^' || c = '_' then .string
  else if ' ' ≤ c && c ≤ '/' then .shortSequence
  else if '0' ≤ c && c ≤ '~' then .plain
  else .escaped

/-- The mode in the header of a device string after a character, where characters from `least` on
end the header. -/
def Mode.inHeader (m : Mode) (least c : Char) : Mode :=
  if ' ' ≤ c && c ≤ '/' then .deviceIntermediates
  else if least ≤ c && c ≤ '~' then .string
  else m

/-- The mode after a character that neither is an escape nor breaks a sequence off. -/
def Mode.next (m : Mode) (c : Char) : Mode :=
  match m with
  | .plain => .plain
  | .escaped => .ofIntroducer c
  | .shortSequence => if '0' ≤ c && c ≤ '~' then .plain else m
  | .controlSequence => if '@' ≤ c && c ≤ '~' then .plain else m
  | .command => if c = '\x07' then .plain else m
  | .deviceHeader => if '0' ≤ c && c ≤ '?' then .deviceParameters else m.inHeader '@' c
  | .deviceParameters => m.inHeader '<' c
  | .deviceIntermediates => m.inHeader '0' c
  | .string => if (String.utf8EncodeChar c).contains 0x9C then .plain else m

/-- The mode after a character. -/
def Mode.after (m : Mode) (c : Char) : Mode :=
  if c = '\x1B' then .escaped
  else if c = '\x18' || c = '\x1A' then .plain
  else m.next c

/-- A character is kept in a mode. -/
def Mode.keeps (m : Mode) (c : Char) : Bool :=
  match m with
  | .plain => isShown c
  | .escaped => isMove c
  | .shortSequence => isMove c
  | .controlSequence => isMove c
  | _ => false

/-- The characters that are kept in a mode, where `showing` tells that the last one was. -/
def keptFrom : Mode → (showing : Bool) → List Char → List Char
  | _, _, [] => []
  | m, showing, c :: rest =>
    if (showing && isShown c) || m.keeps c then
      c :: keptFrom (if c ≤ '~' then m else .plain) true rest
    else keptFrom (m.after c) false rest

/-- A text without what a terminal takes for itself. -/
def legible (s : String) : String :=
  String.ofList (keptFrom .plain false s.toList)

end Text
end Chronicle
