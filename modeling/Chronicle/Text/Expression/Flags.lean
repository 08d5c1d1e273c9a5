import Chronicle.Text.Blank

/-!
# Flags of regular expressions

| flag | when it is set |
| --- | --- |
| `i` | letters stand for either case |
| `m` | `^` and `$` hold at each line |
| `s` | `.` matches a line feed as well |
| `R` | a carriage return ends a line |
| `x` | blanks, and comments from `#` to the end of the line, may stand between the parts |
| `U` | nothing changes here |
| `u` | characters are matched, and not bytes |

Only `u` is set at the start. Where blanks may stand between the parts, they may stand between the
signs of a number as well.
-/

namespace Chronicle
namespace Text
namespace Expression

/-- How an expression is read. -/
structure Flags where
  caseless : Bool := false
  multiline : Bool := false
  dotAll : Bool := false
  returns : Bool := false
  spaced : Bool := false
  unicode : Bool := true

namespace Flags

/-- The flags with the one of a letter set or not. -/
def put? (f : Flags) (set : Bool) : Char → Option Flags
  | 'i' => some { f with caseless := set }
  | 'm' => some { f with multiline := set }
  | 's' => some { f with dotAll := set }
  | 'R' => some { f with returns := set }
  | 'x' => some { f with spaced := set }
  | 'u' => some { f with unicode := set }
  | 'U' => some f
  | _ => none

/-- Reads letters of flags up to the sign that ends them; `seen` are those before, the last one
first, and those behind a dash are not set. Gives the flags, whether there was a letter, the sign
and what follows it. -/
def read (f : Flags) (seen : List Char) : List Char → Option (Flags × Bool × Char × List Char)
  | [] => none
  | c :: rest =>
    if c = ':' || c = ')' then
      if seen.head? = some '-' then none else some (f, !seen.isEmpty, c, rest)
    else if seen.contains c then none
    else if c = '-' then read f (c :: seen) rest
    else (f.put? (!seen.contains '-') c).bind fun f => read f (c :: seen) rest

/-- A text without the blanks and comments at its start. -/
def skipSpace : (inComment : Bool) → List Char → List Char
  | _, [] => []
  | true, c :: rest => skipSpace (c != '\n') rest
  | false, c :: rest =>
    if isBlank c then skipSpace false rest
    else if c = '#' then skipSpace true rest
    else c :: rest

/-- The next part, behind blanks and comments if there may be any. -/
def skip (f : Flags) (cs : List Char) : List Char :=
  if f.spaced then skipSpace false cs else cs

/-- Characters of a kind, with what may be between them dropped, and what follows; `fuel` bounds
their number. -/
def runFrom (f : Flags) (kind : Char → Bool) : (fuel : Nat) → List Char → List Char × List Char
  | fuel + 1, c :: rest =>
    if kind c then
      let (run, rest) := f.runFrom kind fuel (f.skip rest)
      (c :: run, rest)
    else ([], c :: rest)
  | _, cs => ([], cs)

/-- Characters of a kind, with what may be between them dropped, and what follows. -/
def run (f : Flags) (kind : Char → Bool) (cs : List Char) : List Char × List Char :=
  f.runFrom kind cs.length cs

/-- A number below `2 ^ 32` with blanks around it, and what follows. -/
def count? (f : Flags) (cs : List Char) : Option Nat × List Char :=
  let (digits, rest) := f.run Char.isDigit (cs.dropWhile isBlank)
  let n := digits.foldl (fun n c => n * 10 + (c.toNat - '0'.toNat)) 0
  (if digits.isEmpty || 0xFFFFFFFF < n then none else some n, f.skip (rest.dropWhile isBlank))

end Flags

end Expression
end Text
end Chronicle
