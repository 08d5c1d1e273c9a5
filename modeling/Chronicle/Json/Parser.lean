import Chronicle.Json.Number
import Chronicle.Text.Numeral

/-!
# Reading JSON

The grammar is strict: blanks are space, tab, line feed and carriage return; no trailing commas, no
comments, no leading `+` or zeros, no control characters inside strings, and only blanks after the
value. `parse` reads the shape of a document and leaves a `void` where a number or a text stands
for nothing; `read?` also asks that nothing is void and that containers nest at most
`nestingLimit` deep.

Every call of the reader on an item or a member follows a character that was taken, so twice the
length of the text bounds the depth of its recursion.
-/

namespace Chronicle
namespace Json

/-- The blanks between tokens. -/
def isSpace (c : Char) : Bool :=
  c == ' ' || c == '\n' || c == '\t' || c == '\r'

/-- The text from its first token on. -/
def skip (cs : List Char) : List Char :=
  cs.dropWhile isSpace

/-- The character that a letter names after a backslash. -/
def escape? : Char → Option Char
  | '"' => some '"'
  | '\\' => some '\\'
  | '/' => some '/'
  | 'b' => some '\x08'
  | 'f' => some '\x0c'
  | 'n' => some '\n'
  | 'r' => some '\r'
  | 't' => some '\t'
  | _ => none

/-- The rest of a string after its opening quote, up to its closing one: characters, and UTF-16
units where an escape gives one. -/
def stringUnits : List Char → Option (List (Char ⊕ Nat) × List Char)
  | '"' :: rest => some ([], rest)
  | '\\' :: 'u' :: a :: b :: c :: d :: rest => do
    let unit := (((← Numeral.hexDigit? a) * 16 + (← Numeral.hexDigit? b)) * 16
      + (← Numeral.hexDigit? c)) * 16 + (← Numeral.hexDigit? d)
    let (units, rest) ← stringUnits rest
    some (.inr unit :: units, rest)
  | '\\' :: e :: rest => do
    let c ← escape? e
    let (units, rest) ← stringUnits rest
    some (.inl c :: units, rest)
  | c :: rest => do
    guard (0x20 ≤ c.toNat)
    let (units, rest) ← stringUnits rest
    some (.inl c :: units, rest)
  | [] => none

/-- The first half of a surrogate pair. -/
def isHighSurrogate (u : Nat) : Bool := 0xD800 ≤ u && u < 0xDC00

/-- The second half of a surrogate pair. -/
def isLowSurrogate (u : Nat) : Bool := 0xDC00 ≤ u && u < 0xE000

/-- The characters that units stand for; a half of a pair on its own stands for none. -/
def pairUnits : List (Char ⊕ Nat) → Option (List Char)
  | [] => some []
  | .inl c :: rest => (c :: ·) <$> pairUnits rest
  | .inr u :: rest =>
    if isHighSurrogate u then
      match rest with
      | .inr v :: rest =>
        if isLowSurrogate v then
          (Char.ofNat (0x10000 + (u - 0xD800) * 0x400 + (v - 0xDC00)) :: ·) <$> pairUnits rest
        else none
      | _ => none
    else if isLowSurrogate u then none
    else (Char.ofNat u :: ·) <$> pairUnits rest

/-- The text of a string whose opening quote has been taken, if it has one, and what follows. -/
def string (cs : List Char) : Option (Option String × List Char) := do
  let (units, rest) ← stringUnits cs
  some ((pairUnits units).map String.ofList, rest)

/-- One or more digits, after an optional sign. -/
def exponent (cs : List Char) : Option (Int × List Char) :=
  let (negative, cs) :=
    match cs with
    | '+' :: rest => (false, rest)
    | '-' :: rest => (true, rest)
    | _ => (false, cs)
  match cs.span Char.isDigit with
  | ([], _) => none
  | (digits, rest) =>
    let n : Nat := digitsValue 0 digits
    some (if negative then -n else n, rest)

/-- The characters that numbers are written with. -/
def isNumeric (c : Char) : Bool :=
  c.isDigit || c = '+' || c = '-' || c = '.' || c = 'e' || c = 'E'

/-- Whether a number is negative, and what follows its sign. -/
def takeSign : List Char → Bool × List Char
  | '-' :: rest => (true, rest)
  | cs => (false, cs)

/-- The digits stand for a whole number: there are some, and no zero stands before the others. -/
def isWhole : List Char → Bool
  | [] => false
  | '0' :: _ :: _ => false
  | _ => true

/-- The digits of a fraction, if a point begins one, and what follows. -/
def takeFraction : List Char → Option (Option (List Char) × List Char)
  | '.' :: rest =>
    match rest.span Char.isDigit with
    | ([], _) => none
    | (digits, rest) => some (some digits, rest)
  | cs => some (none, cs)

/-- The power of ten, if a letter begins one, and what follows. -/
def takePower : List Char → Option (Option Int × List Char)
  | 'e' :: rest => (exponent rest).map fun (e, rest) => (some e, rest)
  | 'E' :: rest => (exponent rest).map fun (e, rest) => (some e, rest)
  | cs => some (none, cs)

/-- A number and what follows it. In a document no numeric character follows a number, so its text
reaches as far as they do. -/
def number (cs : List Char) : Option (Json × List Char) := do
  let (negative, afterSign) := takeSign cs
  let (whole, afterWhole) := afterSign.span Char.isDigit
  guard (isWhole whole)
  let (fraction, afterFraction) ← takeFraction afterWhole
  let (power, rest) ← takePower afterFraction
  some (ofParts negative whole fraction power (String.ofList (cs.takeWhile isNumeric)), rest)

/-- The members of an object, as an object; a name that is no text makes it void. -/
def ofMembers (members : List (Option String × Json)) : Json :=
  match members.mapM fun (name, j) => name.map fun name => (name, j) with
  | some members => .obj members
  | none => .void

mutual

/-- A value and what follows it. -/
def value : (steps : Nat) → List Char → Option (Json × List Char)
  | 0, _ => none
  | n + 1, cs =>
    match skip cs with
    | '{' :: rest =>
      match skip rest with
      | '}' :: rest => some (.obj [], rest)
      | rest => (members n rest).map fun (ms, rest) => (ofMembers ms, rest)
    | '[' :: rest =>
      match skip rest with
      | ']' :: rest => some (.arr [], rest)
      | rest => (items n rest).map fun (js, rest) => (.arr js, rest)
    | '"' :: rest =>
      (string rest).map fun (s, rest) => (match s with | some s => .str s | none => .void, rest)
    | 'n' :: 'u' :: 'l' :: 'l' :: rest => some (.null, rest)
    | 't' :: 'r' :: 'u' :: 'e' :: rest => some (.bool true, rest)
    | 'f' :: 'a' :: 'l' :: 's' :: 'e' :: rest => some (.bool false, rest)
    | cs => number cs

/-- One or more items and the closing bracket. -/
def items : (steps : Nat) → List Char → Option (List Json × List Char)
  | 0, _ => none
  | n + 1, cs => do
    let (j, rest) ← value n cs
    match skip rest with
    | ',' :: rest =>
      let (js, rest) ← items n rest
      some (j :: js, rest)
    | ']' :: rest => some ([j], rest)
    | _ => none

/-- One or more members and the closing brace. -/
def members : (steps : Nat) → List Char → Option (List (Option String × Json) × List Char)
  | 0, _ => none
  | n + 1, cs => do
    let '"' :: rest := skip cs | none
    let (name, rest) ← string rest
    let ':' :: rest := skip rest | none
    let (j, rest) ← value n rest
    match skip rest with
    | ',' :: rest =>
      let (ms, rest) ← members n rest
      some ((name, j) :: ms, rest)
    | '}' :: rest => some ([(name, j)], rest)
    | _ => none

end

/-- The document that a text has the shape of. -/
def parse (text : String) : Option Json := do
  let cs := text.toList
  let (j, rest) ← value (2 * cs.length + 2) cs
  guard (skip rest).isEmpty
  some j

/-- The document that a text stands for. -/
def read? (text : String) : Option Json := do
  let j ← parse text
  guard (j.sound 0)
  some j

end Json
end Chronicle
