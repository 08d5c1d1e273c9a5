import Chronicle.Text.Expression.CharSet

/-!
# Regular expressions

An expression says which pieces of a text it matches, and `occurs` whether a text has a piece that
it matches. A piece may be empty. Assertions match the empty piece where they hold between the
character before and the character after.

A text is matched character by character. What may be left to match after a character are the
`rests` of an expression.
-/

namespace Chronicle
namespace Text

/-- Something that holds between two characters of a text, or at one of its ends. Lines end with a
line feed; `returnStart` and `returnStop` take a carriage return, and one with a line feed behind
it, for a line end as well. -/
inductive Assertion
  | textStart
  | textStop
  | lineStart
  | lineStop
  | returnStart
  | returnStop
  | wordEdge
  | noWordEdge
  | wordStart
  | wordStop
  | noWordBefore
  | noWordAfter
deriving DecidableEq, Repr

/-- An assertion holds between a character and the next one. -/
def Assertion.holds (before after : Option Char) : Assertion → Bool
  | .textStart => before.isNone
  | .textStop => after.isNone
  | .lineStart => before.all (· == '\n')
  | .lineStop => after.all (· == '\n')
  | .returnStart => before.all fun c => c == '\n' || (c == '\r' && after != some '\n')
  | .returnStop => after.all fun c => c == '\r' || (c == '\n' && before != some '\r')
  | .wordEdge => before.any CharSet.isWord != after.any CharSet.isWord
  | .noWordEdge => before.any CharSet.isWord == after.any CharSet.isWord
  | .wordStart => !before.any CharSet.isWord && after.any CharSet.isWord
  | .wordStop => before.any CharSet.isWord && !after.any CharSet.isWord
  | .noWordBefore => !before.any CharSet.isWord
  | .noWordAfter => !after.any CharSet.isWord

/-- A regular expression. `times a least most` is `a` from `least` times up to `most` times, if
there is a most. -/
inductive Expression
  | empty
  | look (a : Assertion)
  | one (s : CharSet)
  | seq (a b : Expression)
  | either (a b : Expression)
  | times (a : Expression) (least : Nat) (most : Option Nat)
deriving DecidableEq, Repr

namespace Expression

/-- The expression matches the empty piece between a character and the next one. -/
def matchesEmpty (before after : Option Char) : Expression → Bool
  | .empty => true
  | .look a => a.holds before after
  | .one _ => false
  | .seq a b => a.matchesEmpty before after && b.matchesEmpty before after
  | .either a b => a.matchesEmpty before after || b.matchesEmpty before after
  | .times a least _ => least == 0 || a.matchesEmpty before after

/-- The expression matches the empty piece wherever it stands. -/
def alwaysEmpty : Expression → Bool
  | .empty => true
  | .look _ => false
  | .one _ => false
  | .seq a b => a.alwaysEmpty && b.alwaysEmpty
  | .either a b => a.alwaysEmpty || b.alwaysEmpty
  | .times a least _ => least == 0 || a.alwaysEmpty

/-- What always matches the empty piece matches it between any two characters. -/
theorem matchesEmpty_of_alwaysEmpty {r : Expression} (h : r.alwaysEmpty = true)
    (before after : Option Char) : r.matchesEmpty before after = true := by
  induction r with
  | empty => rfl
  | look a => simp [alwaysEmpty] at h
  | one s => simp [alwaysEmpty] at h
  | seq a b iha ihb => simp_all [alwaysEmpty, matchesEmpty]
  | either a b iha ihb =>
    simp only [alwaysEmpty, Bool.or_eq_true] at h
    rcases h with h | h
    · simp [matchesEmpty, iha h]
    · simp [matchesEmpty, ihb h]
  | times a least most ih =>
    simp only [alwaysEmpty, Bool.or_eq_true] at h
    rcases h with h | h
    · simp [matchesEmpty, h]
    · simp [matchesEmpty, ih h]

/-- One expression after another. -/
def followedBy (a b : Expression) : Expression :=
  if a = .empty then b else .seq a b

/-- What may be left to match after the character `c`, which stands behind `before`. In a repetition
all times before the one that takes `c` match the empty piece. There need be no more of them than
the repetition asks for, and none if the repeated expression can match the empty piece later as
well. -/
def rests (before : Option Char) (c : Char) : Expression → List Expression
  | .empty => []
  | .look _ => []
  | .one s => if s.holds c then [.empty] else []
  | .seq a b =>
    (a.rests before c).map (followedBy · b) ++
      if a.matchesEmpty before (some c) then b.rests before c else []
  | .either a b => a.rests before c ++ b.rests before c
  | .times a least most =>
    match a.rests before c with
    | [] => []
    | first =>
      let skipped :=
        if a.matchesEmpty before (some c) && !a.alwaysEmpty then List.range (max least 1) else [0]
      let later := (skipped.filter fun n => most.all (n < ·)).map fun n =>
        Expression.times a (least - 1 - n) (most.map (· - 1 - n))
      first.flatMap fun rest => later.map (followedBy rest)

/-- The expression matches a piece of a text that stands behind `before`, or one of `begun` matches
a piece from its start. -/
def occursFrom (r : Expression) (before : Option Char) (begun : List Expression) :
    List Char → Bool
  | [] => (r :: begun).any (matchesEmpty before none)
  | c :: text =>
    (r :: begun).any (matchesEmpty before (some c)) ||
      occursFrom r (some c) ((r :: begun).flatMap (rests before c)).eraseDups text

/-- The expression matches a piece of a text. -/
def occurs (r : Expression) (text : String) : Bool :=
  occursFrom r none [] text.toList

end Expression
end Text
end Chronicle
