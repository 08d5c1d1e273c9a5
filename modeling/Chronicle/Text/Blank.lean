/-!
# Blanks

A blank is a character with the Unicode property White_Space:

| characters | code points |
| --- | --- |
| tab to carriage return | `U+0009` to `U+000D` |
| space, next line, no-break space | `U+0020`, `U+0085`, `U+00A0` |
| Ogham space mark | `U+1680` |
| en quad to hair space | `U+2000` to `U+200A` |
| line and paragraph separator | `U+2028`, `U+2029` |
| narrow no-break, medium mathematical, ideographic space | `U+202F`, `U+205F`, `U+3000` |

`trim` drops the blanks at both ends of a text.
-/

namespace Chronicle
namespace Text

/-- The first and last code point of each run of blanks. -/
def blankRuns : List (Nat × Nat) :=
  [(0x09, 0x0D), (0x20, 0x20), (0x85, 0x85), (0xA0, 0xA0), (0x1680, 0x1680), (0x2000, 0x200A),
    (0x2028, 0x2029), (0x202F, 0x202F), (0x205F, 0x205F), (0x3000, 0x3000)]

/-- A character with the Unicode property White_Space. -/
def isBlank (c : Char) : Bool :=
  blankRuns.any fun run => run.1 ≤ c.toNat && c.toNat ≤ run.2

/-- A text without the blanks at its ends. -/
def trim (s : List Char) : List Char :=
  ((s.dropWhile isBlank).reverse.dropWhile isBlank).reverse

/-- The ASCII blanks of core are blanks. -/
theorem isBlank_of_isWhitespace {c : Char} (h : c.isWhitespace = true) : isBlank c = true := by
  simp only [Char.isWhitespace, Bool.or_eq_true, decide_eq_true_eq] at h
  rcases h with ((rfl | rfl) | rfl) | rfl <;> decide

@[simp] theorem trim_nil : trim [] = [] := rfl

end Text
end Chronicle
