import Chronicle.Keyed
import Chronicle.Log.Record
import Chronicle.Text.Expression.Reader

/-!
# Log filters

A filter says which records are written. It is spelled as directives with commas between, and may
end with a slash and a regular expression, which the message of a record then has to match.

| directive | lets pass |
| --- | --- |
| `level` | records up to the level, of all topics |
| `path=level` | records up to the level, of the topics whose path begins with `path` |
| `path`, `path=` | all records of these topics |

The level `off` lets nothing pass. Of the directives that are about a topic the one with the longest
path counts, and of two with the same path the later. Without any directive, errors pass. What
cannot be read is left out, with an objection: a directive, an expression, or all of a spelling with
two slashes.
-/

namespace Chronicle
namespace Log

/-- The level up to which records pass, if any do. -/
abbrev Threshold := Option Level

namespace Threshold

/-- The threshold of the given name, in letters of either case. -/
def ofName? (s : String) : Option Threshold :=
  if s.toUpper == "OFF" then some none else (Level.ofName? s).map some

/-- A level is up to the threshold. -/
def admits (t : Threshold) (l : Level) : Bool :=
  t.any fun most => l.rank ≤ most.rank

end Threshold

/-- Where the paths of the topics begin that a directive is about, if it is not about all, and their
threshold. -/
abbrev Directive := Option String × Threshold

namespace Directive

/-- Reads a directive; the error is the part that cannot be read. -/
def read (s : String) : Except String Directive :=
  match Text.pieces '=' s with
  | [word] =>
    match Threshold.ofName? word with
    | some t => .ok (none, t)
    | none => .ok (some word, some .trace)
  | [path, word] =>
    let word := String.ofList (Text.trim word.toList)
    if word.isEmpty then .ok (some path, some .trace)
    else
      match Threshold.ofName? word with
      | some t => .ok (some path, t)
      | none => .error word
  | _ => .error s

/-- The length of the path. -/
def reach (d : Directive) : Nat :=
  (d.1.getD "").length

/-- The directive is about a topic. -/
def concerns (t : Topic) (d : Directive) : Bool :=
  d.1.all fun path => t.path.startsWith path

end Directive

/-- Which records are written. -/
structure Filter where
  directives : List Directive := []
  expression : Option Text.Expression := none

namespace Filter

/-- The filter that lets records up to a level pass. -/
def upTo (l : Level) : Filter :=
  { directives := [(none, some l)] }

/-- The threshold for a topic. -/
def threshold (f : Filter) (t : Topic) : Threshold :=
  let longer (best : Option Directive) (d : Directive) : Option Directive :=
    if best.any fun b => d.reach < b.reach then best else some d
  ((f.directives.filter (Directive.concerns t)).foldl longer none).bind Prod.snd

/-- A record is written. -/
def admits (f : Filter) (r : Record) : Bool :=
  (f.threshold r.topic).admits r.level && f.expression.all fun e => e.occurs r.message

/-- The directives in a spelling, and the objections to those that cannot be read. -/
def readDirectives (s : String) : List Directive × List String :=
  let words := (Text.pieces ',' s).map fun word => String.ofList (Text.trim word.toList)
  let (directives, objections) :=
    ((words.filter fun word => !word.isEmpty).map Directive.read).foldr
      (fun read (directives, objections) =>
        match read with
        | .ok d => (d :: directives, objections)
        | .error part => (directives, ("invalid logging spec '" ++ part ++ "'") :: objections))
      ([], [])
  (if directives.isEmpty then [(none, some .error)] else Keyed.settle directives, objections)

/-- The filter of a spelling, and the objections to what cannot be read. -/
def read (s : String) : Filter × List String :=
  match Text.pieces '/' s with
  | [directives] =>
    let (directives, objections) := readDirectives directives
    ({ directives }, objections)
  | [directives, expression] =>
    let (directives, objections) := readDirectives directives
    match Text.Expression.read? expression with
    | some e => ({ directives, expression := some e }, objections)
    | none => ({ directives }, objections ++ ["invalid regex filter"])
  | _ => (.upTo .error, ["invalid logging spec '" ++ s ++ "' (too many '/'s)"])

end Filter
end Log
end Chronicle
