import Chronicle.Dump.Basic
import Chronicle.Text.Column
import Chronicle.Text.Line

/-!
# Summaries

The summary of a dump is a text between two rulers: the numbers of events, attributes and failures,
the failures by category in a column of 20, and the attributes that hold something in a column of
50.
-/

namespace Chronicle
namespace Dump

/-- The dump as a text for the terminal, without a line end at its end. -/
def summary (d : Dump) : String :=
  Text.joinLines <|
    [Text.ruler 80, "STATE SUMMARY", Text.ruler 80,
      "Events processed: " ++ toString d.processed,
      "Attributes:       " ++ toString d.attributes.length,
      "Failures:         " ++ toString d.failures.length] ++
    d.failureCounts.entries.map (fun (kind, n) =>
      "  " ++ Text.column 20 kind ++ " " ++ toString n) ++
    [""] ++
    (d.attributes.filter fun a => !a.ongoing.isNull).map (fun a =>
      Text.column 50 a.path ++ " " ++ a.ongoing.render) ++
    [Text.ruler 80]

end Dump
end Chronicle
